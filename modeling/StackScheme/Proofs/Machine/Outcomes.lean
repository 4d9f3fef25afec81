import StackScheme.Proofs.Machine.Applications

/-!
# Outcomes of steps

What the functions of the machine come to on behalf of a node, whatever the store and the
arena hold.  Names of nodes that are not in the arena are allowed here, and lead to the end
of the run.

* Outcomes.  `Resolves` is the end of the run or a value for the levels.  This is all that a
  builtin comes to.  `callForm_cases` and `enter_cases` say that a form may go on, and that
  a compound is opened.
* Layout.  `deliver_child_cases` is what becomes of a combination that gets the value of a
  child, and `Laid.again` is a form that goes on.
* Steps.  `Moves` is all that a step can make of the levels, and `Laid.moves` says that
  nothing else happens.  Invariants of the levels follow from its cases.
* Runs.  `IsLaid.of_leads` says that the levels are well formed at each stage of a run.
-/

namespace StackScheme.Machine

/-! ## Outcomes -/

/-- The run is at its end, or the levels get a value of `node`. -/
inductive Resolves (arena : Arena) (node : NodeId) (ls : List Level) : Progress → Prop
  | halted (r : Except Error Value) (t : State) : Resolves arena node ls (.halted r t)
  | value (s : State) (pc : Option NodeId) (v : Value) :
    Resolves arena node ls (deliver arena node v (s.withLevels pc ls))

/-- What holds at the end of a run and for levels that get a value. -/
theorem Resolves.elim {arena : Arena} {node : NodeId} {ls : List Level} {p : Progress}
    {P : Progress → Prop} (h : Resolves arena node ls p) (hhalted : ∀ r t, P (.halted r t))
    (hvalue : ∀ (s : State) pc v, P (deliver arena node v (s.withLevels pc ls))) : P p := by
  cases h with
  | halted r t => exact hhalted r t
  | value s pc v => exact hvalue s pc v

section Outcomes

variable (arena : Arena) (node : NodeId) (s : State) (ls : List Level)

/-- A builtin has a value or fails. -/
theorem resolves_callBuiltin (b : Builtin) (args : List Value) :
    Resolves arena node ls (callBuiltin arena node b args (s.withLevels none ls)) := by
  rw [callBuiltin]
  cases b.call args with
  | error e => exact .halted _ _
  | ok reply =>
    cases reply with
    | value v => exact .value s none v
    | output text =>
      show Resolves arena node ls (writeText arena node text (s.withLevels none ls))
      rw [writeText]
      dsimp only [State.withLevels]
      rcases s.sink.write text with ⟨_ | reason, sink⟩
      · exact .value { s with sink } none .unspecified
      · exact .halted _ _

/-- An ordinary combination whose operator is no closure has a value or fails. -/
theorem resolves_dispatch_call (limit : Option Nat) (position : Nat) {values : List Value}
    (hvalues : ∀ c args, values ≠ .closure c :: args) :
    Resolves arena node ls
      (dispatch arena limit { node, base := (operandsOf ls).length, position, task := .call }
        values (s.withLevels none ls)) := by
  rcases values with _ | ⟨operator, args⟩
  · exact .halted _ _
  cases operator with
  | builtin b => exact resolves_callBuiltin arena node s ls b args
  | closure c => exact absurd rfl (hvalues c args)
  | _ => exact .halted _ _

/-- A pass of a form ends with a value or an error, or the form goes on. -/
theorem callForm_cases (position : Nat) (t : FormTask) (form : SpecialForm)
    (values : List Value) :
    Resolves arena node ls
        (callForm arena { node, base := (operandsOf ls).length, position, task := .form t } form
          values (s.withLevels none ls)) ∨
      ∃ next, perform arena node t values = .ok (.again next) ∧
        callForm arena { node, base := (operandsOf ls).length, position, task := .form t } form
            values (s.withLevels none ls) =
          .running (s.withLevels (arena.children node)[1]?
            (.call node 1 (.form next) [.special form] :: ls)) := by
  rw [callForm_form]
  cases hp : perform arena node t values with
  | error e => exact .inl (.halted _ _)
  | ok next =>
    cases next with
    | value v => exact .inl (.value s none v)
    | bind name v =>
      exact .inl (.value { s with store := s.store.bind s.scope name v } none .unspecified)
    | assign name v =>
      refine .inl ?_
      simp only [performStep, State.withLevels]
      cases s.store.holder? s.scope name with
      | none => exact .halted _ _
      | some holder =>
        exact .value { s with store := s.store.bind holder name v } none .unspecified
    | lambda parameters first rest =>
      exact .inl (.value { s with store := s.store.newSerial } none
        (.closure (newClosure s none parameters first rest)))
    | procedure name parameters first rest =>
      let c := newClosure s (some name) parameters first rest
      exact .inl (.value { s with store := s.store.newSerial.bind s.scope name (.closure c) } none
        .unspecified)
    | again next =>
      refine .inr ⟨next, rfl, ?_⟩
      rw [← Arena.head?_operands]
      exact performStep_again arena s none ls node position (.form t) form next

/-- A node has a value, cannot be evaluated, or is a compound that is opened. -/
theorem enter_cases (limit : Option Nat) (pc : Option NodeId) :
    Resolves arena node ls (enter arena limit node (s.withLevels pc ls)) ∨
      arena.children node ≠ [] ∧
        enter arena limit node (s.withLevels pc ls) =
          .running (s.withLevels (arena.children node)[0]? (.call node 0 .call [] :: ls)) := by
  cases hm : arena.node? node with
  | none =>
    rw [enter, hm]
    exact .inl (.halted _ _)
  | some m =>
    obtain ⟨shape, next⟩ := m
    cases shape with
    | empty =>
      rw [enter, hm]
      exact .inl (.value s pc .unspecified)
    | compound operator =>
      have hchild := Arena.getElem?_children_zero hm rfl
      rw [enter_compound arena limit s pc ls hm rfl]
      split
      · exact .inl (.halted _ _)
      · exact .inr ⟨children_ne_nil hchild, by rw [hchild]⟩
    | atom a =>
      cases a with
      | symbol name =>
        rw [enter, hm]
        dsimp only [State.withLevels]
        cases s.store.lookup? s.scope name with
        | some v => exact .inl (.value s pc v)
        | none => exact .inl (.halted _ _)
      | _ =>
        rw [enter, hm]
        exact .inl (.value s pc _)

end Outcomes

/-! ## Layout -/

section Layout

variable {arena : Arena} {node : NodeId} {ls : List Level}

/-- A compound that was opened is at its operator. -/
theorem Awaits.opened (h : Awaits arena node ls) (hcompound : arena.children node ≠ []) :
    Laid arena (arena.children node)[0]? (.call node 0 .call [] :: ls) :=
  ⟨⟨rfl, Nat.zero_le _⟩, hcompound, trivial, .call rfl (by simp), h⟩

/-- A form that goes on is at its first operand. -/
theorem Laid.again {pc : Option NodeId} {position : Nat} {t next : FormTask}
    {vs values : List Value} (h : Laid arena pc (.call node position (.form t) vs :: ls))
    (hp : perform arena node t values = .ok (.again next)) :
    Laid arena (arena.children node)[1]?
      (.call node 1 (.form next) [.special t.form] :: ls) := by
  obtain ⟨-, hcompound, hfits, -, hrest⟩ := h
  obtain ⟨hform, hfits'⟩ := fits_of_perform_again hfits hp
  have howns : Task.Owns (.form next) 1 [.special next.form] :=
    .before (Nat.le_refl 1) fun i hi => (hfits'.wanted_le hi).1
  rw [← hform]
  exact ⟨⟨rfl, List.length_pos_iff.2 hcompound⟩, hcompound, hfits', howns, hrest⟩

/-- A combination that gets the value of a child cannot be prepared, or is at the next
child.  Only the value of the operator may change its task. -/
theorem deliver_child_cases (hlinks : arena.WellLinked) {child : NodeId} {position : Nat}
    {task : Task} {vs : List Value} (h : Awaits arena child (.call node position task vs :: ls))
    (v : Value) (s : State) (pc : Option NodeId) :
    (∃ r t, deliver arena child v (s.withLevels pc (.call node position task vs :: ls)) =
        .halted r t) ∨
      ∃ task', (task' = task ∨
          position = 0 ∧ ∃ form t, prepare arena node form = .ok t ∧ task' = .form t) ∧
        Laid arena (arena.children node)[position + 1]?
          (.call node (position + 1) task' (v :: vs) :: ls) ∧
        deliver arena child v (s.withLevels pc (.call node position task vs :: ls)) =
          .running (s.withLevels (arena.children node)[position + 1]?
            (.call node (position + 1) task' (v :: vs) :: ls)) := by
  obtain ⟨hchild, hskips, hfits, howns, hrest⟩ := h
  have hcompound := children_ne_nil hchild
  have hlt := (List.getElem?_eq_some_iff.1 hchild).1
  have hmem := List.mem_of_getElem? hchild
  obtain ⟨m, hm⟩ := Arena.exists_node?_eq_some (Arena.lt_size_of_mem_children hlinks hmem)
  have hnext := (next_of_child hlinks hchild hm).1
  by_cases hv : position ≠ 0 ∨ ∀ form, v ≠ .special form
  · refine .inr ⟨task, .inl rfl, ?_, ?_⟩
    · exact ⟨⟨rfl, hlt⟩, hcompound, hfits, howns.succ hfits hchild hskips hv, hrest⟩
    · rw [deliver_call arena s pc ls hm hv, hnext]
  · -- A special form is in the place of the operator.
    obtain ⟨hzero, hspecial⟩ := not_or.1 hv
    obtain rfl : position = 0 := Decidable.byContradiction hzero
    obtain ⟨rfl, rfl⟩ := howns.eq_of_zero
    cases v with
    | special form =>
      rw [deliver_special arena s pc ls hm, hnext]
      cases hprepare : prepare arena node form with
      | error e => exact .inl ⟨_, _, rfl⟩
      | ok t =>
        obtain ⟨rfl, -, -, hwanted⟩ := prepare_eq_ok hprepare
        have howns' : Task.Owns (.form t) 1 [.special t.form] :=
          .before (Nat.le_refl 1) fun i hi => (hwanted i hi).1
        exact .inr ⟨.form t, .inr ⟨rfl, _, t, hprepare, rfl⟩, ⟨⟨rfl, hlt⟩, hcompound,
          fits_of_prepare hcompound hprepare, howns', hrest⟩, rfl⟩
    | _ => exact absurd (by simp) hspecial

/-! ## Steps -/

/-- The levels that a step works on.  The inner ones may be gone, and a form may have passed
over children. -/
inductive Leaves (arena : Arena) : List Level → List Level → Prop
  | outer {ls outer : List Level} (h : outer <:+ ls) : Leaves arena ls outer
  | seek {node : NodeId} {position : Nat} {t : FormTask} {vs : List Value} {ls : List Level}
    (hfits : t.Fits arena node) (hpos : 1 ≤ position) (hle : position ≤ t.operandCount + 1) :
    Leaves arena (.call node position (.form t) vs :: ls)
      (.call node (t.seek position) (.form t) vs :: ls)

/-- What a step makes of the levels: it is the end of the run, gives a value to levels that
wait for it, puts a combination or a body inside of such levels, or lets a form go on. -/
inductive Moves (arena : Arena) (ls : List Level) : Progress → Prop
  | halted (r : Except Error Value) (t : State) : Moves arena ls (.halted r t)
  | delivers {node : NodeId} {ls' : List Level} (hleaves : Leaves arena ls ls')
    (hawaits : Awaits arena node ls') (s : State) (pc : Option NodeId) (v : Value) :
    Moves arena ls (deliver arena node v (s.withLevels pc ls'))
  | opens {node : NodeId} {ls' : List Level} (hleaves : Leaves arena ls ls')
    (hawaits : Awaits arena node ls') (hcompound : arena.children node ≠ []) (s : State) :
    Moves arena ls
      (.running (s.withLevels (arena.children node)[0]? (.call node 0 .call [] :: ls')))
  | enters {k : Continuation} {ls' : List Level} (hleaves : Leaves arena ls ls')
    (hawaits : Awaits arena k.returnNode ls') (s : State) (first : NodeId) :
    Moves arena ls (.running (s.withLevels (some first) (.body k [] :: ls')))
  | again {node : NodeId} {position : Nat} {t next : FormTask} {vs args : List Value}
    {outer : List Level} (hls : ls = .call node position (.form t) vs :: outer)
    (hend : (arena.children node)[t.seek position]? = none)
    (hargs : vs.reverse = .special t.form :: args)
    (hnext : perform arena node t args = .ok (.again next)) (s : State) :
    Moves arena ls (.running (s.withLevels (arena.children node)[1]?
      (.call node 1 (.form next) [.special t.form] :: outer)))

theorem Leaves.refl (ls : List Level) : Leaves arena ls ls :=
  .outer (List.suffix_refl ls)

theorem Leaves.tail (l : Level) (ls : List Level) : Leaves arena (l :: ls) ls :=
  .outer (List.suffix_cons l ls)

/-- The levels around the running body are outer ones. -/
theorem suffix_of_runningBody? {around : List Level} {k : Continuation}
    (hbody : runningBody? ls = some (k, around)) : around <:+ ls := by
  induction ls with
  | nil => cases hbody
  | cons l ls ih =>
    cases l with
    | top vs => cases hbody
    | body k' vs =>
      simp only [runningBody?, Option.ite_none_right_eq_some, Option.some.injEq,
        Prod.mk.injEq] at hbody
      obtain ⟨-, -, rfl⟩ := hbody
      exact List.suffix_cons _ _
    | call node position task vs =>
      simp only [runningBody?, Option.ite_none_right_eq_some] at hbody
      exact (ih hbody.2).trans (List.suffix_cons _ _)

section Moves

variable {ls' : List Level} (hleaves : Leaves arena ls ls')
include hleaves

theorem Resolves.moves {p : Progress} (hp : Resolves arena node ls' p)
    (hawaits : Awaits arena node ls') : Moves arena ls p :=
  hp.elim (.halted · ·) (.delivers hleaves hawaits · · ·)

theorem moves_enter (hawaits : Awaits arena node ls') (limit : Option Nat) (s : State)
    (pc : Option NodeId) : Moves arena ls (enter arena limit node (s.withLevels pc ls')) := by
  rcases enter_cases arena node s ls' limit pc with hp | ⟨hcompound, heq⟩
  · exact hp.moves hleaves hawaits
  · rw [heq]
    exact .opens hleaves hawaits hcompound s

end Moves

/-- A procedure that is applied gets a body inside of levels that were there. -/
theorem moves_of_application? {s : State} {pc : Option NodeId} (h : Laid arena pc ls)
    {a : Application} (happ : application? arena (s.withLevels pc ls) = some a)
    (limit : Option Nat) : Moves arena ls (step arena limit (s.withLevels pc ls)) := by
  cases hstep : step arena limit (s.withLevels pc ls) with
  | halted r t => exact .halted r t
  | running s' =>
    obtain ⟨position, vs, outer, rfl, -, hawaits, hbody⟩ := h.enters_cases happ hstep
    rcases hbody with ⟨k, around, r, hrunning, rfl, -⟩ | ⟨r, -, rfl, -⟩
    · have hrest := hawaits.of_runningBody? hrunning
      have hsuffix := suffix_of_runningBody? hrunning
      exact .enters (k := { k with remaining := a.closure.rest })
        (.outer (hsuffix.trans (List.suffix_cons _ _))) hrest r _
    · exact .enters (.tail _ outer) hawaits r _

section Links

variable (hlinks : arena.WellLinked)
include hlinks

/-- A combination evaluates a child, goes on as a form, or applies its operator. -/
theorem moves_step_call {position : Nat} {task : Task} {vs : List Value}
    (h : Laid arena (arena.children node)[position]? (.call node position task vs :: ls))
    (limit : Option Nat) (s : State) :
    Moves arena (.call node position task vs :: ls) (step arena limit
      (s.withLevels (arena.children node)[position]? (.call node position task vs :: ls))) := by
  obtain ⟨⟨-, hle⟩, -, hfits, howns, hrest⟩ := id h
  cases task with
  | call =>
    cases hchild : (arena.children node)[position]? with
    | some child =>
      have hawaits : Awaits arena child (.call node position .call vs :: ls) :=
        ⟨hchild, rfl, hfits, howns, hrest⟩
      rw [step_call]
      exact moves_enter (.refl _) hawaits limit (tick s) _
    | none =>
      rw [hchild] at h
      cases happ : application? arena
          (s.withLevels none (.call node position .call vs :: ls)) with
      | some a => exact moves_of_application? h happ limit
      | none =>
        rw [application?_call_end] at happ
        rw [step_call_end]
        refine (resolves_dispatch_call arena node (tick s) ls limit position ?_).moves
          (.tail _ ls) hrest
        intro c args hvalues
        rw [hvalues] at happ
        cases happ
  | form t =>
    have hcount := hfits.count
    have hpos := howns.one_le
    rw [step_form limit s ls hlinks hfits hpos (by omega) vs]
    cases hchild : (arena.children node)[t.seek position]? with
    | some child =>
      exact moves_enter (.seek hfits hpos (by omega)) (awaits_seek hfits howns hrest hchild)
        limit (tick s) _
    | none =>
      obtain ⟨args, hargs⟩ := howns.exists_reverse_eq
      rw [hargs]
      dsimp only [dispatch]
      rcases callForm_cases arena node (tick s) ls (t.seek position) t t.form args with
        hp | ⟨next, hnext, heq⟩
      · exact hp.moves (.tail _ ls) hrest
      · rw [heq]
        exact .again rfl hchild hargs hnext (tick s)

/-- All that a step can make of well-formed levels. -/
theorem Laid.moves {pc : Option NodeId} (h : Laid arena pc ls) (limit : Option Nat) (s : State) :
    Moves arena ls (step arena limit (s.withLevels pc ls)) := by
  match ls, h with
  | [.top vs], hready =>
    rcases hready with ⟨hsome, rfl⟩ | ⟨rfl, v, rfl⟩
    · obtain ⟨root, rfl⟩ := Option.isSome_iff_exists.1 hsome
      have hawaits : Awaits arena root [.top []] := rfl
      rw [step_top]
      exact moves_enter (.refl _) hawaits limit (tick s) _
    · rw [step_top_end]
      exact .halted _ _
  | .body k vs :: ls, ⟨hready, hrest⟩ =>
    rcases hready with ⟨hsome, rfl⟩ | ⟨rfl, v, rfl⟩
    · obtain ⟨expression, rfl⟩ := Option.isSome_iff_exists.1 hsome
      have hawaits : Awaits arena expression (.body k [] :: ls) := ⟨rfl, hrest⟩
      rw [step_body]
      exact moves_enter (.refl _) hawaits limit (tick s) _
    · rw [step_body_end]
      cases k.remaining with
      | nil => exact .delivers (.tail _ ls) hrest _ none v
      | cons next remaining =>
        exact .enters (k := { k with remaining }) (.tail _ ls) hrest (tick s) next
  | .call node position task vs :: ls, hlaid =>
    obtain rfl := hlaid.1.1
    exact moves_step_call hlinks hlaid limit s

end Links

/-! ## Runs -/

/-- A run that goes on has well-formed levels. -/
def IsLaid (arena : Arena) : Progress → Prop
  | .running s => ∃ pc ls, s = s.withLevels pc ls ∧ Laid arena pc ls
  | .halted _ _ => True

theorem Laid.isLaid {pc : Option NodeId} (h : Laid arena pc ls) (s : State) :
    IsLaid arena (.running (s.withLevels pc ls)) :=
  ⟨pc, ls, rfl, h⟩

theorem isLaid_initial (store : Store) (sink : Sink) (root : NodeId) (scope : ScopeId) :
    IsLaid arena (.running { State.initial store sink root with scope }) :=
  ⟨some root, [.top []], rfl, .inl ⟨rfl, rfl⟩⟩

variable (hlinks : arena.WellLinked)
include hlinks

/-- Levels that get the value they wait for are well formed again. -/
theorem isLaid_deliver (h : Awaits arena node ls) (s : State) (pc : Option NodeId) (v : Value) :
    IsLaid arena (deliver arena node v (s.withLevels pc ls)) := by
  match ls, h with
  | [.top vs], hvs =>
    obtain rfl : vs = [] := hvs
    have hlaid : Laid arena none [.top [v]] := .inr ⟨rfl, v, rfl⟩
    exact hlaid.isLaid s
  | .body k vs :: ls, ⟨hvs, hrest⟩ =>
    subst hvs
    have hlaid : Laid arena none (.body k [v] :: ls) := ⟨.inr ⟨rfl, v, rfl⟩, hrest⟩
    exact hlaid.isLaid s
  | .call parent position task vs :: ls, h =>
    rcases deliver_child_cases hlinks h v s pc with ⟨r, t, heq⟩ | ⟨task', -, hlaid, heq⟩
    · rw [heq]
      trivial
    · rw [heq]
      exact hlaid.isLaid s

/-- Every step keeps the layout of the levels. -/
theorem isLaid_step {s : State} (h : IsLaid arena (.running s)) (limit : Option Nat) :
    IsLaid arena (step arena limit s) := by
  obtain ⟨pc, ls, hs, hlaid⟩ := h
  have hmoves := hlaid.moves hlinks limit s
  rw [← hs] at hmoves
  generalize step arena limit s = p at hmoves ⊢
  cases hmoves with
  | halted r t => trivial
  | delivers _ hawaits r pc v => exact isLaid_deliver hlinks hawaits r pc v
  | opens _ hawaits hcompound r => exact (hawaits.opened hcompound).isLaid r
  | enters _ hawaits r first => exact ⟨_, _, rfl, .inl ⟨rfl, rfl⟩, hawaits⟩
  | again hls _ _ hnext r =>
    subst hls
    exact (hlaid.again hnext).isLaid r

/-- The levels are well formed at each stage of a run. -/
theorem IsLaid.of_leads {limit : Option Nat} {p q : Progress} (h : IsLaid arena p)
    (hleads : Leads arena limit p q) : IsLaid arena q := by
  induction hleads with
  | refl => exact h
  | step _ ih => exact ih (isLaid_step hlinks h limit)

end Layout

end StackScheme.Machine
