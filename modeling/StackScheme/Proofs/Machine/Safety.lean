import StackScheme.Proofs.Machine.Inside
import StackScheme.Proofs.Machine.Layout

/-!
# No run of the machine has a fault

The levels of a running machine are laid out so that each step finds what it
needs: a value at the end of an expression, a continuation for each body, an
operator for each combination, and nodes that lie in the arena.

* `Laid` is the layout of the levels for a place that the machine is at.
* `Sound` is the invariant of a run.  A stage that has ended is sound if the
  outcome is no fault.
* There is one lemma for each function of the machine, and `sound_step` puts
  them together.  `Sound.of_leads` is the invariant for whole runs.
* `State.Safe` says in terms of the registers what the invariant gives.
-/

namespace StackScheme.Machine

/-! ## The invariant -/

/-- All values and nodes of a level are inside of the arena. -/
def Level.Inside (size : Nat) : Level → Prop
  | .top vs => ∀ v ∈ vs, v.Inside size
  | .body k vs =>
    k.returnNode < size ∧ (∀ node ∈ k.remaining, node < size) ∧ ∀ v ∈ vs, v.Inside size
  | .call node _ _ vs => node < size ∧ ∀ v ∈ vs, v.Inside size

/-- The machine is at an expression, or the expression has left its value. -/
def Ready (pc : Option NodeId) (values : List Value) : Prop :=
  pc.isSome ∧ values = [] ∨ pc = none ∧ ∃ v, values = [v]

/-- The levels fit to the place that the machine is at. -/
def Laid (arena : Arena) (pc : Option NodeId) : List Level → Prop
  | [.top vs] => Ready pc vs
  | .body k vs :: ls => Ready pc vs ∧ Awaits arena k.returnNode ls
  | .call node position task vs :: ls =>
    (pc = (arena.children node)[position]? ∧ position ≤ (arena.children node).length) ∧
      arena.children node ≠ [] ∧ task.Fits arena node ∧ task.Owns position vs ∧
      Awaits arena node ls
  | _ => False

/-- What holds at each stage of a run. -/
def Sound (arena : Arena) : Progress → Prop
  | .running s =>
    ∃ (pc : Option NodeId) (ls : List Level), s = s.withLevels pc ls ∧ Laid arena pc ls ∧
      (∀ node : Nat, pc = some node → node < arena.size) ∧ (∀ l ∈ ls, l.Inside arena.size) ∧
      s.store.Inside arena.size
  | .halted outcome s => NoFault outcome ∧ s.store.Inside arena.size

/-- What a function of the machine may rely on when it is about to give the value
of `node` to the levels. -/
structure Grounded (arena : Arena) (s : State) (node : Nat) (ls : List Level) : Prop where
  awaits : Awaits arena node ls
  node_lt : node < arena.size
  levels : ∀ l ∈ ls, l.Inside arena.size
  store : s.store.Inside arena.size

theorem sound_running {arena : Arena} {s : State} {pc : Option NodeId} {ls : List Level}
    (hlaid : Laid arena pc ls) (hpc : ∀ node : Nat, pc = some node → node < arena.size)
    (hlevels : ∀ l ∈ ls, l.Inside arena.size) (hstore : s.store.Inside arena.size) :
    Sound arena (.running (s.withLevels pc ls)) :=
  ⟨pc, ls, rfl, hlaid, hpc, hlevels, hstore⟩

theorem sound_fail {arena : Arena} {s : State} {e : Error} (he : ¬ e.IsFault)
    (hstore : s.store.Inside arena.size) : Sound arena (s.fail e) :=
  ⟨he, hstore⟩

theorem not_isFault_of_prepare {arena : Arena} {node : NodeId} {form : SpecialForm} {e : Error}
    (h : prepare arena node form = .error e) : ¬ e.IsFault := by
  rw [eq_malformed_of_prepare h]
  exact id

theorem Awaits.closed {arena : Arena} {node : NodeId} {ls : List Level}
    (h : Awaits arena node ls) : Closed ls := by
  induction ls generalizing node with
  | nil => exact h.elim
  | cons l ls ih =>
    cases l with
    | top vs =>
      cases ls with
      | nil => trivial
      | cons _ _ => exact h.elim
    | body k vs => exact ih h.2
    | call parent position task vs => exact ih h.2.2.2.2

theorem Laid.closed {arena : Arena} {pc : Option NodeId} {ls : List Level}
    (h : Laid arena pc ls) : Closed ls := by
  match ls, h with
  | [.top _], _ => trivial
  | .body _ _ :: _, ⟨_, hrest⟩ => exact hrest.closed
  | .call _ _ _ _ :: _, ⟨_, _, _, _, hrest⟩ => exact hrest.closed

/-- The layout of the levels that are known of a state. -/
theorem Sound.laid {arena : Arena} {s : State} {pc : Option NodeId} {ls : List Level}
    (h : Sound arena (.running (s.withLevels pc ls))) : Laid arena pc ls := by
  obtain ⟨pc', ls', heq, hlaid, -⟩ := h
  obtain ⟨rfl, rfl⟩ := hlaid.closed.withLevels_inj heq
  exact hlaid

section Functions

variable {arena : Arena} (hlinks : arena.WellLinked) {limit : Option Nat} {s : State}
  {node : Nat} {ls : List Level}

/-! ## Values of nodes -/

/-- A level gets one more value. -/
theorem Level.Inside.cons {size : Nat} {v : Value} {vs : List Value} (hv : v.Inside size)
    (hvs : ∀ u ∈ vs, u.Inside size) : ∀ u ∈ v :: vs, u.Inside size := by
  intro u hu
  rcases List.mem_cons.1 hu with rfl | hu
  · exact hv
  · exact hvs u hu

/-- A combination at its operator has no values yet. -/
theorem Task.Owns.eq_of_zero {task : Task} {vs : List Value} (h : task.Owns 0 vs) :
    task = .call ∧ vs = [] := by
  cases h with
  | call hlen _ => exact ⟨rfl, List.eq_nil_of_length_eq_zero hlen⟩
  | before hpos _ => omega
  | after _ hlt => omega

/-- A combination gets the value of the child at its position. -/
theorem Task.Owns.succ {task : Task} {position : Nat} {vs : List Value} {v : Value}
    {parent child : NodeId} (h : task.Owns position vs) (hfits : task.Fits arena parent)
    (hchild : (arena.children parent)[position]? = some child)
    (hskips : task.skips position = false) (hv : position ≠ 0 ∨ ∀ form, v ≠ .special form) :
    task.Owns (position + 1) (v :: vs) := by
  cases task with
  | call =>
    cases h with
    | call hlen hoperator =>
      refine .call (by rw [List.length_cons, hlen]) fun form => ?_
      cases vs with
      | nil =>
        rcases hv with hv | hv
        · exact absurd hlen.symm hv
        · simpa using hv form
      | cons u us => exact hoperator form
  | form t =>
    obtain ⟨-, hwanted, rfl⟩ := h.before_of_child hfits hchild hskips
    exact .after hwanted (Nat.lt_succ_self position)

include hlinks

/-- The sibling of a child is the next child, and lies in the arena. -/
theorem next_of_child {parent child : Nat} {position : Nat} {m : Node}
    (hchild : (arena.children parent)[position]? = some child)
    (hm : arena.node? child = some m) :
    m.next = (arena.children parent)[position + 1]? ∧
      ∀ next : Nat, m.next = some next → next < arena.size := by
  have hnext : m.next = (arena.children parent)[position + 1]? := by
    rw [← Arena.next?_eq_of_node?_eq_some hm, Arena.getElem?_children_succ hlinks hchild]
  refine ⟨hnext, fun next h => ?_⟩
  rw [hnext] at h
  exact Arena.lt_size_of_mem_children hlinks (List.mem_of_getElem? h)

/-- A value can be delivered to levels that wait for it. -/
theorem sound_deliver (h : Grounded arena s node ls) {v : Value} (hv : v.Inside arena.size)
    (pc : Option NodeId) : Sound arena (deliver arena node v (s.withLevels pc ls)) := by
  obtain ⟨hawaits, hnode, hlevels, hstore⟩ := h
  cases ls with
  | nil => exact hawaits.elim
  | cons l ls =>
    have hinside := hlevels l List.mem_cons_self
    have houter : ∀ l' ∈ ls, l'.Inside arena.size :=
      fun l' hl' => hlevels l' (List.mem_cons_of_mem _ hl')
    cases l with
    | top vs =>
      cases ls with
      | cons _ _ => exact hawaits.elim
      | nil =>
        obtain rfl : vs = [] := hawaits
        rw [deliver_top]
        refine sound_running (.inr ⟨rfl, v, rfl⟩) (by simp) ?_ hstore
        simpa [Level.Inside] using hv
    | body k vs =>
      obtain ⟨rfl, hrest⟩ := hawaits
      rw [deliver_body]
      refine sound_running ⟨.inr ⟨rfl, v, rfl⟩, hrest⟩ (by simp) ?_ hstore
      rw [List.forall_mem_cons]
      exact ⟨⟨hinside.1, hinside.2.1, Level.Inside.cons hv hinside.2.2⟩, houter⟩
    | call parent position task vs =>
      obtain ⟨hchild, hskips, hfits, howns, hrest⟩ := hawaits
      have hcompound := children_ne_nil hchild
      have hlt := (List.getElem?_eq_some_iff.1 hchild).1
      obtain ⟨m, hm⟩ := Arena.exists_node?_eq_some hnode
      obtain ⟨hnext, hinner⟩ := next_of_child hlinks hchild hm
      by_cases hv' : position ≠ 0 ∨ ∀ form, v ≠ .special form
      · rw [deliver_call arena s pc ls hm hv']
        refine sound_running ⟨⟨hnext, by omega⟩, hcompound, hfits,
          howns.succ hfits hchild hskips hv', hrest⟩ hinner ?_ hstore
        rw [List.forall_mem_cons]
        exact ⟨⟨hinside.1, Level.Inside.cons hv hinside.2⟩, houter⟩
      · -- A special form is in the place of the operator.
        obtain ⟨hzero, hspecial⟩ := not_or.1 hv'
        obtain rfl : position = 0 := Decidable.byContradiction hzero
        obtain ⟨rfl, rfl⟩ := howns.eq_of_zero
        cases v with
        | special form =>
          rw [deliver_special arena s pc ls hm]
          cases hprepare : prepare arena parent form with
          | error e => exact sound_fail (not_isFault_of_prepare hprepare) hstore
          | ok t =>
            obtain ⟨rfl, -, -, hwanted⟩ := prepare_eq_ok hprepare
            have howns' : Task.Owns (.form t) 1 [.special t.form] :=
              .before (Nat.le_refl 1) fun i hi => (hwanted i hi).1
            refine sound_running ⟨⟨hnext, hlt⟩, hcompound, fits_of_prepare hcompound hprepare,
              howns', hrest⟩ hinner ?_ hstore
            rw [List.forall_mem_cons]
            exact ⟨⟨hinside.1, Level.Inside.cons trivial hinside.2⟩, houter⟩
        | _ => exact absurd (by simp) hspecial

/-- A node that the levels wait for can be entered. -/
theorem sound_enter (h : Grounded arena s node ls) (pc : Option NodeId) :
    Sound arena (enter arena limit node (s.withLevels pc ls)) := by
  obtain ⟨⟨shape, next⟩, hm⟩ := Arena.exists_node?_eq_some h.node_lt
  cases shape with
  | empty =>
    rw [enter, hm]
    exact sound_deliver hlinks h (v := .unspecified) trivial pc
  | compound operator =>
    have hchild := Arena.getElem?_children_zero hm rfl
    have hcompound := children_ne_nil hchild
    have hoperator : operator < arena.size :=
      Arena.lt_size_of_mem_children hlinks (List.mem_of_getElem? hchild)
    rw [enter_compound arena limit s pc ls hm rfl]
    split
    · exact sound_fail id h.store
    · refine sound_running ⟨⟨hchild.symm, Nat.zero_le _⟩, hcompound, trivial,
        .call rfl (by simp), h.awaits⟩ ?_ ?_ h.store
      · intro child hc
        obtain rfl := Option.some.inj hc
        exact hoperator
      · rw [List.forall_mem_cons]
        exact ⟨⟨h.node_lt, by simp⟩, h.levels⟩
  | atom a =>
    cases a with
    | symbol name =>
      rw [enter, hm]
      dsimp only [State.withLevels]
      cases hlookup : s.store.lookup? s.scope name with
      | some v => exact sound_deliver hlinks h (h.store.lookupFrom hlookup) pc
      | none => exact sound_fail id h.store
    | _ =>
      rw [enter, hm]
      exact sound_deliver hlinks h (Value.inside_ofAtom _ node _) pc

/-! ## Procedures and builtins -/

omit hlinks in
/-- The levels around the running body are inside if all levels are. -/
theorem inside_of_runningBody? {outer : List Level} {k : Continuation} {size : Nat}
    (hlevels : ∀ l ∈ ls, l.Inside size) (hbody : runningBody? ls = some (k, outer)) :
    k.returnNode < size ∧ ∀ l ∈ outer, l.Inside size := by
  induction ls with
  | nil => cases hbody
  | cons l ls ih =>
    rw [List.forall_mem_cons] at hlevels
    cases l with
    | top vs => cases hbody
    | body k' vs =>
      simp only [runningBody?, Option.ite_none_right_eq_some, Option.some.injEq,
        Prod.mk.injEq] at hbody
      obtain ⟨-, rfl, rfl⟩ := hbody
      exact ⟨hlevels.1.1, hlevels.2⟩
    | call parent position task vs =>
      simp only [runningBody?, Option.ite_none_right_eq_some] at hbody
      exact ih hlevels.2 hbody.2

omit hlinks in
/-- The scope of a call is inside. -/
theorem inside_extend (h : Grounded arena s node ls) (c : Closure) {args : List Value}
    (hargs : ∀ v ∈ args, v.Inside arena.size) :
    (s.store.extend c.scope (c.parameters.zip args)).Inside arena.size := by
  refine h.store.extend c.scope fun b hb => ?_
  exact hargs b.2 (List.of_mem_zip hb).2

omit hlinks in
/-- A procedure can be entered in a continuation of its own. -/
theorem sound_nestedCall (h : Grounded arena s node ls) {c : Closure} (hc : c.Inside arena.size)
    {args : List Value} (hargs : ∀ v ∈ args, v.Inside arena.size) :
    Sound arena (nestedCall node c args (s.withLevels none ls)) := by
  obtain ⟨stats, hcall⟩ := nestedCall_withLevels node c args s none ls
  rw [hcall]
  refine sound_running ⟨.inl ⟨rfl, rfl⟩, h.awaits⟩ ?_ ?_ (inside_extend h c hargs)
  · intro n hn
    obtain rfl := Option.some.inj hn
    exact hc.1
  · rw [List.forall_mem_cons]
    exact ⟨⟨h.node_lt, hc.2, by simp⟩, h.levels⟩

omit hlinks in
/-- A procedure can be applied, in tail position or not. -/
theorem sound_apply (h : Grounded arena s node ls) {c : Closure} (hc : c.Inside arena.size)
    {args : List Value} (hargs : ∀ v ∈ args, v.Inside arena.size) :
    Sound arena (apply limit node c args (s.withLevels none ls)) := by
  have hfirst : ∀ n : Nat, some c.first = some n → n < arena.size := by
    intro n hn
    obtain rfl := Option.some.inj hn
    exact hc.1
  rw [apply]
  split
  · exact sound_fail id h.store
  rw [inTailPosition_withLevels]
  cases hbody : runningBody? ls with
  | some found =>
    obtain ⟨k, outer⟩ := found
    obtain ⟨hreturn, houter⟩ := inside_of_runningBody? h.levels hbody
    rw [Option.isSome_some, if_pos rfl,
      tailCall_withLevels hbody fun vs hmem => h.awaits.values_eq_nil hmem]
    have hrest := h.awaits.of_runningBody? hbody
    refine sound_running ⟨.inl ⟨rfl, rfl⟩, hrest⟩ hfirst ?_ (inside_extend h c hargs)
    rw [List.forall_mem_cons]
    exact ⟨⟨hreturn, hc.2, by simp⟩, houter⟩
  | none =>
    rw [Option.isSome_none, if_neg Bool.false_ne_true]
    split
    · exact sound_fail id h.store
    · exact sound_nestedCall h hc hargs

/-- A builtin can be applied. -/
theorem sound_callBuiltin (h : Grounded arena s node ls) (b : Builtin) (args : List Value) :
    Sound arena (callBuiltin arena node b args (s.withLevels none ls)) := by
  have hreply := b.faultless_call args
  rw [callBuiltin]
  cases hcall : b.call args with
  | error e =>
    rw [hcall] at hreply
    exact sound_fail hreply h.store
  | ok reply =>
    rw [hcall] at hreply
    cases reply with
    | value v => exact sound_deliver hlinks h (Value.IsPlain.inside hreply arena.size) none
    | output text =>
      show Sound arena (writeText arena node text (s.withLevels none ls))
      rw [writeText]
      dsimp only [State.withLevels]
      rcases s.sink.write text with ⟨_ | reason, sink⟩
      · exact sound_deliver hlinks (s := { s with sink })
          ⟨h.awaits, h.node_lt, h.levels, h.store⟩ (v := .unspecified) trivial none
      · exact sound_fail id h.store

/-! ## Special forms -/

/-- The nodes and values that a form asks for are inside. -/
def FormStep.Inside (size : Nat) : FormStep → Prop
  | .value v | .bind _ v | .assign _ v => v.Inside size
  | .lambda _ first rest | .procedure _ _ first rest => first < size ∧ ∀ node ∈ rest, node < size
  | .again _ => True

omit hlinks in
theorem inside_passValue {size : Nat} {values : List Value}
    (hvalues : ∀ v ∈ values, v.Inside size) : (passValue values).Inside size := by
  cases values with
  | nil => trivial
  | cons v vs => exact hvalues v List.mem_cons_self

omit hlinks in
theorem inside_performIf {t : FormTask} {v : Value} {size : Nat} (hv : v.Inside size) :
    (performIf t v).Inside size := by
  rw [performIf]
  split
  · trivial
  · exact hv

omit hlinks in
theorem inside_performSequence {t : FormTask} {v : Value} {size : Nat} (hv : v.Inside size) :
    (performSequence t v).Inside size := by
  rw [performSequence]
  split
  · trivial
  · generalize (if t.form = .andForm then !v.isTruthy else v.isTruthy) = decided
    dsimp only
    split
    · exact hv
    · trivial

/-- The operands after the first one are the body of a procedure. -/
theorem inside_body {target first : NodeId} {rest : List NodeId}
    (h : arena.operands node = target :: first :: rest) :
    first < arena.size ∧ ∀ n ∈ rest, n < arena.size := by
  have hmem : ∀ n : Nat, n ∈ first :: rest → n < arena.size := by
    intro n hn
    have hoperand : n ∈ arena.operands node := h ▸ List.mem_cons_of_mem _ hn
    exact Arena.lt_size_of_mem_operands hlinks hoperand
  exact ⟨hmem first List.mem_cons_self, fun n hn => hmem n (List.mem_cons_of_mem _ hn)⟩

/-- A `lambda` that was prepared has its operands, and does not meet `unpreparedForm`. -/
theorem faultless_performLambda {t : FormTask}
    (hprepare : prepare arena node .lambdaForm = .ok t) :
    Faultless (FormStep.Inside arena.size) (performLambda arena node) := by
  obtain ⟨formals, first, rest, hoperands⟩ := exists_operands_of_prepare (.inl rfl) hprepare
  obtain ⟨m, hm⟩ := Arena.exists_node?_eq_some
    (Arena.lt_size_of_mem_operands hlinks (by rw [hoperands]; simp : formals ∈ arena.operands node))
  rw [performLambda, hoperands]
  simp only [hm]
  split
  · cases ‹_›
  · exact id
  · split
    · exact inside_body hlinks hoperands
    · exact id

/-- A `define` that was prepared has its operands, and does not meet `unpreparedForm`. -/
theorem faultless_performDefine {t : FormTask} {v : Value} (hv : v.Inside arena.size)
    (hprepare : prepare arena node .defineForm = .ok t) :
    Faultless (FormStep.Inside arena.size) (performDefine arena node v) := by
  obtain ⟨target, first, rest, hoperands⟩ := exists_operands_of_prepare (.inr rfl) hprepare
  rw [performDefine, hoperands]
  dsimp only
  split
  · exact hv
  · split
    · exact id
    · split
      · exact inside_body hlinks hoperands
      · exact id

omit hlinks in
theorem faultless_performSet {t : FormTask} {v : Value} (hv : v.Inside arena.size)
    (hprepare : prepare arena node .setForm = .ok t) :
    Faultless (FormStep.Inside arena.size) (performSet arena node v) := by
  have hname : ((arena.operands node).head?.bind arena.symbol?).isSome := by
    grind [prepare, malformed]
  obtain ⟨name, hname⟩ := Option.isSome_iff_exists.1 hname
  rw [performSet, hname]
  exact hv

theorem faultless_performQuote {t : FormTask}
    (hprepare : prepare arena node .quoteForm = .ok t) :
    Faultless (FormStep.Inside arena.size) (performQuote arena node) := by
  have hlen : (arena.operands node).length = 1 := by
    grind [prepare, malformed]
  obtain ⟨datum, hoperands⟩ := List.length_eq_one_iff.1 hlen
  obtain ⟨⟨shape, next⟩, hm⟩ := Arena.exists_node?_eq_some
    (Arena.lt_size_of_mem_operands hlinks (by rw [hoperands]; simp : datum ∈ arena.operands node))
  rw [performQuote, hoperands]
  simp only [hm]
  cases shape with
  | atom a => exact Value.inside_ofAtom _ datum a
  | empty => trivial
  | compound operator => exact id

/-- A form whose shape was checked finds its operands. -/
theorem faultless_perform {t : FormTask} (hfits : t.Fits arena node) {values : List Value}
    (hvalues : ∀ v ∈ values, v.Inside arena.size) :
    Faultless (FormStep.Inside arena.size) (perform arena node t values) := by
  have hv := inside_passValue hvalues
  obtain ⟨first, hprepare⟩ := hfits.prepared
  rw [perform]
  cases hform : t.form with
  | ifForm => exact inside_performIf hv
  | andForm | orForm => exact inside_performSequence hv
  | lambdaForm => exact faultless_performLambda hlinks (hform ▸ hprepare)
  | defineForm => exact faultless_performDefine hlinks hv (hform ▸ hprepare)
  | setForm => exact faultless_performSet hv (hform ▸ hprepare)
  | quoteForm => exact faultless_performQuote hlinks (hform ▸ hprepare)

/-- What a form asks for can be done. -/
theorem sound_performStep (h : Grounded arena s node ls) {t : FormTask}
    (hfits : t.Fits arena node) {values : List Value} {next : FormStep}
    (hperform : perform arena node t values = .ok next) (hnext : next.Inside arena.size)
    (hcompound : arena.children node ≠ []) (position : Nat) :
    Sound arena
      (performStep arena
        { node, base := (operandsOf ls).length, position, task := .form t } t.form next
        (s.withLevels none ls)) := by
  have hdeliver : ∀ (store : Store) (v : Value), store.Inside arena.size →
      v.Inside arena.size →
        Sound arena (deliver arena node v ({ s with store }.withLevels none ls)) := by
    intro store v hstore hv
    exact sound_deliver hlinks (s := { s with store }) ⟨h.awaits, h.node_lt, h.levels, hstore⟩ hv
      none
  cases next with
  | value v => exact sound_deliver hlinks h hnext none
  | bind name v => exact hdeliver _ .unspecified (h.store.bind s.scope name hnext) trivial
  | assign name v =>
    dsimp only [performStep, State.withLevels]
    cases s.store.holder? s.scope name with
    | some holder => exact hdeliver _ .unspecified (h.store.bind holder name hnext) trivial
    | none => exact sound_fail id h.store
  | lambda parameters first rest =>
    exact hdeliver _ (.closure (newClosure s none parameters first rest)) h.store hnext
  | procedure name parameters first rest =>
    let c := newClosure s (some name) parameters first rest
    have hc : (Value.closure c).Inside arena.size := hnext
    exact hdeliver _ .unspecified (h.store.newSerial.bind s.scope name hc) trivial
  | again t' =>
    obtain ⟨hform, hfits'⟩ := fits_of_perform_again hfits hperform
    have hlen := List.length_pos_iff.2 hcompound
    have howns : Task.Owns (.form t') 1 [.special t.form] := by
      rw [← hform]
      exact .before (Nat.le_refl 1) fun i hi => (hfits'.wanted_le hi).1
    rw [performStep_again]
    have hpoints := Arena.head?_operands arena node
    refine sound_running ⟨⟨hpoints, hlen⟩, hcompound, hfits', howns, h.awaits⟩ ?_ ?_ h.store
    · intro operand hoperand
      exact Arena.lt_size_of_mem_operands hlinks (List.mem_of_mem_head? hoperand)
    · rw [List.forall_mem_cons]
      refine ⟨⟨h.node_lt, ?_⟩, h.levels⟩
      simp [Value.Inside]

/-! ## Ends of frames -/

/-- An ordinary combination that has all its values has an operator that can be
applied or refused. -/
theorem sound_dispatch_call (h : Grounded arena s node ls) {position : Nat} {vs : List Value}
    (howns : Task.Owns .call position vs) (hpos : 0 < position)
    (hvs : ∀ v ∈ vs, v.Inside arena.size) :
    Sound arena
      (dispatch arena limit { node, base := (operandsOf ls).length, position, task := .call }
        vs.reverse (s.withLevels none ls)) := by
  cases howns with
  | call hlen hoperator =>
    rcases hrev : vs.reverse with _ | ⟨operator, args⟩
    · have := List.reverse_eq_nil_iff.1 hrev
      subst this
      simp at hlen
      omega
    have hlast : vs.getLast? = some operator := by
      rw [← List.head?_reverse, hrev, List.head?_cons]
    have hinside : ∀ v ∈ operator :: args, v.Inside arena.size := by
      intro v hv
      rw [← hrev, List.mem_reverse] at hv
      exact hvs v hv
    rw [List.forall_mem_cons] at hinside
    cases operator with
    | builtin b => exact sound_callBuiltin hlinks h b args
    | closure c => exact sound_apply h hinside.1 hinside.2
    | special form => exact absurd hlast (hoperator form)
    | _ => exact sound_fail id h.store

/-- A special form that is at the end of a pass can be performed. -/
theorem sound_dispatch_form (h : Grounded arena s node ls) {t : FormTask}
    (hfits : t.Fits arena node) (hcompound : arena.children node ≠ []) {position : Nat}
    {vs : List Value} (howns : Task.Owns (.form t) position vs)
    (hvs : ∀ v ∈ vs, v.Inside arena.size) (position' : Nat) :
    Sound arena
      (dispatch arena limit
        { node, base := (operandsOf ls).length, position := position', task := .form t }
        vs.reverse (s.withLevels none ls)) := by
  have hform : ∀ values : List Value, (∀ v ∈ values, v.Inside arena.size) →
      Sound arena
        (callForm arena
          { node, base := (operandsOf ls).length, position := position', task := .form t } t.form
          values (s.withLevels none ls)) := by
    intro values hvalues
    have hperform := faultless_perform hlinks hfits hvalues
    rw [callForm_form]
    cases hp : perform arena node t values with
    | error e =>
      rw [hp] at hperform
      exact sound_fail hperform h.store
    | ok next =>
      rw [hp] at hperform
      exact sound_performStep hlinks h hfits hp hperform hcompound position'
  cases howns with
  | before _ _ => exact hform [] (by simp)
  | @after _ _ _ v _ _ => exact hform [v] (by simpa using hvs v List.mem_cons_self)

/-! ## Steps -/

omit hlinks in
/-- A special form waits for the operand that it seeks. -/
theorem awaits_seek {t : FormTask} (hfits : t.Fits arena node) {position : Nat}
    {vs : List Value} (howns : Task.Owns (.form t) position vs) (hrest : Awaits arena node ls)
    {child : NodeId} (hchild : (arena.children node)[t.seek position]? = some child) :
    Awaits arena child (.call node (t.seek position) (.form t) vs :: ls) := by
  have hlt := (List.getElem?_eq_some_iff.1 hchild).1
  have hcount := hfits.count
  exact ⟨hchild, t.skips_seek position, hfits, howns.seek (by omega), hrest⟩

/-- A combination takes a step. -/
theorem sound_step_call {position : Nat} {task : Task} {vs : List Value}
    (hlaid : Laid arena (arena.children node)[position]? (.call node position task vs :: ls))
    (hlevels : ∀ l ∈ Level.call node position task vs :: ls, l.Inside arena.size)
    (hstore : s.store.Inside arena.size) :
    Sound arena (step arena limit
      (s.withLevels (arena.children node)[position]? (.call node position task vs :: ls))) := by
  obtain ⟨⟨-, hle⟩, hcompound, hfits, howns, hrest⟩ := hlaid
  obtain ⟨hinside, houter⟩ := List.forall_mem_cons.1 hlevels
  have hground : Grounded arena (tick s) node ls := ⟨hrest, hinside.1, houter, hstore⟩
  cases task with
  | call =>
    cases hchild : (arena.children node)[position]? with
    | some child =>
      have hawaits : Awaits arena child (.call node position .call vs :: ls) :=
        ⟨hchild, rfl, hfits, howns, hrest⟩
      have hlt := Arena.lt_size_of_mem_children hlinks (List.mem_of_getElem? hchild)
      rw [step_call]
      exact sound_enter hlinks (s := tick s) ⟨hawaits, hlt, hlevels, hstore⟩ _
    | none =>
      have hend := List.getElem?_eq_none_iff.1 hchild
      have hlen := List.length_pos_iff.2 hcompound
      rw [step_call_end]
      exact sound_dispatch_call hlinks hground howns (by omega) hinside.2
  | form t =>
    have hcount := hfits.count
    rw [step_form limit s ls hlinks hfits howns.one_le (by omega) vs]
    cases hchild : (arena.children node)[t.seek position]? with
    | some child =>
      have hawaits := awaits_seek hfits howns hrest hchild
      have hlt := Arena.lt_size_of_mem_children hlinks (List.mem_of_getElem? hchild)
      have hlevels' : ∀ l ∈ Level.call node (t.seek position) (.form t) vs :: ls,
          l.Inside arena.size := List.forall_mem_cons.2 ⟨hinside, houter⟩
      exact sound_enter hlinks (s := tick s) ⟨hawaits, hlt, hlevels', hstore⟩ _
    | none => exact sound_dispatch_form hlinks hground hfits hcompound howns hinside.2 _

/-- The end of an expression of a body, where the value goes to the caller or the
next expression starts. -/
theorem sound_step_body_end {k : Continuation} {v : Value}
    (hrest : Awaits arena k.returnNode ls)
    (hlevels : ∀ l ∈ Level.body k [v] :: ls, l.Inside arena.size)
    (hstore : s.store.Inside arena.size) :
    Sound arena (step arena limit (s.withLevels none (.body k [v] :: ls))) := by
  obtain ⟨⟨hreturn, hremaining, hvalues⟩, houter⟩ := List.forall_mem_cons.1 hlevels
  rw [step_body_end]
  cases hr : k.remaining with
  | nil =>
    exact sound_deliver hlinks (s := { tick s with scope := k.callerScope })
      ⟨hrest, hreturn, houter, hstore⟩ (hvalues v List.mem_cons_self) none
  | cons next remaining =>
    rw [hr, List.forall_mem_cons] at hremaining
    refine sound_running ⟨.inl ⟨rfl, rfl⟩, hrest⟩ ?_ ?_ hstore
    · intro n hn
      obtain rfl := Option.some.inj hn
      exact hremaining.1
    · rw [List.forall_mem_cons]
      exact ⟨⟨hreturn, hremaining.2, by simp⟩, houter⟩

/-- Every step keeps the invariant. -/
theorem sound_step (h : Sound arena (.running s)) : Sound arena (step arena limit s) := by
  obtain ⟨pc, ls, hs, hlaid, hpc, hlevels, hstore⟩ := h
  rw [hs]
  match ls, hlaid with
  | [.top vs], hready =>
    rcases hready with ⟨hsome, rfl⟩ | ⟨rfl, v, rfl⟩
    · obtain ⟨root, rfl⟩ := Option.isSome_iff_exists.1 hsome
      have hawaits : Awaits arena root [.top []] := rfl
      rw [step_top]
      exact sound_enter hlinks (s := tick s) ⟨hawaits, hpc root rfl, hlevels, hstore⟩ _
    · rw [step_top_end]
      exact ⟨trivial, hstore⟩
  | .body k vs :: ls, ⟨hready, hrest⟩ =>
    rcases hready with ⟨hsome, rfl⟩ | ⟨rfl, v, rfl⟩
    · obtain ⟨expression, rfl⟩ := Option.isSome_iff_exists.1 hsome
      have hawaits : Awaits arena expression (.body k [] :: ls) := ⟨rfl, hrest⟩
      rw [step_body]
      exact sound_enter hlinks (s := tick s) ⟨hawaits, hpc expression rfl, hlevels, hstore⟩ _
    · exact sound_step_body_end hlinks hrest hlevels hstore
  | .call node position task vs :: ls, hlaid =>
    obtain rfl := hlaid.1.1
    exact sound_step_call hlinks hlaid hlevels hstore

/-! ## Runs -/

/-- The invariant holds at each stage of a run. -/
theorem Sound.of_leads {p q : Progress} (h : Sound arena p) (hleads : Leads arena limit p q) :
    Sound arena q := by
  induction hleads with
  | refl => exact h
  | step _ ih => exact ih (sound_step hlinks h)

end Functions

/-- The invariant holds at the start of a run. -/
theorem sound_initial {arena : Arena} {store : Store} {sink : Sink} {root : Nat}
    (hroot : root < arena.size) (hstore : store.Inside arena.size) :
    Sound arena (.running (.initial store sink root)) := by
  rw [initial_eq_withLevels]
  refine sound_running (.inl ⟨rfl, rfl⟩) ?_ ?_ hstore
  · intro n hn
    obtain rfl := Option.some.inj hn
    exact hroot
  · simp [Level.Inside]

/-! ## Registers -/

/-- The numbers by which a special form finds its operands are in range. -/
structure FormTask.InRange (arena : Arena) (node : NodeId) (t : FormTask) : Prop where
  count : t.operandCount = (arena.operands node).length
  wanted {i : Nat} (h : t.wanted = some i) : 1 ≤ i ∧ i ≤ t.operandCount
  pass (h : t.form = .andForm ∨ t.form = .orForm) : t.pass ≤ t.operandCount
  /-- The other forms have a first operand. -/
  operand (h : t.form ≠ .andForm ∧ t.form ≠ .orForm) : arena.operands node ≠ []

/-- Whether a frame is one expression of a body. -/
def Frame.isBody : Frame → Bool
  | .body _ => true
  | _ => false

/-- The registers refer to nothing that is not there. -/
structure State.Safe (arena : Arena) (s : State) : Prop where
  pc {node : Nat} (h : s.pc = some node) : node < arena.size
  call {f : CallFrame} (h : .call f ∈ s.frames.items) :
    f.node < arena.size ∧ f.base ≤ s.operands.size ∧
      ∀ t, f.task = .form t → t.InRange arena f.node
  body {base : Nat} (h : .body base ∈ s.frames.items) : base ≤ s.operands.size
  /-- Each body has its continuation. -/
  bodies : s.frames.items.countP Frame.isBody = s.continuations.size
  continuation {k : Continuation} (h : k ∈ s.continuations.items) :
    k.returnNode < arena.size ∧ ∀ node ∈ k.remaining, node < arena.size
  operand {v : Value} (h : v ∈ s.operands.items) : v.Inside arena.size
  store : s.store.Inside arena.size

theorem FormTask.Fits.inRange {arena : Arena} {node : NodeId} {t : FormTask}
    (h : t.Fits arena node) : t.InRange arena node := by
  have hcount : t.operandCount = (arena.operands node).length := by
    have := h.count
    rw [Arena.operands, List.length_tail]
    omega
  refine ⟨hcount, h.wanted_le, fun hform => ?_, fun hform => ?_⟩
  · have hpass := h.inPass
    rw [FormTask.InPass] at hpass
    have hcases : t.pass = 0 ∨ t.wanted = some t.pass := by
      rcases hform with hform | hform <;> rw [hform] at hpass <;>
        exact hpass.imp And.left And.right
    rcases hcases with hzero | hwanted
    · omega
    · exact (h.wanted_le hwanted).2
  · obtain ⟨first, hprepare⟩ := h.prepared
    intro hnil
    generalize t.form = form at hprepare hform
    cases form <;> simp [prepare, hnil, malformed] at hprepare hform

/-- Every combination among the levels fits. -/
theorem Awaits.fits {arena : Arena} {node : NodeId} {ls : List Level}
    (h : Awaits arena node ls) {parent : NodeId} {position : Nat} {task : Task}
    {vs : List Value} (hmem : .call parent position task vs ∈ ls) : task.Fits arena parent := by
  induction ls generalizing node with
  | nil => cases hmem
  | cons l ls ih =>
    cases l with
    | top us =>
      cases ls with
      | nil => simp at hmem
      | cons l' ls => exact h.elim
    | body k us =>
      rcases List.mem_cons.1 hmem with heq | hmem
      · cases heq
      · exact ih h.2 hmem
    | call parent' position' task' us =>
      rcases List.mem_cons.1 hmem with heq | hmem
      · cases heq
        exact h.2.2.1
      · exact ih h.2.2.2.2 hmem

theorem Laid.fits {arena : Arena} {pc : Option NodeId} {ls : List Level} (h : Laid arena pc ls)
    {parent : NodeId} {position : Nat} {task : Task} {vs : List Value}
    (hmem : .call parent position task vs ∈ ls) : task.Fits arena parent := by
  match ls, h with
  | [.top us], _ => simp at hmem
  | .body k us :: ls, ⟨_, hrest⟩ =>
    rcases List.mem_cons.1 hmem with heq | hmem
    · cases heq
    · exact hrest.fits hmem
  | .call parent' position' task' us :: ls, ⟨_, _, hfits, _, hrest⟩ =>
    rcases List.mem_cons.1 hmem with heq | hmem
    · cases heq
      exact hfits
    · exact hrest.fits hmem

/-- A frame is the frame of a level, and its base is not above the operands. -/
theorem exists_of_mem_framesOf {ls : List Level} {frame : Frame} (h : frame ∈ framesOf ls) :
    ∃ l ∈ ls, ∃ base ≤ (operandsOf ls).length, frame = l.frame base := by
  induction ls with
  | nil => cases h
  | cons l ls ih =>
    rw [framesOf_cons] at h
    have hlen : (operandsOf ls).length ≤ (operandsOf (l :: ls)).length := by
      rw [operandsOf_cons, List.length_append]
      omega
    rcases List.mem_cons.1 h with rfl | h
    · exact ⟨l, List.mem_cons_self, _, hlen, rfl⟩
    · obtain ⟨l', hl', base, hbase, rfl⟩ := ih h
      exact ⟨l', List.mem_cons_of_mem _ hl', base, Nat.le_trans hbase hlen, rfl⟩

theorem countP_framesOf (ls : List Level) :
    (framesOf ls).countP Frame.isBody = (continuationsOf ls).length := by
  induction ls with
  | nil => rfl
  | cons l ls ih =>
    cases l with
    | body k vs => simp [Level.frame, Frame.isBody, List.countP_cons, ih]
    | _ => simp [Level.frame, Frame.isBody, ih]

/-- The invariant in terms of the registers. -/
theorem Sound.safe {arena : Arena} {s : State} (h : Sound arena (.running s)) :
    s.Safe arena := by
  obtain ⟨pc, ls, hs, hlaid, hpc, hlevels, hstore⟩ := h
  rw [hs]
  refine ⟨hpc _, fun hf => ?_, fun hbase => ?_, ?_, fun hk => ?_, fun hv => ?_, hstore⟩
  · obtain ⟨l, hl, base, hbase, hframe⟩ := exists_of_mem_framesOf hf
    cases l with
    | call node position task vs =>
      cases hframe
      refine ⟨(hlevels _ hl).1, hbase, fun t ht => ?_⟩
      have hfits := hlaid.fits hl
      rw [show task = .form t from ht] at hfits
      exact FormTask.Fits.inRange hfits
    | _ => cases hframe
  · obtain ⟨l, hl, base', hle, hframe⟩ := exists_of_mem_framesOf hbase
    cases l with
    | body k vs =>
      cases hframe
      exact hle
    | _ => cases hframe
  · exact countP_framesOf ls
  · obtain ⟨l, hl, hl'⟩ := List.mem_filterMap.1 hk
    cases l with
    | body k' vs =>
      obtain rfl := Option.some.inj hl'
      exact ⟨(hlevels _ hl).1, (hlevels _ hl).2.1⟩
    | _ => cases hl'
  · obtain ⟨l, hl, hl'⟩ := List.mem_flatMap.1 hv
    have hinside := hlevels l hl
    cases l with
    | top vs => exact hinside _ hl'
    | body k vs => exact hinside.2.2 _ hl'
    | call node position task vs => exact hinside.2 _ hl'

end StackScheme.Machine
