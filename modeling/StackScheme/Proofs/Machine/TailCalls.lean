import StackScheme.Proofs.Machine.Applications
import StackScheme.Proofs.Machine.Effects

/-!
# Tail calls cannot be observed

The plain machine gives each call a continuation of its own.  It ends if and only
if the machine does, with the same outcome, store and sink, and neither counter of
the machine is above that of the plain one.

* The plain machine.  `plainApply` always makes a nested call, and `plainStep` and
  `plainRun` are the machine with it.
* Contraction.  `contract` gives the levels of the machine for those of the plain
  one: a body that was called in tail position takes the place of the body around
  it, and the forms in between are gone.
* Functions.  `Mirrors` are stages of the two machines whose levels are related by
  `contract`.  Both machines have the same effects on their levels (`mirrors_act`), and
  applications are compared by `mirrors_apply`.
* Returning.  The plain machine leaves the bodies and forms that the other machine
  has dropped one by one, and passes the value on (`exists_iterate_deliver`).
* Runs.  A step of the machine is one or more steps of the plain machine.
-/

namespace StackScheme.Machine

/-! ## The plain machine -/

/-- Applies a procedure for the combination at `node`, in tail position or not, in
a continuation of its own. -/
def plainApply (node : NodeId) (c : Closure) (args : List Value) (s : State) : Progress :=
  if args.length ≠ c.parameters.length then
    s.fail (.arity c.text (.exactly c.parameters.length) args.length)
  else nestedCall node c args s

/-- One step of the plain machine, which has no limit. -/
def plainStep (arena : Arena) : State → Progress :=
  stepBy arena none plainApply

/-- A run of the plain machine. -/
def plainRun (arena : Arena) : (fuel : Nat) → State → Option (Except Error Value × State) :=
  runBy arena none plainApply

variable {arena : Arena}

theorem plainStep_of_application? {s : State} {a : Application}
    (h : application? arena s = some a) :
    plainStep arena s = plainApply a.node a.closure a.args a.state := by
  rw [plainStep, stepBy_eq, h]

theorem plainStep_of_eq_none {s : State} (h : application? arena s = none) :
    plainStep arena s = step arena none s := by
  rw [plainStep, stepBy_eq, h]

/-- The plain machine keeps the invariant of runs. -/
theorem sound_plainStep (hlinks : arena.WellLinked) {s : State}
    (h : Sound arena (.running s)) : Sound arena (plainStep arena s) := by
  cases happ : application? arena s with
  | none =>
    rw [plainStep_of_eq_none happ]
    exact sound_step hlinks h
  | some a =>
    rw [plainStep_of_application? happ]
    obtain ⟨pc, ls, hs, hlaid, -, hlevels, hstore⟩ := h
    rw [hs] at happ
    obtain ⟨position, vs, outer, rfl, -, hrev, hstate, hawaits⟩ := hlaid.application?_cases happ
    obtain ⟨⟨hnode, hvs⟩, houter⟩ := List.forall_mem_cons.1 hlevels
    have hvalues : ∀ v ∈ Value.closure a.closure :: a.args, v.Inside arena.size := by
      intro v hv
      rw [← hrev, List.mem_reverse] at hv
      exact hvs v hv
    rw [List.forall_mem_cons] at hvalues
    rw [hstate, plainApply]
    split
    · exact sound_fail id hstore
    · exact sound_nestedCall (s := tick s) ⟨hawaits, hnode, houter, hstore⟩ hvalues.1 hvalues.2

/-! ## Contraction -/

/-- The levels of the machine, for the levels of the plain machine.  A body that a
tail call has entered gets the caller of the body that was running. -/
def contract : List Level → List Level
  | [] => []
  | .body k vs :: ls =>
    match runningBody? (contract ls) with
    | some (k', outer) => .body { k' with remaining := k.remaining } vs :: outer
    | none => .body k vs :: contract ls
  | l :: ls => l :: contract ls

theorem contract_call (node : NodeId) (position : Nat) (task : Task) (vs : List Value)
    (ls : List Level) :
    contract (.call node position task vs :: ls) = .call node position task vs :: contract ls :=
  rfl

theorem contract_body_of_some {k k' : Continuation} {ls outer : List Level}
    (h : runningBody? (contract ls) = some (k', outer)) (vs : List Value) :
    contract (.body k vs :: ls) = .body { k' with remaining := k.remaining } vs :: outer := by
  rw [contract, h]

theorem contract_body_of_none {ls : List Level} (h : runningBody? (contract ls) = none)
    (k : Continuation) (vs : List Value) :
    contract (.body k vs :: ls) = .body k vs :: contract ls := by
  rw [contract, h]

/-- The innermost body stays, with the expressions that remain of it. -/
theorem exists_contract_body (k : Continuation) (ls : List Level) :
    ∃ (k' : Continuation) (outer : List Level), ∀ remaining vs,
      contract (.body { k with remaining } vs :: ls) =
        .body { k' with remaining } vs :: outer := by
  cases h : runningBody? (contract ls) with
  | none => exact ⟨k, contract ls, fun _ vs => contract_body_of_none h _ vs⟩
  | some found => exact ⟨found.1, found.2, fun _ vs => contract_body_of_some h vs⟩

theorem length_continuationsOf_contract_le (ls : List Level) :
    (continuationsOf (contract ls)).length ≤ (continuationsOf ls).length := by
  induction ls with
  | nil => exact Nat.le_refl _
  | cons l ls ih =>
    cases l with
    | top vs => exact ih
    | call node position task vs => exact ih
    | body k vs =>
      cases h : runningBody? (contract ls) with
      | none =>
        rw [contract_body_of_none h, continuationsOf_body, continuationsOf_body]
        simpa using ih
      | some found =>
        obtain ⟨k', outer⟩ := found
        obtain ⟨-, -, hcont, -⟩ := unwind_of_runningBody? h
        rw [hcont, List.length_cons] at ih
        rw [contract_body_of_some h, continuationsOf_body, continuationsOf_body]
        simp only [List.length_cons]
        omega

/-- Contracted levels wait for the same node. -/
theorem Awaits.contract {node : NodeId} {ls : List Level} (h : Awaits arena node ls) :
    Awaits arena node (contract ls) := by
  induction ls generalizing node with
  | nil => exact h
  | cons l ls ih =>
    cases l with
    | top vs =>
      cases ls with
      | nil => exact h
      | cons _ _ => exact h.elim
    | call parent position task vs =>
      obtain ⟨hchild, hskips, hfits, howns, hrest⟩ := h
      exact ⟨hchild, hskips, hfits, howns, ih hrest⟩
    | body k vs =>
      obtain ⟨hvs, hrest⟩ := h
      cases hbody : runningBody? (Machine.contract ls) with
      | none =>
        rw [contract_body_of_none hbody]
        exact ⟨hvs, ih hrest⟩
      | some found =>
        have houter : Awaits arena found.1.returnNode found.2 := (ih hrest).of_runningBody? hbody
        rw [contract_body_of_some hbody]
        exact ⟨hvs, houter⟩

/-! ## Functions -/

/-- Both counters are at most those of the other record. -/
instance : LE Stats :=
  ⟨fun a b => a.steps ≤ b.steps ∧ a.peakContinuations ≤ b.peakContinuations⟩

theorem Stats.le_trans {a b c : Stats} (hab : a ≤ b) (hbc : b ≤ c) : a ≤ c :=
  ⟨Nat.le_trans hab.1 hbc.1, Nat.le_trans hab.2 hbc.2⟩

theorem tick_stats_le {t : State} {stats : Stats} (hle : stats ≤ t.stats) :
    (tick { t with stats }).stats ≤ (tick t).stats :=
  ⟨Nat.succ_le_succ hle.1, hle.2⟩

/-- The stages of the machine and of the plain machine that belong together.  The
registers that are no stacks are equal up to the counters. -/
inductive Mirrors : Progress → Progress → Prop
  | running {t : State} {stats : Stats} (hle : stats ≤ t.stats) (pc : Option NodeId)
    (ls : List Level) :
    Mirrors (.running ({ t with stats }.withLevels pc (contract ls)))
      (.running (t.withLevels pc ls))
  | halted {s t : State} (r : Except Error Value) (hstore : s.store = t.store)
    (hsink : s.sink = t.sink) (hle : s.stats ≤ t.stats) : Mirrors (.halted r s) (.halted r t)

section Functions

variable {t : State} {stats : Stats} (hle : stats ≤ t.stats) {ls : List Level}

include hle

theorem mirrors_fail (e : Error) (pc : Option NodeId) (ls ls' : List Level) :
    Mirrors (({ t with stats }.withLevels pc ls).fail e) ((t.withLevels pc ls').fail e) :=
  .halted _ rfl rfl hle

theorem mirrors_deliver (hls : Closed ls) (node : NodeId) (v : Value) (pc : Option NodeId) :
    Mirrors (deliver arena node v ({ t with stats }.withLevels pc (contract ls)))
      (deliver arena node v (t.withLevels pc ls)) := by
  cases ls with
  | nil => exact hls.elim
  | cons l ls =>
    cases l with
    | top vs => exact .running hle none (.top (v :: vs) :: ls)
    | body k vs =>
      obtain ⟨k', outer, hcontract⟩ := exists_contract_body k ls
      have hmirrors := Mirrors.running hle none (.body k (v :: vs) :: ls)
      rw [hcontract k.remaining] at hmirrors ⊢
      exact hmirrors
    | call parent position task vs =>
      rw [contract_call]
      rcases deliver_call_cases arena node v parent position task vs with
        ⟨e, hfail⟩ | ⟨pc', position', task', hmoves⟩
      · rw [hfail, hfail]
        exact mirrors_fail hle e pc _ _
      · rw [hmoves, hmoves]
        exact .running hle pc' (.call parent position' task' (v :: vs) :: ls)

/-- An effect on levels is the same effect on their contraction. -/
theorem mirrors_act (hls : Closed ls) (effect : LevelEffect) (node : NodeId) (pc : Option NodeId) :
    Mirrors (effect.act arena none node { t with stats } pc (contract ls))
      (effect.act arena none node t pc ls) := by
  cases effect with
  | fail e => exact mirrors_fail hle e pc _ _
  | value v => exact mirrors_deliver hle hls node v pc
  | opens operator => exact .running hle (some operator) (.call node 0 .call [] :: ls)
  | again form task =>
    exact .running hle (arena.operands node).head?
      (.call node 1 (.form task) [.special form] :: ls)

theorem mirrors_enter (hls : Closed ls) (node : NodeId) (pc : Option NodeId) :
    Mirrors (enter arena none node ({ t with stats }.withLevels pc (contract ls)))
      (enter arena none node (t.withLevels pc ls)) := by
  obtain ⟨effect, heffect⟩ := exists_enter_eq_act arena node t
  rw [heffect stats, heffect t.stats]
  exact mirrors_act hle hls effect node pc

/-- Operators that are no closures are applied in the same way by both machines. -/
theorem mirrors_dispatch (hls : Closed ls) (node : NodeId) (position : Nat) (task : Task)
    {values : List Value} (hvalues : ∀ c args, values ≠ .closure c :: args) :
    Mirrors
      (dispatch arena none { node, base := (operandsOf (contract ls)).length, position, task }
        values ({ t with stats }.withLevels none (contract ls)))
      (dispatch arena none { node, base := (operandsOf ls).length, position, task } values
        (t.withLevels none ls)) := by
  obtain ⟨effect, store, sink, heffect⟩ :=
    exists_dispatch_eq_act arena node t position task hvalues
  rw [heffect stats, heffect t.stats]
  exact mirrors_act (t := { t with store, sink }) hle hls effect node none

/-- A tail call of the machine is a call of the plain machine whose body takes the
place of the running body in the contraction. -/
theorem mirrors_apply {node : NodeId} (hawaits : Awaits arena node ls) (c : Closure)
    (args : List Value) :
    Mirrors (apply none node c args ({ t with stats }.withLevels none (contract ls)))
      (plainApply node c args (t.withLevels none ls)) := by
  rw [apply, plainApply]
  split
  · exact mirrors_fail hle _ none _ _
  let k : Continuation := { callerScope := t.scope, returnNode := node, remaining := c.rest }
  let t' : State := { t with
    scope := t.store.nextScope
    store := t.store.extend c.scope (c.parameters.zip args)
    stats := { t.stats with
      peakContinuations := max t.stats.peakContinuations ((continuationsOf ls).length + 1) } }
  have hplain : nestedCall node c args (t.withLevels none ls) =
      .running (t'.withLevels (some c.first) (.body k [] :: ls)) := rfl
  rw [hplain, inTailPosition_withLevels]
  cases hbody : runningBody? (contract ls) with
  | some found =>
    have hle' : stats ≤ t'.stats := ⟨hle.1, Nat.le_trans hle.2 (Nat.le_max_left _ _)⟩
    rw [Option.isSome_some, if_pos rfl,
      tailCall_withLevels hbody fun vs hmem => hawaits.contract.values_eq_nil hmem]
    have hmirrors := Mirrors.running hle' (some c.first) (.body k [] :: ls)
    rwa [contract_body_of_some hbody] at hmirrors
  | none =>
    have hcount := length_continuationsOf_contract_le ls
    have hpeak : max stats.peakContinuations ((continuationsOf (contract ls)).length + 1) ≤
        t'.stats.peakContinuations := by
      show _ ≤ max t.stats.peakContinuations ((continuationsOf ls).length + 1)
      have := hle.2
      omega
    have hle' : { stats with
        peakContinuations :=
          max stats.peakContinuations ((continuationsOf (contract ls)).length + 1) } ≤ t'.stats :=
      ⟨hle.1, hpeak⟩
    rw [Option.isSome_none, if_neg Bool.false_ne_true]
    have hmirrors := Mirrors.running hle' (some c.first) (.body k [] :: ls)
    rwa [contract_body_of_none hbody] at hmirrors

end Functions

/-! ## Returning -/

section Returning

/-- The end of a body has the plain machine pass the value on to the caller. -/
theorem plainStep_body_end {k : Continuation} (hremaining : k.remaining = []) (t : State)
    (ls : List Level) (v : Value) :
    plainStep arena (t.withLevels none (.body k [v] :: ls)) =
      deliver arena k.returnNode v
        ({ tick t with scope := k.callerScope }.withLevels none ls) := by
  rw [plainStep_of_eq_none (application?_body arena t ls none k [v]), step_body_end, hremaining]

variable (hlinks : arena.WellLinked)

include hlinks

/-- A form that passes its value on has the plain machine pass it on. -/
theorem plainStep_operand {parent node : NodeId} {task : FormTask} {position : Nat}
    (hfits : task.Fits arena parent) (hchild : (arena.children parent)[position]? = some node)
    (hwanted : task.wanted = some position) (hforwards : task.forwards = true) (t : State)
    (ls : List Level) (v : Value) :
    plainStep arena (t.withLevels (arena.children parent)[position + 1]?
        (.call parent (position + 1) (.form task) [v, .special task.form] :: ls)) =
      deliver arena parent v ((tick t).withLevels none ls) := by
  have howns : Task.Owns (.form task) (position + 1) [v, .special task.form] :=
    .after hwanted (Nat.lt_succ_self position)
  rw [plainStep_of_eq_none (application?_form arena t ls _ howns),
    step_operand hlinks none t ls hfits hchild hwanted, callForm_form,
    perform_of_forwards hforwards]
  rfl

/-- A value that the plain machine delivers inside of a tail call gets to where
the other machine delivers it at once. -/
theorem exists_iterate_deliver {ls outer : List Level} {node : NodeId} {k : Continuation}
    (hawaits : Awaits arena node ls) (hbody : runningBody? (contract ls) = some (k, outer))
    (t : State) (pc : Option NodeId) (v : Value) :
    ∃ n ls' stats, contract ls' = outer ∧ Closed ls' ∧ t.stats ≤ stats ∧
      (Progress.next (plainStep arena))^[n] (deliver arena node v (t.withLevels pc ls)) =
        deliver arena k.returnNode v
          ({ t with scope := k.callerScope, stats }.withLevels none ls') := by
  -- The levels are left from the inside, each in one step.
  induction ls generalizing node k outer t pc with
  | nil => exact hawaits.elim
  | cons l ls ih =>
    have htick : t.stats ≤ (tick t).stats := ⟨Nat.le_succ _, Nat.le_refl _⟩
    cases l with
    | top vs => cases hbody
    | call parent position task vs =>
      obtain ⟨hchild, hskips, hfits, howns, hrest⟩ := hawaits
      simp only [contract_call, runningBody?, Option.ite_none_right_eq_some] at hbody
      obtain ⟨hforwards, hbody⟩ := hbody
      cases task with
      | call => cases hforwards
      | form task =>
        obtain ⟨hpos, hwanted, rfl⟩ := howns.before_of_child hfits hchild hskips
        obtain ⟨n, ls', stats, hcontract, hclosed, hstats, hiterate⟩ :=
          ih hrest hbody (tick t) none
        refine ⟨n + 1, ls', stats, hcontract, hclosed, Stats.le_trans htick hstats, ?_⟩
        rw [deliver_operand hlinks t pc ls hchild hpos, Function.iterate_succ_apply,
          Progress.next, plainStep_operand hlinks hfits hchild hwanted hforwards]
        exact hiterate
    | body k' vs =>
      obtain ⟨rfl, hrest⟩ := hawaits
      rw [deliver_body]
      cases hinner : runningBody? (contract ls) with
      | none =>
        rw [contract_body_of_none hinner] at hbody
        simp only [runningBody?, Option.ite_none_right_eq_some, Option.some.injEq,
          Prod.mk.injEq] at hbody
        obtain ⟨hremaining, rfl, rfl⟩ := hbody
        refine ⟨1, ls, (tick t).stats, rfl, hrest.closed, htick, ?_⟩
        exact plainStep_body_end hremaining t ls v
      | some found =>
        rw [contract_body_of_some hinner] at hbody
        simp only [runningBody?, Option.ite_none_right_eq_some, Option.some.injEq,
          Prod.mk.injEq] at hbody
        obtain ⟨hremaining, rfl, rfl⟩ := hbody
        obtain ⟨n, ls', stats, hcontract, hclosed, hstats, hiterate⟩ :=
          ih hrest hinner { tick t with scope := k'.callerScope } none
        refine ⟨n + 1, ls', stats, hcontract, hclosed, Stats.le_trans htick hstats, ?_⟩
        rw [Function.iterate_succ_apply, Progress.next, plainStep_body_end hremaining]
        exact hiterate

/-! ## Steps -/

omit hlinks in
theorem step_contract_body (s : State) (node : NodeId) (k : Continuation) (vs : List Value)
    (ls : List Level) :
    step arena none (s.withLevels (some node) (contract (.body k vs :: ls))) =
      enter arena none node
        ((tick s).withLevels (some node) (contract (.body k vs :: ls))) := by
  obtain ⟨k', outer, hcontract⟩ := exists_contract_body k ls
  rw [hcontract k.remaining, step_body]

/-- The end of an expression of a body.  If the body is the last one of a chain of
tail calls, the plain machine takes a step for each level of the chain. -/
theorem exists_mirrors_body_end {t : State} {stats : Stats} (hle : stats ≤ t.stats)
    {k : Continuation} {ls : List Level} (hrest : Awaits arena k.returnNode ls) (v : Value) :
    ∃ n, Mirrors
      (step arena none ({ t with stats }.withLevels none (contract (.body k [v] :: ls))))
      ((Progress.next (plainStep arena))^[n]
        (step arena none (t.withLevels none (.body k [v] :: ls)))) := by
  have hle' := tick_stats_le hle
  rw [step_body_end]
  cases hremaining : k.remaining with
  | cons next remaining =>
    obtain ⟨k', outer, hcontract⟩ := exists_contract_body k ls
    have hmirrors := Mirrors.running hle' (some next) (.body { k with remaining } [] :: ls)
    rw [hcontract k.remaining, step_body_end, hremaining]
    rw [hcontract] at hmirrors
    exact ⟨0, hmirrors⟩
  | nil =>
    cases hbody : runningBody? (contract ls) with
    | none =>
      rw [contract_body_of_none hbody, step_body_end, hremaining]
      exact ⟨0, mirrors_deliver (t := { tick t with scope := k.callerScope }) hle' hrest.closed
        k.returnNode v none⟩
    | some found =>
      obtain ⟨k', outer⟩ := found
      rw [contract_body_of_some hbody, step_body_end, hremaining]
      obtain ⟨n, ls', stats', rfl, hclosed, hstats, hiterate⟩ :=
        exists_iterate_deliver hlinks hrest hbody { tick t with scope := k.callerScope } none v
      refine ⟨n, ?_⟩
      rw [hiterate]
      exact mirrors_deliver
        (t := { tick t with scope := k'.callerScope, stats := stats' })
        (Stats.le_trans hle' hstats) hclosed k'.returnNode v none

/-- A step of the machine at a combination that does not apply a procedure. -/
theorem mirrors_step_call {t : State} {stats : Stats} (hle : stats ≤ t.stats) {node : NodeId}
    {position : Nat} {task : Task} {vs : List Value} {ls : List Level}
    (hlaid : Laid arena (arena.children node)[position]? (.call node position task vs :: ls))
    (happ : application? arena (t.withLevels (arena.children node)[position]?
      (.call node position task vs :: ls)) = none) :
    Mirrors
      (step arena none ({ t with stats }.withLevels (arena.children node)[position]?
        (contract (.call node position task vs :: ls))))
      (step arena none (t.withLevels (arena.children node)[position]?
        (.call node position task vs :: ls))) := by
  have hclosed : Closed ls := hlaid.closed
  rw [contract_call]
  rcases hlaid.step_call_cases hlinks happ with
    ⟨child, position', hstep⟩ | ⟨hvalues, position', hstep⟩
  · have hinside : Closed (.call node position' task vs :: ls) := hclosed
    rw [hstep, hstep]
    exact mirrors_enter (tick_stats_le hle) hinside child (some child)
  · rw [hstep, hstep]
    exact mirrors_dispatch (tick_stats_le hle) hclosed node position' task hvalues

/-- A step of the machine is one or more steps of the plain machine. -/
theorem exists_mirrors_step {t : State} {stats : Stats} (hle : stats ≤ t.stats)
    {pc : Option NodeId} {ls : List Level} (hlaid : Laid arena pc ls) :
    ∃ n, Mirrors (step arena none ({ t with stats }.withLevels pc (contract ls)))
      ((Progress.next (plainStep arena))^[n] (plainStep arena (t.withLevels pc ls))) := by
  have hle' := tick_stats_le hle
  cases happ : application? arena (t.withLevels pc ls) with
  | some a =>
    obtain ⟨position, vs, outer, rfl, rfl, hrev, hstate, hawaits⟩ := hlaid.application?_cases happ
    have hreal : application? arena ({ t with stats }.withLevels none
        (contract (.call a.node position .call vs :: outer))) =
        some { a with state := (tick { t with stats }).withLevels none (contract outer) } := by
      rw [contract_call, application?_call_end, hrev]
    refine ⟨0, ?_⟩
    rw [Function.iterate_zero_apply, plainStep_of_application? happ, hstate,
      step_eq_of_application? hreal]
    exact mirrors_apply hle' hawaits a.closure a.args
  | none =>
    rw [plainStep_of_eq_none happ]
    match ls, hlaid with
    | [.top vs], hready =>
      rcases hready with ⟨hsome, rfl⟩ | ⟨rfl, v, rfl⟩
      · obtain ⟨root, rfl⟩ := Option.isSome_iff_exists.1 hsome
        have hclosed : Closed [.top []] := trivial
        exact ⟨0, mirrors_enter hle' hclosed root (some root)⟩
      · exact ⟨0, .halted (.ok v) rfl rfl hle'⟩
    | .body k vs :: ls, ⟨hready, hrest⟩ =>
      rcases hready with ⟨hsome, rfl⟩ | ⟨rfl, v, rfl⟩
      · obtain ⟨expression, rfl⟩ := Option.isSome_iff_exists.1 hsome
        have hclosed : Closed (.body k [] :: ls) := hrest.closed
        rw [step_contract_body, step_body]
        exact ⟨0, mirrors_enter hle' hclosed expression (some expression)⟩
      · exact exists_mirrors_body_end hlinks hle hrest v
    | .call node position task vs :: ls, hlaid =>
      obtain rfl := hlaid.1.1
      exact ⟨0, mirrors_step_call hlinks hle hlaid happ⟩

end Returning

/-! ## Runs -/

section Runs

variable (hlinks : arena.WellLinked)

include hlinks

theorem sound_iterate_plainStep {q : Progress} (h : Sound arena q) (n : Nat) :
    Sound arena ((Progress.next (plainStep arena))^[n] q) := by
  induction n with
  | zero => exact h
  | succ n ih =>
    rw [Function.iterate_succ_apply']
    generalize (Progress.next (plainStep arena))^[n] q = q' at ih ⊢
    cases q' with
    | running t => exact sound_plainStep hlinks ih
    | halted r t => exact ih

/-- After each number of steps of the machine there is a greater number of steps
of the plain machine that belongs to it. -/
theorem exists_mirrors_iterate {p q : Progress} (h : Mirrors p q) (hsound : Sound arena q)
    (n : Nat) :
    ∃ m, n ≤ m ∧ Mirrors ((Progress.next (step arena none))^[n] p)
      ((Progress.next (plainStep arena))^[m] q) := by
  induction n with
  | zero => exact ⟨0, Nat.le_refl 0, h⟩
  | succ n ih =>
    obtain ⟨m, hle, hmirrors⟩ := ih
    have hreached := sound_iterate_plainStep hlinks hsound m
    rw [Function.iterate_succ_apply']
    generalize (Progress.next (step arena none))^[n] p = p' at hmirrors
    generalize hq : (Progress.next (plainStep arena))^[m] q = q' at hmirrors hreached
    cases hmirrors with
    | @running t stats hstats pc ls =>
      obtain ⟨k, hstep⟩ := exists_mirrors_step hlinks hstats hreached.laid
      refine ⟨k + 1 + m, by omega, ?_⟩
      rw [Function.iterate_add_apply, hq, Function.iterate_succ_apply]
      exact hstep
    | halted r hstore hsink hstats =>
      refine ⟨m + 1, by omega, ?_⟩
      rw [Function.iterate_succ_apply', hq]
      exact .halted r hstore hsink hstats

end Runs

/-- An end of the machine and an end of the plain machine with the same outcome,
store and sink, where no counter of the machine is above the other one. -/
structure SameEnd (e e' : Except Error Value × State) : Prop where
  outcome : e.1 = e'.1
  store : e.2.store = e'.2.store
  sink : e.2.sink = e'.2.sink
  stats : e.2.stats ≤ e'.2.stats

section Ends

variable (hlinks : arena.WellLinked) {store : Store} (hstore : store.Inside arena.size)
  {root : Nat} (hroot : root < arena.size) (sink : Sink) {n : Nat}
  {e : Except Error Value × State}

include hlinks hstore hroot

theorem exists_mirrors_initial (n : Nat) :
    ∃ m, n ≤ m ∧
      Mirrors ((Progress.next (step arena none))^[n] (.running (.initial store sink root)))
        ((Progress.next (plainStep arena))^[m] (.running (.initial store sink root))) :=
  exists_mirrors_iterate hlinks
    (.running (t := .initial store sink root) ⟨Nat.le_refl _, Nat.le_refl _⟩ (some root)
      [.top []])
    (sound_initial hroot hstore) n

theorem exists_plainRun_of_run
    (h : run arena none n (.initial store sink root) = some e) :
    ∃ m e', plainRun arena m (.initial store sink root) = some e' ∧ SameEnd e e' := by
  obtain ⟨r, s⟩ := e
  rw [← runBy_apply, runBy_eq_some_iff] at h
  obtain ⟨m, -, hm⟩ := exists_mirrors_initial hlinks hstore hroot sink n
  rw [show step arena none = stepBy arena none (apply none) from rfl, h] at hm
  generalize hq : (Progress.next (plainStep arena))^[m] _ = q at hm
  cases hm with
  | @halted _ t _ hstore hsink hle =>
    exact ⟨m, (r, t), runBy_eq_some_iff.2 hq, rfl, hstore, hsink, hle⟩

theorem exists_run_of_plainRun
    (h : plainRun arena n (.initial store sink root) = some e) :
    ∃ m e', run arena none m (.initial store sink root) = some e' ∧ SameEnd e' e := by
  obtain ⟨r, t⟩ := e
  obtain ⟨m, hle, hm⟩ := exists_mirrors_initial hlinks hstore hroot sink n
  -- The plain machine has ended after `n` steps, and so it has after `m`.
  have hplain : (Progress.next (plainStep arena))^[m] (.running (.initial store sink root)) =
      .halted r t := by
    obtain ⟨d, rfl⟩ := Nat.exists_eq_add_of_le' hle
    rw [Function.iterate_add_apply, plainStep, runBy_eq_some_iff.1 h,
      Progress.iterate_next_halted]
  rw [hplain] at hm
  generalize hp : (Progress.next (step arena none))^[n] _ = p at hm
  cases hm with
  | @halted s _ _ hstore hsink hle =>
    refine ⟨n, (r, s), ?_, rfl, hstore, hsink, hle⟩
    rw [← runBy_apply]
    exact runBy_eq_some_iff.2 hp

end Ends

/-- Tail calls cannot be observed.  The machine ends with an outcome, a store and a
sink if and only if the plain machine does, and it takes no more steps and never has
more continuations at one time.  The arena and the store of a session always are of
this kind (`Session.Reachable.sound`). -/
theorem run_iff_plainRun (hgrown : arena.Grown) {store : Store}
    (hstore : store.Inside arena.size) {root : Nat} (hroot : root < arena.size) (sink : Sink) :
    (∀ (r : Except Error Value) (store' : Store) (sink' : Sink),
      (∃ n t, run arena none n (.initial store sink root) = some (r, t) ∧
          t.store = store' ∧ t.sink = sink') ↔
        ∃ n t, plainRun arena n (.initial store sink root) = some (r, t) ∧
          t.store = store' ∧ t.sink = sink') ∧
      ∀ (n m : Nat) (r r' : Except Error Value) (s t : State),
        run arena none n (.initial store sink root) = some (r, s) →
          plainRun arena m (.initial store sink root) = some (r', t) →
            s.stats.steps ≤ t.stats.steps ∧
              s.stats.peakContinuations ≤ t.stats.peakContinuations := by
  have hlinks := hgrown.wellLinked
  refine ⟨fun r store' sink' => ⟨?_, ?_⟩, fun n m r r' s t hrun hplain => ?_⟩
  · rintro ⟨n, s, hrun, rfl, rfl⟩
    obtain ⟨m, ⟨r', t⟩, hplain, rfl, hstores, hsinks, -⟩ :=
      exists_plainRun_of_run hlinks hstore hroot sink hrun
    exact ⟨m, t, hplain, hstores.symm, hsinks.symm⟩
  · rintro ⟨n, t, hplain, rfl, rfl⟩
    obtain ⟨m, ⟨r', s⟩, hrun, rfl, hstores, hsinks, -⟩ :=
      exists_run_of_plainRun hlinks hstore hroot sink hplain
    exact ⟨m, s, hrun, hstores, hsinks⟩
  · obtain ⟨m', e', hplain', -, -, -, hle⟩ :=
      exists_plainRun_of_run hlinks hstore hroot sink hrun
    rw [runBy_inj hplain' hplain] at hle
    exact hle

/-- In `((lambda (f) (and #t (f f))) (lambda (g) 1))` the call of `f` is a tail call,
for which the plain machine takes two more steps and a second continuation. -/
theorem run_iff_plainRun_and :
    ∃ arena : Arena, arena.Grown ∧
      ∃ r s t, run arena none 19 (.initial .initial .accepting 15) = some (r, s) ∧
        plainRun arena 21 (.initial .initial .accepting 15) = some (r, t) ∧
        s.store = t.store ∧ s.stats = ⟨19, 1⟩ ∧ t.stats = ⟨21, 2⟩ := by
  let reader : Reader := ⟨[.opening, .opening, .word "lambda", .opening, .word "f", .closing,
    .opening, .word "and", .word "#t", .opening, .word "f", .word "f", .closing, .closing,
    .closing, .opening, .word "lambda", .opening, .word "g", .closing, .word "1", .closing,
    .closing]⟩
  have hgrown : (reader.read {}).arena.Grown := .read reader .empty
  have hroot : 15 < (reader.read {}).arena.size := by decide
  have hends := run_iff_plainRun hgrown (Store.inside_initial _) hroot .accepting
  have hstats : (run (reader.read {}).arena none 19 (.initial .initial .accepting 15)).map
      (·.2.stats) = some ⟨19, 1⟩ := by decide +kernel
  have hplainStats : (plainRun (reader.read {}).arena 21 (.initial .initial .accepting 15)).map
      (·.2.stats) = some ⟨21, 2⟩ := by decide +kernel
  obtain ⟨⟨r, s⟩, hrun, hstats⟩ := Option.map_eq_some_iff.1 hstats
  obtain ⟨e, hplain, hplainStats⟩ := Option.map_eq_some_iff.1 hplainStats
  obtain ⟨m, t, hplain', hstores, -⟩ := (hends.1 r s.store s.sink).1 ⟨19, s, hrun, rfl, rfl⟩
  obtain rfl := runBy_inj hplain' hplain
  exact ⟨_, hgrown, r, s, t, hrun, hplain, hstores.symm, hstats, hplainStats⟩

end StackScheme.Machine
