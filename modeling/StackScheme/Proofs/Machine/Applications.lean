import Mathlib.Logic.Function.Iterate
import StackScheme.Proofs.Machine.Safety

/-!
# Applications of procedures

The machine applies procedures in one place, at the end of a combination whose
operator is a closure.  Here the way to apply them is a parameter of the machine,
so that machines which differ in that place alone can be compared.

* Machines.  `stepBy` and `runBy` are the machine with a given way to apply
  procedures, and `stepBy_apply` and `runBy_apply` say that `apply` gives the
  machine itself.
* Applications.  `application?` is the application that the next step makes.
  `stepBy_eq` says that machines differ at applications alone.
* Layout.  `Laid.application?_cases` is what the levels look like at an application,
  and `Laid.enters_cases` is what becomes of them.
* Iterations.  `runBy_eq_some_iff` gives a run as so many iterations of a step.
-/

namespace StackScheme.Machine

/-! ## Machines -/

/-- A way to apply a procedure for the combination at a node. -/
abbrev Applying := NodeId → Closure → List Value → State → Progress

section Machines

variable (arena : Arena) (limit : Option Nat) (applyBy : Applying)

/-- Applies the operator of the combination `f` to its operands. -/
def dispatchBy (f : CallFrame) (values : List Value) (s : State) : Progress :=
  match values with
  | [] => s.crash .noOperator
  | .builtin b :: args => callBuiltin arena f.node b args s
  | .special form :: args => callForm arena f form args s
  | .closure c :: args => applyBy f.node c args s
  | operator :: _ => s.fail (.notApplicable operator (arena.render f.node))

/-- Ends the innermost frame. -/
def reduceBy (s : State) : Progress :=
  match s.frames.pop? with
  | none => s.crash .noFrame
  | some (.topLevel, frames) =>
    match s.operands.pop? with
    | none => s.crash .noValue
    | some (value, operands) => .halted (.ok value) { s with frames, operands }
  | some (.body base, frames) =>
    match s.operands.pop? with
    | none => s.crash .noValue
    | some (value, operands) =>
      if operands.size = base then leaveBody arena value { s with frames, operands }
      else s.crash .unevenBody
  | some (.call f, frames) =>
    match s.operands.splitOff? f.base with
    | none => s.crash .lowOperands
    | some (values, operands) => dispatchBy arena applyBy f values { s with frames, operands }

/-- One step of the machine. -/
def stepBy (s : State) : Progress :=
  let s := tick s
  match skipUnwanted arena s with
  | .error fault => s.crash fault
  | .ok s =>
    match s.pc with
    | some node => enter arena limit node s
    | none => reduceBy arena applyBy s

/-- Runs the machine for at most `fuel` steps. -/
def runBy : (fuel : Nat) → State → Option (Except Error Value × State)
  | 0, _ => none
  | fuel + 1, s =>
    match stepBy arena limit applyBy s with
    | .running s => runBy fuel s
    | .halted outcome s => some (outcome, s)

theorem stepBy_apply (s : State) : stepBy arena limit (apply limit) s = step arena limit s := rfl

theorem runBy_apply (n : Nat) (s : State) :
    runBy arena limit (apply limit) n s = run arena limit n s := by
  induction n generalizing s with
  | zero => rfl
  | succ n ih =>
    rw [runBy, run, stepBy_apply]
    cases step arena limit s with
    | running s' => exact ih s'
    | halted outcome s' => rfl

end Machines

/-! ## Applications -/

/-- A procedure that is applied to arguments. -/
structure Application where
  /-- The combination that the application is the end of. -/
  node : NodeId
  closure : Closure
  args : List Value
  /-- The registers when the frame of the combination is gone. -/
  state : State

/-- The application that the next step makes, if it makes one. -/
def application? (arena : Arena) (s : State) : Option Application :=
  match skipUnwanted arena (tick s) with
  | .error _ => none
  | .ok s =>
    match s.pc, s.frames.pop? with
    | none, some (.call f, frames) =>
      match s.operands.splitOff? f.base with
      | some (.closure closure :: args, operands) =>
        some { node := f.node, closure, args, state := { s with frames, operands } }
      | _ => none
    | _, _ => none

/-- A machine with another way to apply procedures takes the same steps, except
for applications. -/
theorem stepBy_eq (arena : Arena) (limit : Option Nat) (applyBy : Applying) (s : State) :
    stepBy arena limit applyBy s =
      match application? arena s with
      | some a => applyBy a.node a.closure a.args a.state
      | none => step arena limit s := by
  rw [← stepBy_apply]
  unfold stepBy application?
  dsimp only
  split
  · rfl
  · rename_i s' _
    obtain ⟨pc, operands, frames, scope, continuations, store, sink, stats⟩ := s'
    cases pc with
    | some node => rfl
    | none =>
      unfold reduceBy
      dsimp only
      rcases frames.pop? with _ | ⟨frame, frames⟩
      · rfl
      cases frame with
      | topLevel => rfl
      | body base => rfl
      | call f =>
        dsimp only
        rcases operands.splitOff? f.base with _ | ⟨values, operands⟩
        · rfl
        rcases values with _ | ⟨operator, args⟩
        · rfl
        cases operator <;> rfl

theorem step_eq_of_application? {arena : Arena} {s : State} {a : Application}
    (h : application? arena s = some a) (limit : Option Nat) :
    step arena limit s = apply limit a.node a.closure a.args a.state := by
  have hstep := stepBy_eq arena limit (apply limit) s
  rwa [stepBy_apply, h] at hstep

/-- A procedure that cannot be entered leaves the registers as they are. -/
theorem state_of_apply_eq_halted {limit : Option Nat} {node : NodeId} {c : Closure}
    {args : List Value} {s t : State} {r : Except Error Value}
    (h : apply limit node c args s = .halted r t) : t = s := by
  unfold apply at h
  split at h
  · cases h
    rfl
  · split at h
    · unfold tailCall at h
      split at h
      · cases h
        rfl
      · cases h
    · split at h
      · cases h
        rfl
      · cases h

/-! ## Layout -/

section Layout

variable (arena : Arena) (s : State) (ls : List Level)

theorem application?_top (pc : Option NodeId) (vs : List Value) :
    application? arena (s.withLevels pc (.top vs :: ls)) = none := by
  cases pc <;> rfl

theorem application?_body (pc : Option NodeId) (k : Continuation) (vs : List Value) :
    application? arena (s.withLevels pc (.body k vs :: ls)) = none := by
  cases pc <;> rfl

theorem application?_child (child node : NodeId) (position : Nat) (vs : List Value) :
    application? arena (s.withLevels (some child) (.call node position .call vs :: ls)) = none :=
  rfl

/-- An ordinary combination that is at its end applies its operator. -/
theorem application?_call_end (node : NodeId) (position : Nat) (vs : List Value) :
    application? arena (s.withLevels none (.call node position .call vs :: ls)) =
      match vs.reverse with
      | .closure closure :: args =>
        some { node, closure, args, state := (tick s).withLevels none ls }
      | _ => none := by
  unfold application?
  simp only [skipUnwanted, tick, State.withLevels, framesOf_cons, Level.frame,
    Stack.pop?_ofList_cons, splitOff?_operandsOf, Level.values]
  rcases vs.reverse with _ | ⟨operator, args⟩
  · rfl
  cases operator <;> rfl

/-- A special form applies no procedure. -/
theorem application?_form (pc : Option NodeId) {node : NodeId} {position : Nat} {t : FormTask}
    {vs : List Value} (howns : Task.Owns (.form t) position vs) :
    application? arena (s.withLevels pc (.call node position (.form t) vs :: ls)) = none := by
  obtain ⟨args, hrev⟩ := howns.exists_reverse_eq
  unfold application?
  simp only [skipUnwanted, tick, State.withLevels, framesOf_cons, Level.frame,
    Stack.pop?_ofList_cons]
  rcases skip arena (.form t) (t.operandCount + 1) pc position with fault | ⟨pc', position'⟩
  · rfl
  cases pc' with
  | some child => rfl
  | none => simp only [Stack.pop?_push, splitOff?_operandsOf, Level.values, hrev]

end Layout

/-- A procedure is applied at the end of an ordinary combination, and the levels
around it wait for the value. -/
theorem Laid.application?_cases {arena : Arena} {s : State} {pc : Option NodeId}
    {ls : List Level} (hlaid : Laid arena pc ls) {a : Application}
    (h : application? arena (s.withLevels pc ls) = some a) :
    ∃ position vs outer, ls = .call a.node position .call vs :: outer ∧ pc = none ∧
      vs.reverse = .closure a.closure :: a.args ∧ a.state = (tick s).withLevels none outer ∧
      Awaits arena a.node outer := by
  match ls, hlaid with
  | [.top vs], _ =>
    rw [application?_top] at h
    cases h
  | .body k vs :: outer, _ =>
    rw [application?_body] at h
    cases h
  | .call node position (.form t) vs :: outer, ⟨_, _, _, howns, _⟩ =>
    rw [application?_form arena s outer pc howns] at h
    cases h
  | .call node position .call vs :: outer, ⟨_, _, _, _, hrest⟩ =>
    cases pc with
    | some child =>
      rw [application?_child] at h
      cases h
    | none =>
      rw [application?_call_end] at h
      rcases hrev : vs.reverse with _ | ⟨operator, args⟩
      · simp [hrev] at h
      cases operator with
      | closure c =>
        simp only [hrev, Option.some.injEq] at h
        subst h
        exact ⟨position, vs, outer, rfl, rfl, hrev, rfl, hrest⟩
      | _ => simp [hrev] at h

/-- A combination that applies no procedure evaluates a child or ends, whatever the
levels around it are. -/
theorem Laid.step_call_cases {arena : Arena} (hlinks : arena.WellLinked) {s : State}
    {node : NodeId} {position : Nat} {task : Task} {vs : List Value} {ls : List Level}
    (hlaid : Laid arena (arena.children node)[position]? (.call node position task vs :: ls))
    (happ : application? arena (s.withLevels (arena.children node)[position]?
      (.call node position task vs :: ls)) = none) :
    (∃ child position', ∀ limit s ls,
        step arena limit (s.withLevels (arena.children node)[position]?
            (.call node position task vs :: ls)) =
          enter arena limit child
            ((tick s).withLevels (some child) (.call node position' task vs :: ls))) ∨
      (∀ c args, vs.reverse ≠ .closure c :: args) ∧
        ∃ position', ∀ limit s ls,
          step arena limit (s.withLevels (arena.children node)[position]?
              (.call node position task vs :: ls)) =
            dispatch arena limit
              { node, base := (operandsOf ls).length, position := position', task } vs.reverse
              ((tick s).withLevels none ls) := by
  obtain ⟨⟨-, hend⟩, -, hfits, howns, -⟩ := hlaid
  cases task with
  | call =>
    cases hchild : (arena.children node)[position]? with
    | some child => exact .inl ⟨child, position, fun limit s ls => step_call limit s ls _ _ _ _⟩
    | none =>
      refine .inr ⟨fun c args hvalues => ?_, position,
        fun limit s ls => step_call_end limit s ls _ _ _⟩
      rw [hchild, application?_call_end] at happ
      simp [hvalues] at happ
  | form t =>
    have hcount := hfits.count
    have hstep := fun limit (s : State) ls =>
      step_form limit s ls hlinks hfits howns.one_le (by omega) vs
    cases hchild : (arena.children node)[t.seek position]? with
    | some child =>
      refine .inl ⟨child, t.seek position, fun limit s ls => ?_⟩
      rw [hstep, hchild]
    | none =>
      refine .inr ⟨fun c args hvalues => ?_, t.seek position, fun limit s ls => ?_⟩
      · obtain ⟨args', hrev⟩ := howns.exists_reverse_eq
        rw [hrev] at hvalues
        cases hvalues
      · rw [hstep, hchild]

/-- A procedure that is entered takes the place of the running body, or gets a body
of its own inside of the levels. -/
theorem Laid.enters_cases {arena : Arena} {limit : Option Nat} {s s' : State}
    {pc : Option NodeId} {ls : List Level} (hlaid : Laid arena pc ls) {a : Application}
    (h : application? arena (s.withLevels pc ls) = some a)
    (hstep : step arena limit (s.withLevels pc ls) = .running s') :
    ∃ position vs outer, ls = .call a.node position .call vs :: outer ∧
      a.state = (tick s).withLevels none outer ∧ Awaits arena a.node outer ∧
      ((∃ k around r, runningBody? outer = some (k, around) ∧
          s' = State.withLevels r (some a.closure.first)
            (.body { k with remaining := a.closure.rest } [] :: around) ∧
          r.stats.peakContinuations = s.stats.peakContinuations) ∨
        ∃ r, runningBody? outer = none ∧
          s' = State.withLevels r (some a.closure.first)
            (.body { callerScope := s.scope, returnNode := a.node, remaining := a.closure.rest }
              [] :: outer) ∧
          r.stats.peakContinuations =
            max s.stats.peakContinuations ((continuationsOf outer).length + 1)) := by
  obtain ⟨position, vs, outer, rfl, -, -, hstate, hawaits⟩ := hlaid.application?_cases h
  refine ⟨position, vs, outer, rfl, hstate, hawaits, ?_⟩
  rw [step_eq_of_application? h, hstate, apply] at hstep
  split at hstep
  · cases hstep
  rw [inTailPosition_withLevels] at hstep
  cases hbody : runningBody? outer with
  | some found =>
    rw [hbody, Option.isSome_some, if_pos rfl,
      tailCall_withLevels hbody fun vs hmem => hawaits.values_eq_nil hmem,
      Progress.running.injEq] at hstep
    exact .inl ⟨_, _, _, rfl, hstep.symm, rfl⟩
  | none =>
    rw [hbody, Option.isSome_none, if_neg Bool.false_ne_true] at hstep
    split at hstep
    · cases hstep
    · rw [nestedCall, Progress.running.injEq] at hstep
      exact .inr ⟨{ tick s with
        scope := s.store.nextScope
        store := s.store.extend a.closure.scope (a.closure.parameters.zip a.args)
        stats := { (tick s).stats with
          peakContinuations :=
            max s.stats.peakContinuations ((continuationsOf outer).length + 1) } },
        rfl, hstep.symm, rfl⟩

/-! ## Iterations -/

/-- One more step of a run that may have ended. -/
def Progress.next (f : State → Progress) : Progress → Progress
  | .running s => f s
  | .halted outcome s => .halted outcome s

@[simp] theorem Progress.iterate_next_halted (f : State → Progress) (n : Nat)
    (outcome : Except Error Value) (s : State) :
    (Progress.next f)^[n] (.halted outcome s) = .halted outcome s :=
  Function.iterate_fixed rfl n

theorem leads_iterate_next (arena : Arena) (limit : Option Nat) (n : Nat) (p : Progress) :
    Leads arena limit p ((Progress.next (step arena limit))^[n] p) := by
  induction n generalizing p with
  | zero => exact .refl p
  | succ n ih =>
    rw [Function.iterate_succ_apply]
    cases p with
    | running s => exact .step (ih _)
    | halted r t => exact ih _

/-- A run ends within its fuel if and only if so many iterations lead to the end. -/
theorem runBy_eq_some_iff {arena : Arena} {limit : Option Nat} {applyBy : Applying} {n : Nat}
    {s t : State} {r : Except Error Value} :
    runBy arena limit applyBy n s = some (r, t) ↔
      (Progress.next (stepBy arena limit applyBy))^[n] (.running s) = .halted r t := by
  induction n generalizing s with
  | zero => simp [runBy]
  | succ n ih =>
    rw [runBy, Function.iterate_succ_apply, Progress.next]
    cases stepBy arena limit applyBy s with
    | running s' => exact ih
    | halted r' t' => simp

/-- A run has one end, whatever fuel it was given. -/
theorem runBy_inj {arena : Arena} {limit : Option Nat} {applyBy : Applying} {n m : Nat}
    {s : State} {e e' : Except Error Value × State} (h : runBy arena limit applyBy n s = some e)
    (h' : runBy arena limit applyBy m s = some e') : e = e' := by
  induction n generalizing m s with
  | zero => cases h
  | succ n ih =>
    cases m with
    | zero => cases h'
    | succ m =>
      rw [runBy] at h h'
      cases hstep : stepBy arena limit applyBy s with
      | running s' =>
        rw [hstep] at h h'
        exact ih h h'
      | halted r t =>
        rw [hstep] at h h'
        exact Option.some.inj (h.symm.trans h')

end StackScheme.Machine
