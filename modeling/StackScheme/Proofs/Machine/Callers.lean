import StackScheme.Proofs.Machine.Applications
import StackScheme.Proofs.Machine.Effects

/-!
# Callers

A call that is not in tail position puts a continuation on the stacks of its caller.
As long as this continuation is there, whatever runs leaves the stacks of the caller
alone.  When the continuation goes, the caller is back, with the value of the call.

* Runs.  `RunsAbove` are the stages of a run up to which the number of continuations
  has stayed above a height.
* Levels.  `Around` says that the body of a call stands inside of the levels of its
  caller.
* Steps.  `runs_or_returns_step` says that a step keeps the body where it is, or returns
  to the caller.
* `caller_restored` is about whole runs.
-/

namespace StackScheme.Machine

/-! ## Runs -/

/-- The run goes on from `s`, with more than `height` continuations all the way. -/
inductive RunsAbove (arena : Arena) (limit : Option Nat) (height : Nat) (s : State) :
    State → Prop
  | refl : RunsAbove arena limit height s s
  | step {t t' : State} (h : RunsAbove arena limit height s t)
    (hstep : step arena limit t = .running t') (hheight : height < t'.continuations.size) :
    RunsAbove arena limit height s t'

theorem RunsAbove.leads {arena : Arena} {limit : Option Nat} {height : Nat} {s t : State}
    (h : RunsAbove arena limit height s t) : Leads arena limit (.running s) (.running t) := by
  induction h with
  | refl => exact .refl _
  | step _ hstep _ ih => exact ih.trans (.of_step_eq hstep)

namespace Application

/-- The continuation leads back to the caller. -/
structure Resumes (a : Application) (k : Continuation) : Prop where
  node : k.returnNode = a.node
  scope : k.callerScope = a.state.scope

/-- The stacks of the caller are in place, with a continuation right above them that
leads back to it. -/
structure Beneath (a : Application) (t : State) : Prop where
  frames : a.state.frames.items <:+ t.frames.items
  operands : a.state.operands.items <:+ t.operands.items
  continuations : ∃ k, a.Resumes k ∧ k :: a.state.continuations.items <:+ t.continuations.items

/-- The next step returns a value to the caller.  The stacks have nothing above those of
the caller but the body, the value and the continuation.  With these gone and the scope
of the caller back, the value is delivered as the value of the combination. -/
def Returns (a : Application) (arena : Arena) (limit : Option Nat) (t : State) : Prop :=
  ∃ base v k, t.frames = a.state.frames.push (.body base) ∧
    t.operands = a.state.operands.push v ∧ t.continuations = a.state.continuations.push k ∧
    step arena limit t = deliver arena a.node v { tick t with
      frames := a.state.frames
      operands := a.state.operands
      continuations := a.state.continuations
      scope := a.state.scope }

end Application

/-! ## Levels -/

section Levels

variable {a : Application} {outer ls : List Level}

/-- The body of the call stands somewhere inside of the levels `outer`. -/
inductive Around (a : Application) (outer : List Level) : List Level → Prop
  | body {k : Continuation} (hk : a.Resumes k) (vs : List Value) :
    Around a outer (.body k vs :: outer)
  | inside {ls : List Level} (l : Level) (h : Around a outer ls) : Around a outer (l :: ls)

theorem Around.of_call {node : NodeId} {position : Nat} {task : Task} {vs : List Value}
    (h : Around a outer (.call node position task vs :: ls)) : Around a outer ls := by
  cases h with
  | inside _ h => exact h

/-- The values of a body and the expressions that are left play no part. -/
theorem Around.of_body {k : Continuation} {vs : List Value}
    (h : Around a outer (.body k vs :: ls)) (remaining : List NodeId) (vs' : List Value) :
    Around a outer (.body { k with remaining } vs' :: ls) := by
  cases h with
  | body hk =>
    have hk' : a.Resumes { k with remaining } := ⟨hk.node, hk.scope⟩
    exact .body hk' vs'
  | inside _ h => exact .inside _ h

/-- A tail call takes the place of a body, and leaves the levels around it. -/
theorem Around.of_runningBody? {k : Continuation} {around : List Level}
    (h : Around a outer ls) (hbody : runningBody? ls = some (k, around))
    (remaining : List NodeId) : Around a outer (.body { k with remaining } [] :: around) := by
  induction ls with
  | nil => cases hbody
  | cons l ls ih =>
    cases l with
    | top vs => cases hbody
    | call node position task vs =>
      simp only [runningBody?, Option.ite_none_right_eq_some] at hbody
      exact ih h.of_call hbody.2
    | body k' vs =>
      simp only [runningBody?, Option.ite_none_right_eq_some, Option.some.injEq,
        Prod.mk.injEq] at hbody
      obtain ⟨-, rfl, rfl⟩ := hbody
      exact h.of_body remaining []

/-- The levels of the caller are the lower ends of the stacks. -/
theorem Around.suffixes (h : Around a outer ls) :
    framesOf outer <:+ framesOf ls ∧ operandsOf outer <:+ operandsOf ls ∧
      ∃ k, a.Resumes k ∧ k :: continuationsOf outer <:+ continuationsOf ls := by
  induction h with
  | @body k hk vs =>
    exact ⟨List.suffix_cons _ _, List.suffix_append _ _, k, hk, List.suffix_refl _⟩
  | @inside ls l _ ih =>
    obtain ⟨hframes, hoperands, k, hk, hcontinuations⟩ := ih
    refine ⟨hframes.trans (List.suffix_cons _ _), hoperands.trans (List.suffix_append _ _), k, hk,
      hcontinuations.trans ?_⟩
    cases l with
    | body k' vs => exact List.suffix_cons _ _
    | _ => exact List.suffix_refl _

theorem Around.length_lt (h : Around a outer ls) :
    (continuationsOf outer).length < (continuationsOf ls).length := by
  obtain ⟨-, -, k, -, hsuffix⟩ := h.suffixes
  exact hsuffix.length_le

end Levels

/-! ## Steps -/

/-- The body of the call stands inside of the levels of its caller at this stage. -/
def Runs (a : Application) (outer : List Level) (p : Progress) : Prop :=
  ∃ s pc ls, p.state = State.withLevels s pc ls ∧ Around a outer ls

section Steps

variable {arena : Arena} {limit : Option Nat} {a : Application} {outer ls : List Level}

theorem runs_running (s : State) (pc : Option NodeId) (h : Around a outer ls) :
    Runs a outer (.running (s.withLevels pc ls)) :=
  ⟨s, pc, ls, rfl, h⟩

theorem runs_fail (s : State) (pc : Option NodeId) (h : Around a outer ls) (e : Error) :
    Runs a outer ((s.withLevels pc ls).fail e) :=
  ⟨s, pc, ls, rfl, h⟩

theorem runs_deliver (h : Around a outer ls) (s : State) (pc : Option NodeId) (node : NodeId)
    (v : Value) : Runs a outer (deliver arena node v (s.withLevels pc ls)) := by
  cases ls with
  | nil => cases h
  | cons l ls =>
    cases l with
    | top vs =>
      cases h with
      | inside _ h => exact runs_running s none (.inside (.top (v :: vs)) h)
    | body k vs => exact runs_running s none (h.of_body k.remaining (v :: vs))
    | call parent position task vs =>
      rcases deliver_call_cases arena node v parent position task vs with
        ⟨e, hfails⟩ | ⟨pc', position', task', hmoves⟩
      · rw [hfails]
        exact runs_fail s pc h e
      · rw [hmoves]
        exact runs_running s pc' (.inside _ h.of_call)

theorem runs_act (h : Around a outer ls) (node : NodeId) (effect : LevelEffect) (s : State)
    (pc : Option NodeId) : Runs a outer (effect.act arena limit node s pc ls) := by
  cases effect with
  | fail e => exact runs_fail s pc h e
  | value v => exact runs_deliver h s pc node v
  | opens operator =>
    simp only [LevelEffect.act]
    split
    · exact runs_fail s pc h _
    · exact runs_running s (some operator) (.inside _ h)
  | again form t => exact runs_running s _ (.inside _ h)

theorem runs_enter (h : Around a outer ls) (node : NodeId) (s : State) (pc : Option NodeId) :
    Runs a outer (enter arena limit node (s.withLevels pc ls)) := by
  obtain ⟨effect, heffect⟩ := exists_enter_eq_act arena node s
  rw [heffect s.stats]
  exact runs_act h node effect s pc

/-- A procedure that is applied keeps to the levels in which it is applied, or takes the
place of a body. -/
theorem runs_of_application? {s : State} {pc : Option NodeId} (h : Around a outer ls)
    (hlaid : Laid arena pc ls) {b : Application}
    (happ : application? arena (s.withLevels pc ls) = some b) :
    Runs a outer (step arena limit (s.withLevels pc ls)) := by
  cases hstep : step arena limit (s.withLevels pc ls) with
  | running s' =>
    obtain ⟨position, vs, around, rfl, -, -, hcases⟩ := hlaid.enters_cases happ hstep
    rcases hcases with ⟨k, around', r, hbody, rfl, -⟩ | ⟨r, -, rfl, -⟩
    · exact runs_running r _ (h.of_call.of_runningBody? hbody _)
    · exact runs_running r _ (.inside _ h.of_call)
  | halted r t =>
    obtain ⟨position, vs, around, rfl, -, -, hstate, -⟩ := hlaid.application?_cases happ
    rw [step_eq_of_application? happ] at hstep
    exact ⟨tick s, none, around, (state_of_apply_eq_halted hstep).trans hstate, h.of_call⟩

variable (hlinks : arena.WellLinked)

include hlinks

theorem runs_step_call {s : State} {node : NodeId} {position : Nat} {task : Task}
    {vs : List Value} (h : Around a outer (.call node position task vs :: ls))
    (hlaid : Laid arena (arena.children node)[position]? (.call node position task vs :: ls))
    (happ : application? arena (s.withLevels (arena.children node)[position]?
      (.call node position task vs :: ls)) = none) :
    Runs a outer (step arena limit (s.withLevels (arena.children node)[position]?
      (.call node position task vs :: ls))) := by
  rcases hlaid.step_call_cases hlinks happ with
    ⟨child, position', hstep⟩ | ⟨hvalues, position', hstep⟩
  · rw [hstep]
    exact runs_enter (.inside _ h.of_call) child (tick s) (some child)
  · obtain ⟨effect, store, sink, heffect⟩ :=
      exists_dispatch_eq_act arena node (tick s) position' task hvalues
    rw [hstep, heffect (tick s).stats]
    exact runs_act h.of_call node effect { tick s with store, sink } none

omit hlinks in
/-- At the end of an expression, a body goes on with the next one, or its caller does. -/
theorem runs_or_returns_step_body_end {r s : State} {k : Continuation} {v : Value}
    (hstate : a.state = r.withLevels none outer)
    (h : Around a outer (.body k [v] :: ls)) :
    Runs a outer (step arena limit (s.withLevels none (.body k [v] :: ls))) ∨
      a.Returns arena limit (s.withLevels none (.body k [v] :: ls)) := by
  have hstep := @step_body_end arena limit s ls k v
  cases hr : k.remaining with
  | cons next remaining =>
    rw [hr] at hstep
    rw [hstep]
    exact .inl (runs_running (tick s) (some next) (h.of_body remaining []))
  | nil =>
    rw [hr] at hstep
    cases h with
    | inside _ h =>
      rw [hstep]
      exact .inl (runs_deliver h { tick s with scope := k.callerScope } none k.returnNode v)
    | body hk =>
      obtain ⟨hnode, hscope⟩ := hk
      refine .inr ⟨(operandsOf outer).length, v, k, ?_, ?_, ?_, ?_⟩
      · rw [hstate]
        rfl
      · rw [hstate]
        rfl
      · rw [hstate]
        rfl
      · rw [hstep, hnode, hscope, hstate]
        rfl

/-- A step keeps the body of the call where it is, or returns to the caller. -/
theorem runs_or_returns_step {r s : State} {pc : Option NodeId}
    (hstate : a.state = r.withLevels none outer) (h : Around a outer ls)
    (hlaid : Laid arena pc ls) :
    Runs a outer (step arena limit (s.withLevels pc ls)) ∨
      a.Returns arena limit (s.withLevels pc ls) := by
  cases happ : application? arena (s.withLevels pc ls) with
  | some b => exact .inl (runs_of_application? h hlaid happ)
  | none =>
    match ls, hlaid with
    | [.top vs], _ =>
      cases h with
      | inside _ h => cases h
    | .call node position task vs :: ls, hlaid =>
      obtain rfl := hlaid.1.1
      exact .inl (runs_step_call hlinks h hlaid happ)
    | .body k vs :: ls, ⟨hready, _⟩ =>
      rcases hready with ⟨hsome, rfl⟩ | ⟨rfl, v, rfl⟩
      · obtain ⟨expression, rfl⟩ := Option.isSome_iff_exists.1 hsome
        exact .inl (runs_enter h expression (tick s) (some expression))
      · exact runs_or_returns_step_body_end hstate h

end Steps

/-! ## Whole runs -/

theorem continuations_deliver (arena : Arena) (node : NodeId) (v : Value) (s : State) :
    (deliver arena node v s).state.continuations = s.continuations := by
  unfold deliver
  repeat' split
  all_goals rfl

section Runs

variable {arena : Arena} {limit : Option Nat} {a : Application} {outer : List Level} {r : State}

theorem Application.Returns.size_eq {t : State} (h : a.Returns arena limit t) :
    (step arena limit t).state.continuations.size = a.state.continuations.size := by
  obtain ⟨base, v, k, -, -, -, hstep⟩ := h
  rw [hstep, continuations_deliver]

theorem Runs.size_lt {p : Progress} (hstate : a.state = r.withLevels none outer)
    (h : Runs a outer p) : a.state.continuations.size < p.state.continuations.size := by
  obtain ⟨s, pc, ls, hs, haround⟩ := h
  rw [hstate, hs]
  exact haround.length_lt

theorem Runs.beneath {t : State} (hstate : a.state = r.withLevels none outer)
    (h : Runs a outer (.running t)) : a.Beneath t := by
  obtain ⟨s, pc, ls, hs, haround⟩ := h
  obtain ⟨hframes, hoperands, hcontinuations⟩ := haround.suffixes
  replace hs : t = s.withLevels pc ls := hs
  subst hs
  refine ⟨?_, ?_, ?_⟩
  · rw [hstate]
    exact hframes
  · rw [hstate]
    exact hoperands
  · rw [hstate]
    exact hcontinuations

theorem Runs.step_cases (hlinks : arena.WellLinked) (limit : Option Nat) {t : State}
    (hstate : a.state = r.withLevels none outer) (hsound : Sound arena (.running t))
    (h : Runs a outer (.running t)) :
    Runs a outer (step arena limit t) ∨ a.Returns arena limit t := by
  obtain ⟨s, pc, ls, hs, haround⟩ := h
  replace hs : t = s.withLevels pc ls := hs
  subst hs
  exact runs_or_returns_step hlinks hstate haround hsound.laid

/-- As long as the continuation of the call is there, the body of the call stays inside
of the levels of its caller. -/
theorem RunsAbove.runs (hlinks : arena.WellLinked) {s t : State}
    (hsound : Sound arena (.running s)) (hstate : a.state = r.withLevels none outer)
    (hs : Runs a outer (.running s))
    (h : RunsAbove arena limit a.state.continuations.size s t) : Runs a outer (.running t) := by
  induction h with
  | refl => exact hs
  | @step t t' hruns hstep hheight ih =>
    have hsound' := hsound.of_leads hlinks hruns.leads
    rcases ih.step_cases hlinks limit hstate hsound' with hruns' | hreturns
    · exact hstep ▸ hruns'
    · have hsize := hreturns.size_eq
      rw [hstep] at hsize
      exact absurd hsize (Nat.ne_of_gt hheight)

end Runs

/-- Each call that is not in tail position gives its caller back as it was.  Until the
continuation that it pushes is popped, the stacks of the caller stay in place below
everything else.  The step that pops it has nothing else to remove, and delivers the
value to the combination of the call in the scope of the caller. -/
theorem caller_restored {arena : Arena} (hgrown : arena.Grown) {store : Store}
    (hstore : store.Inside arena.size) {root : Nat} (hroot : root < arena.size) {sink : Sink}
    {limit : Option Nat} {s s' : State} {a : Application}
    (hs : Leads arena limit (.running (.initial store sink root)) (.running s))
    (happ : application? arena s = some a) (htail : a.state.inTailPosition = false)
    (hstep : step arena limit s = .running s') :
    s'.continuations = a.state.continuations.push
        { callerScope := a.state.scope, returnNode := a.node, remaining := a.closure.rest } ∧
      ∀ t, RunsAbove arena limit a.state.continuations.size s' t →
        a.Beneath t ∧
          ((step arena limit t).state.continuations.size ≤ a.state.continuations.size →
            a.Returns arena limit t) := by
  have hlinks := hgrown.wellLinked
  have hsound' : Sound arena (.running s') :=
    (sound_initial hroot hstore).of_leads hlinks (hs.trans (.of_step_eq hstep))
  obtain ⟨pc, ls, hlevels, hlaid, -⟩ := (sound_initial hroot hstore).of_leads hlinks hs
  rw [hlevels] at happ hstep
  obtain ⟨position, vs, outer, -, hstate, -, hcases⟩ := hlaid.enters_cases happ hstep
  -- No body passes the value on, so that the call has got a body of its own.
  have hbody : runningBody? outer = none := by
    rw [hstate, inTailPosition_withLevels] at htail
    simpa using htail
  rcases hcases with ⟨k, around, r, hsome, -⟩ | ⟨r, -, rfl, -⟩
  · rw [hbody] at hsome
    cases hsome
  have hk : a.Resumes
      { callerScope := s.scope, returnNode := a.node, remaining := a.closure.rest } := by
    refine ⟨rfl, ?_⟩
    rw [hstate]
    rfl
  refine ⟨?_, fun t ht => ?_⟩
  · rw [hstate]
    rfl
  · have hruns := ht.runs hlinks hsound' hstate (runs_running r _ (.body hk []))
    refine ⟨hruns.beneath hstate, fun hpops => ?_⟩
    have hsound'' := hsound'.of_leads hlinks ht.leads
    rcases hruns.step_cases hlinks limit hstate hsound'' with hruns' | hreturns
    · have := hruns'.size_lt hstate
      omega
    · exact hreturns

/-- In `(+ 1 ((lambda (f) (f)) (lambda () 2)))`, the call of the first procedure ends with
a tail call of the second one, whose value is returned to the sum. -/
theorem caller_restored_tail_call :
    ∃ (arena : Arena) (s s' t : State) (a : Application),
      Leads arena none (.running (.initial .initial .accepting 13)) (.running s) ∧
        application? arena s = some a ∧ a.state.inTailPosition = false ∧
        step arena none s = .running s' ∧
        RunsAbove arena none a.state.continuations.size s' t ∧ t.stats.steps = 15 ∧
        a.state.operands.size = 2 ∧ a.Returns arena none t := by
  let reader : Reader := ⟨[.opening, .word "+", .word "1", .opening, .opening, .word "lambda",
    .opening, .word "f", .closing, .opening, .word "f", .closing, .closing, .opening,
    .word "lambda", .opening, .closing, .word "2", .closing, .closing, .closing]⟩
  have hgrown : (reader.read {}).arena.Grown := .read reader .empty
  have hroot : 13 < (reader.read {}).arena.size := by decide
  -- The procedure is entered in the eleventh step, and four steps later its value is there.
  have hrun : ∃ s a s' t, (Progress.next (step (reader.read {}).arena none))^[10]
        (.running (.initial .initial .accepting 13)) = .running s ∧
      application? (reader.read {}).arena s = some a ∧ a.state.inTailPosition = false ∧
      a.state.operands.size = 2 ∧
      step (reader.read {}).arena none s = .running s' ∧
      RunsAbove (reader.read {}).arena none a.state.continuations.size s' t ∧
      t.stats.steps = 15 ∧
      (step (reader.read {}).arena none t).state.continuations.size ≤
        a.state.continuations.size :=
    ⟨_, _, _, _, rfl, rfl, rfl, rfl, rfl,
      .step (.step (.step (.step .refl rfl Nat.one_pos) rfl Nat.one_pos) rfl Nat.one_pos) rfl
        Nat.one_pos, rfl, Nat.le_refl 0⟩
  obtain ⟨s, a, s', t, hiterate, happ, htail, hoperands, hstep, ht, hsteps, hpops⟩ := hrun
  have hleads := leads_iterate_next (reader.read {}).arena none 10
    (.running (.initial .initial .accepting 13))
  rw [hiterate] at hleads
  have hrestored :=
    caller_restored hgrown (Store.inside_initial _) hroot hleads happ htail hstep
  exact ⟨_, s, s', t, a, hleads, happ, htail, hstep, ht, hsteps, hoperands,
    (hrestored.2 t ht).2 hpops⟩

end StackScheme.Machine
