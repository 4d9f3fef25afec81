import StackScheme.Proofs.Machine.Applications
import StackScheme.Proofs.Machine.Effects

/-!
# Activations of procedures

A continuation has what is needed to go on, and no more: the expressions of the body
that are left and the caller.  An activation also says which body is running, which of
its expressions is being evaluated, and how high the stacks were when it was entered.
The machine does not have activations.  They are noted along a run.

* Noting.  `follow` says what becomes of the activations in a step, and `History` are
  the activations at each state of a run.
* Tracking.  `Tracks` says that activations belong to levels.
* Steps.  `quiet_step` is about steps that apply no procedure, which change neither the
  peak nor, upwards, the number of continuations.  `tracked_of_application?` is about
  the others.
* `History.tracked` is the invariant for whole runs.
-/

namespace StackScheme.Machine

/-! ## Noting -/

/-- A procedure that is running. -/
structure Activation where
  /-- The expressions of the body. -/
  body : List NodeId
  /-- The position of the expression that is evaluated. -/
  index : Nat := 0
  /-- The heights of the stacks right after the activation was first entered. -/
  frames : Nat
  operands : Nat
  continuations : Nat

namespace Activation

/-- The activation of a procedure that was entered in a continuation of its own. -/
def entered (c : Closure) (s : State) : Activation where
  body := c.first :: c.rest
  frames := s.frames.size
  operands := s.operands.size
  continuations := s.continuations.size

/-- The activation in which another procedure was entered. -/
def reused (c : Closure) (a : Activation) : Activation :=
  { a with body := c.first :: c.rest, index := 0 }

/-- The activation at its next expression. -/
def advanced (a : Activation) : Activation :=
  { a with index := a.index + 1 }

end Activation

/-- Whether an expression of a body has just been evaluated. -/
def State.atBodyEnd (s : State) : Bool :=
  s.pc.isNone && s.frames.top?.any Frame.isBody

/-- The activations, the innermost first, after a step that applies no procedure and
leaves so many continuations.  An activation ends together with its continuation. -/
def followQuiet (s : State) (continuations : Nat) (as : List Activation) : List Activation :=
  if continuations < s.continuations.size then as.tail
  else if s.atBodyEnd then as.modifyHead .advanced
  else as

/-- The activations after a step from `s` to `s'`.  A new continuation is a new
activation, and a procedure that is entered without one runs in the activation that is
there. -/
def follow (arena : Arena) (s s' : State) (as : List Activation) : List Activation :=
  match application? arena s with
  | some a =>
    if s.continuations.size < s'.continuations.size then .entered a.closure s' :: as
    else as.modifyHead (.reused a.closure)
  | none => followQuiet s s'.continuations.size as

/-- The activations at a state of the run from `start`. -/
inductive History (arena : Arena) (limit : Option Nat) (start : State) :
    State → List Activation → Prop
  | start : History arena limit start start []
  | step {s s' : State} {as : List Activation} (h : History arena limit start s as)
    (hstep : step arena limit s = .running s') :
    History arena limit start s' (follow arena s s' as)

/-! ## Tracking -/

/-- The activations belong to the levels.  The innermost level evaluates `inner`, if it
is not at its end. -/
def Tracks : (inner : Option NodeId) → List Level → List Activation → Prop
  | _, [.top _], as => as = []
  | inner, .body k _ :: ls, a :: as =>
    (∀ node, inner = some node → a.body[a.index]? = some node) ∧
      a.body.drop (a.index + 1) = k.remaining ∧
      (a.frames = ls.length + 1 ∧ a.operands = (operandsOf ls).length ∧
        a.continuations = (continuationsOf ls).length + 1) ∧
      Tracks (some k.returnNode) ls as
  | _, .call node _ _ _ :: ls, as => Tracks (some node) ls as
  | _, _, _ => False

/-- The activations belong to the levels of a stage that has not ended. -/
def TrackedBy (as : List Activation) : Progress → Prop
  | .running s => ∃ pc ls, s = s.withLevels pc ls ∧ Tracks pc ls as
  | .halted _ _ => True

theorem size_continuations_body (s : State) (pc : Option NodeId) (k : Continuation)
    (vs : List Value) (ls : List Level) :
    (s.withLevels pc (.body k vs :: ls)).continuations.size = (continuationsOf ls).length + 1 :=
  rfl

/-- The activation of the running body, for levels that pass on the value they get. -/
theorem Tracks.of_runningBody? {inner : Option NodeId} {ls around : List Level}
    {as : List Activation} {k : Continuation} (h : Tracks inner ls as)
    (hbody : runningBody? ls = some (k, around)) :
    ∃ a rest, as = a :: rest ∧
      (a.frames = around.length + 1 ∧ a.operands = (operandsOf around).length ∧
        a.continuations = (continuationsOf around).length + 1) ∧
      Tracks (some k.returnNode) around rest := by
  induction ls generalizing inner with
  | nil => cases hbody
  | cons l ls ih =>
    cases l with
    | top vs => cases hbody
    | call node position task vs =>
      simp only [runningBody?, Option.ite_none_right_eq_some] at hbody
      exact ih h hbody.2
    | body k' vs =>
      simp only [runningBody?, Option.ite_none_right_eq_some, Option.some.injEq,
        Prod.mk.injEq] at hbody
      obtain ⟨-, rfl, rfl⟩ := hbody
      cases as with
      | nil => exact h.elim
      | cons a rest => exact ⟨a, rest, rfl, h.2.2.1, h.2.2.2⟩

/-! ## Steps -/

/-- A stage to which the given activations, counters and number of continuations
belong. -/
structure Quiet (as : List Activation) (stats : Stats) (continuations : Nat) (p : Progress) :
    Prop where
  tracked : TrackedBy as p
  stats_eq : p.state.stats = stats
  size_eq : p.state.continuations.size = continuations

section Steps

variable {arena : Arena} {limit : Option Nat} {inner : Option NodeId} {ls : List Level}
  {as : List Activation}

theorem quiet_fail (s : State) (pc : Option NodeId) (ls : List Level) (e : Error) :
    Quiet as s.stats (continuationsOf ls).length ((s.withLevels pc ls).fail e) :=
  ⟨trivial, rfl, rfl⟩

theorem quiet_running (s : State) {pc : Option NodeId} {n : Nat} (h : Tracks pc ls as)
    (hn : (continuationsOf ls).length = n) :
    Quiet as s.stats n (.running (s.withLevels pc ls)) :=
  ⟨⟨pc, ls, rfl, h⟩, rfl, hn⟩

/-- A value that the levels get changes the innermost level, and neither its node nor
its continuation. -/
theorem quiet_deliver (h : Tracks inner ls as) (s : State) (pc : Option NodeId) (node : NodeId)
    (v : Value) :
    Quiet as s.stats (continuationsOf ls).length
      (deliver arena node v (s.withLevels pc ls)) := by
  cases ls with
  | nil => exact h.elim
  | cons l ls =>
    cases l with
    | top vs =>
      cases ls with
      | nil =>
        have hgiven : Tracks none [.top (v :: vs)] as := h
        exact quiet_running s hgiven rfl
      | cons _ _ => exact h.elim
    | body k vs =>
      cases as with
      | nil => exact h.elim
      | cons a as =>
        have hgiven : Tracks none (.body k (v :: vs) :: ls) (a :: as) := ⟨by simp, h.2⟩
        exact quiet_running s hgiven rfl
    | call parent position task vs =>
      rcases deliver_call_cases arena node v parent position task vs with
        ⟨e, hfail⟩ | ⟨pc', position', task', hmoves⟩
      · rw [hfail]
        exact quiet_fail s pc _ e
      · have hmoved : Tracks pc' (.call parent position' task' (v :: vs) :: ls) as := h
        rw [hmoves]
        exact quiet_running s hmoved rfl

theorem quiet_act {node : NodeId} (h : Tracks (some node) ls as) (effect : LevelEffect) (s : State)
    (pc : Option NodeId) :
    Quiet as s.stats (continuationsOf ls).length (effect.act arena limit node s pc ls) := by
  cases effect with
  | fail e => exact quiet_fail s pc ls e
  | value v => exact quiet_deliver h s pc node v
  | opens operator =>
    have hopened : Tracks (some operator) (.call node 0 .call [] :: ls) as := h
    simp only [LevelEffect.act]
    split
    · exact quiet_fail s pc ls _
    · exact quiet_running s hopened rfl
  | again form t =>
    have hagain : Tracks (arena.operands node).head?
        (.call node 1 (.form t) [.special form] :: ls) as := h
    exact quiet_running s hagain rfl

theorem quiet_enter {node : NodeId} (h : Tracks (some node) ls as) (s : State)
    (pc : Option NodeId) :
    Quiet as s.stats (continuationsOf ls).length
      (enter arena limit node (s.withLevels pc ls)) := by
  obtain ⟨effect, heffect⟩ := exists_enter_eq_act arena node s
  rw [heffect s.stats]
  exact quiet_act h effect s pc

theorem quiet_dispatch {node : NodeId} (h : Tracks (some node) ls as) (s : State)
    (position : Nat) (task : Task) {values : List Value}
    (hvalues : ∀ c args, values ≠ .closure c :: args) :
    Quiet as s.stats (continuationsOf ls).length
      (dispatch arena limit { node, base := (operandsOf ls).length, position, task } values
        (s.withLevels none ls)) := by
  obtain ⟨effect, store, sink, heffect⟩ :=
    exists_dispatch_eq_act arena node s position task hvalues
  rw [heffect s.stats]
  exact quiet_act h effect { s with store, sink } none

variable (hlinks : arena.WellLinked)

include hlinks

/-- A combination takes a step and applies no procedure. -/
theorem quiet_step_call {s : State} {node : NodeId} {position : Nat} {task : Task}
    {vs : List Value} (h : Tracks (some node) ls as)
    (hlaid : Laid arena (arena.children node)[position]? (.call node position task vs :: ls))
    (happ : application? arena (s.withLevels (arena.children node)[position]?
      (.call node position task vs :: ls)) = none) :
    Quiet as (tick s).stats (continuationsOf ls).length
      (step arena limit (s.withLevels (arena.children node)[position]?
        (.call node position task vs :: ls))) := by
  rcases hlaid.step_call_cases hlinks happ with
    ⟨child, position', hstep⟩ | ⟨hvalues, position', hstep⟩
  · have hinside : Tracks (some child) (.call node position' task vs :: ls) as := h
    rw [hstep]
    exact quiet_enter hinside (tick s) (some child)
  · rw [hstep]
    exact quiet_dispatch h (tick s) position' task hvalues

omit hlinks in
/-- The end of an expression of a body ends the activation or advances it. -/
theorem quiet_step_body_end {s : State} {k : Continuation} {v : Value} {a : Activation}
    (h : Tracks none (.body k [v] :: ls) (a :: as)) :
    ∃ n ≤ (continuationsOf ls).length + 1,
      Quiet (followQuiet (s.withLevels none (.body k [v] :: ls)) n (a :: as)) (tick s).stats n
        (step arena limit (s.withLevels none (.body k [v] :: ls))) := by
  obtain ⟨-, hremaining, hheights, houter⟩ := h
  rw [step_body_end]
  cases hr : k.remaining with
  | nil =>
    refine ⟨(continuationsOf ls).length, Nat.le_succ _, ?_⟩
    rw [followQuiet, size_continuations_body, if_pos (Nat.lt_succ_self _)]
    exact quiet_deliver houter { tick s with scope := k.callerScope } none k.returnNode v
  | cons next remaining =>
    have hend : (s.withLevels none (.body k [v] :: ls)).atBodyEnd = true := rfl
    have hnext : Tracks (some next) (.body { k with remaining } [] :: ls)
        (a.advanced :: as) := by
      rw [hr] at hremaining
      refine ⟨fun node hnode => ?_, ?_, hheights, houter⟩
      · have hhead := congrArg (·[0]?) hremaining
        simpa [Activation.advanced, hnode] using hhead
      · have htail := congrArg (List.drop 1) hremaining
        rwa [List.drop_drop] at htail
    refine ⟨(continuationsOf ls).length + 1, Nat.le_refl _, ?_⟩
    rw [followQuiet, size_continuations_body, if_neg (Nat.lt_irrefl _), hend, if_pos rfl]
    exact quiet_running (tick s) hnext rfl

/-- A step that applies no procedure keeps the peak and adds no continuation. -/
theorem quiet_step {s : State} {pc : Option NodeId} (h : Tracks pc ls as)
    (hlaid : Laid arena pc ls) (happ : application? arena (s.withLevels pc ls) = none) :
    ∃ n ≤ (continuationsOf ls).length,
      Quiet (followQuiet (s.withLevels pc ls) n as) (tick s).stats n
        (step arena limit (s.withLevels pc ls)) := by
  -- As long as no continuation goes and no body is at its end, nothing is noted.
  have hsame : (s.withLevels pc ls).atBodyEnd = false →
      followQuiet (s.withLevels pc ls) (continuationsOf ls).length as = as := by
    intro hend
    have hsize : (s.withLevels pc ls).continuations.size = (continuationsOf ls).length := rfl
    rw [followQuiet, hsize, if_neg (Nat.lt_irrefl _), hend, if_neg Bool.false_ne_true]
  match ls, hlaid with
  | [.top vs], hready =>
    refine ⟨_, Nat.le_refl _, ?_⟩
    rw [hsame (by cases pc <;> rfl)]
    rcases hready with ⟨hsome, rfl⟩ | ⟨rfl, v, rfl⟩
    · obtain ⟨root, rfl⟩ := Option.isSome_iff_exists.1 hsome
      exact quiet_enter h (tick s) (some root)
    · exact ⟨trivial, rfl, rfl⟩
  | .call node position task vs :: ls, hlaid =>
    obtain rfl := hlaid.1.1
    refine ⟨_, Nat.le_refl _, ?_⟩
    rw [hsame (by simp [State.atBodyEnd, State.withLevels, Stack.top?, Level.frame, Frame.isBody])]
    exact quiet_step_call hlinks h hlaid happ
  | .body k vs :: ls, ⟨hready, _⟩ =>
    cases as with
    | nil => exact h.elim
    | cons a as =>
      rcases hready with ⟨hsome, rfl⟩ | ⟨rfl, v, rfl⟩
      · obtain ⟨expression, rfl⟩ := Option.isSome_iff_exists.1 hsome
        refine ⟨_, Nat.le_refl _, ?_⟩
        rw [hsame rfl]
        exact quiet_enter h (tick s) (some expression)
      · exact quiet_step_body_end h

omit hlinks in
/-- The activations after a procedure was entered.  If it took the place of the running
body, the stacks are as high as they were when the activation was first entered. -/
theorem tracked_of_application? {s s' : State} {pc : Option NodeId} {a : Application}
    (h : Tracks pc ls as) (hlaid : Laid arena pc ls)
    (happ : application? arena (s.withLevels pc ls) = some a)
    (hstep : step arena limit (s.withLevels pc ls) = .running s') :
    TrackedBy (follow arena (s.withLevels pc ls) s' as) (.running s') := by
  obtain ⟨position, vs, outer, rfl, -, -, hcases⟩ := hlaid.enters_cases happ hstep
  have houter : Tracks (some a.node) outer as := h
  have hsize : (s.withLevels pc (.call a.node position .call vs :: outer)).continuations.size =
      (continuationsOf outer).length := rfl
  rw [follow, happ]
  dsimp only
  rw [hsize]
  rcases hcases with ⟨k, around, r, hbody, rfl, -⟩ | ⟨r, -, rfl, -⟩
  · obtain ⟨act, rest, rfl, hheights, haround⟩ := houter.of_runningBody? hbody
    obtain ⟨-, -, hcont, -⟩ := unwind_of_runningBody? hbody
    rw [hcont, List.length_cons, size_continuations_body, if_neg (Nat.lt_irrefl _)]
    refine ⟨_, _, rfl, fun node hnode => ?_, rfl, hheights, haround⟩
    obtain rfl := Option.some.inj hnode
    rfl
  · rw [size_continuations_body, if_pos (Nat.lt_succ_self _)]
    refine ⟨_, _, rfl, fun node hnode => ?_, rfl, ⟨?_, rfl, rfl⟩, houter⟩
    · obtain rfl := Option.some.inj hnode
      rfl
    · exact congrArg (· + 1) (length_framesOf outer)

end Steps

/-! ## Runs -/

section Runs

variable {arena : Arena} {limit : Option Nat} {start s : State} {as : List Activation}

theorem History.leads (h : History arena limit start s as) :
    Leads arena limit (.running start) (.running s) := by
  induction h with
  | start => exact .refl _
  | step _ hstep ih => exact ih.trans (.of_step_eq hstep)

/-- Each state of a run has its activations. -/
theorem exists_history {p : Progress} (h : Leads arena limit p (.running s)) :
    ∀ {t as}, p = .running t → History arena limit start t as →
      ∃ as, History arena limit start s as := by
  generalize hq : Progress.running s = q at h
  induction h with
  | refl =>
    intro t as hp hhistory
    subst hq
    cases hp
    exact ⟨as, hhistory⟩
  | @step u q hleads ih =>
    intro t as hp hhistory
    cases hp
    cases hstep : Machine.step arena limit u with
    | running u' => exact ih hq hstep (hhistory.step hstep)
    | halted r u' =>
      rw [hstep] at hleads
      have heq := hleads.eq_of_halted
      rw [← hq] at heq
      cases heq

variable (hlinks : arena.WellLinked)

include hlinks

/-- The activations that were noted belong to the levels. -/
theorem History.tracked (hsound : Sound arena (.running start))
    (hstart : TrackedBy [] (.running start)) (h : History arena limit start s as) :
    TrackedBy as (.running s) := by
  induction h with
  | start => exact hstart
  | @step s s' as hhistory hstep ih =>
    obtain ⟨pc, ls, hs, htracks⟩ := ih
    have hreached := hsound.of_leads hlinks hhistory.leads
    rw [hs] at hreached hstep ⊢
    have hlaid := hreached.laid
    cases happ : application? arena (s.withLevels pc ls) with
    | some a => exact tracked_of_application? htracks hlaid happ hstep
    | none =>
      obtain ⟨n, -, hquiet⟩ : ∃ n ≤ _,
          Quiet _ _ n (Machine.step arena limit (s.withLevels pc ls)) :=
        quiet_step hlinks htracks hlaid happ
      rw [hstep] at hquiet
      rw [follow, happ]
      have hsize : s'.continuations.size = n := hquiet.size_eq
      rw [hsize]
      exact hquiet.tracked

end Runs

end StackScheme.Machine
