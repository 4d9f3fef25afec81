import Mathlib.Data.List.Forall2
import StackScheme.Proofs.Machine.Outcomes

/-!
# Deliveries

The values of a combination lie on the operand stack until the combination ends.  Each of
them came from one child: it was delivered as the value of this child, to this very frame.

* Positions.  `Task.positions` are the children before a position that are not passed over,
  and `FormTask.positions_end` are all children that a pass evaluates.
* Deliveries.  `Delivered` says that a value was delivered to a frame which has been there
  ever since.
* Levels.  `Traced` says that each combination among the levels has a value from each child
  that it has not passed over, in order, and that a conditional has chosen its branch by
  the value of its condition.
* Steps.  `isTraced_step` goes through all that a step can make of the levels, and
  `IsTraced.of_leads` is about whole runs.
-/

namespace StackScheme.Machine

/-! ## Positions -/

/-- The positions before `position` that are not passed over. -/
def Task.positions (task : Task) (position : Nat) : List Nat :=
  (List.range position).filter fun i => !task.skips i

/-- The operator is never passed over. -/
theorem Task.skips_zero (task : Task) : task.skips 0 = false := by
  cases task <;> rfl

theorem Task.positions_succ {task : Task} {position : Nat} (h : task.skips position = false) :
    task.positions (position + 1) = task.positions position ++ [position] := by
  simp [positions, List.range_succ, h]

theorem Task.positions_one (task : Task) : task.positions 1 = [0] :=
  task.positions_succ task.skips_zero

theorem Task.positions_call (position : Nat) : call.positions position = List.range position :=
  List.filter_eq_self.2 fun _ _ => rfl

/-- Positions that are passed over add nothing. -/
theorem Task.positions_of_skips {task : Task} {position position' : Nat}
    (hle : position ≤ position')
    (h : ∀ i, position ≤ i → i < position' → task.skips i = true) :
    task.positions position' = task.positions position := by
  induction hle with
  | refl => rfl
  | @step n hle ih =>
    have hskips := h n hle (Nat.lt_succ_self n)
    rw [← ih fun i hi hlt => h i hi (Nat.lt_succ_of_lt hlt)]
    simp [positions, List.range_succ, hskips]

section Positions

variable {arena : Arena} {node : NodeId} {t : FormTask} (hfits : t.Fits arena node)
include hfits

/-- Seeking passes over children. -/
theorem FormTask.positions_seek {position : Nat} (hpos : 1 ≤ position)
    (hle : position ≤ t.operandCount + 1) :
    (Task.form t).positions (t.seek position) = (Task.form t).positions position := by
  have hskips : ∀ i, position ≤ i → i < t.seek position → t.skips i = true := by
    intro i hi hlt
    rw [skips_eq_true_iff]
    rcases t.seek_cases position with ⟨hwanted, hseek⟩ | ⟨hend, hbefore⟩
    · have hrange := hfits.wanted_le hwanted
      refine ⟨by omega, by omega, fun heq => ?_⟩
      rw [hwanted, Option.some.injEq] at heq
      omega
    · refine ⟨by omega, by omega, fun heq => ?_⟩
      have := hbefore i heq
      omega
  refine Task.positions_of_skips ?_ hskips
  rcases t.seek_cases position with ⟨-, hseek⟩ | ⟨hend, -⟩
  · exact hseek
  · omega

/-- A pass evaluates the operator and the operand that is wanted. -/
theorem FormTask.positions_end :
    (Task.form t).positions (arena.children node).length = 0 :: t.wanted.toList := by
  have hskips : ∀ i, 1 ≤ i → i ≤ t.operandCount → t.wanted ≠ some i →
      (Task.form t).skips i = true :=
    fun i hpos hle hne => skips_eq_true_iff.2 ⟨hpos, hle, hne⟩
  rw [hfits.count]
  cases hwanted : t.wanted with
  | none =>
    rw [Task.positions_of_skips (Nat.le_add_left 1 _) fun i hpos hlt =>
      hskips i hpos (Nat.lt_succ_iff.1 hlt) (by simp [hwanted]), Task.positions_one]
    rfl
  | some i =>
    obtain ⟨hpos, hle⟩ := hfits.wanted_le hwanted
    have hself : (Task.form t).skips i = false := by
      have hseek := t.skips_seek i
      rwa [FormTask.seek_eq_self hwanted] at hseek
    have hne : ∀ j, j ≠ i → t.wanted ≠ some j := by
      intro j hj heq
      rw [hwanted, Option.some.injEq] at heq
      exact hj heq.symm
    calc (Task.form t).positions (t.operandCount + 1)
        = (Task.form t).positions (i + 1) :=
          Task.positions_of_skips (Nat.succ_le_succ hle) fun j hj hlt =>
            hskips j (by omega) (by omega) (hne j (by omega))
      _ = (Task.form t).positions i ++ [i] := Task.positions_succ hself
      _ = (Task.form t).positions 1 ++ [i] := by
          rw [Task.positions_of_skips hpos fun j hj hlt =>
            hskips j hj (by omega) (hne j (by omega))]
      _ = 0 :: [i] := by rw [Task.positions_one, List.singleton_append]

/-- A form that seeks no child is at its end. -/
theorem FormTask.seek_eq_length {position : Nat}
    (hend : (arena.children node)[t.seek position]? = none) :
    t.seek position = (arena.children node).length := by
  have hcount := hfits.count
  rw [List.getElem?_eq_none_iff] at hend
  rcases t.seek_cases position with ⟨hwanted, -⟩ | ⟨hseek, -⟩
  · have hrange := hfits.wanted_le hwanted
    omega
  · omega

end Positions

/-! ## Deliveries -/

section Deliveries

variable (arena : Arena) (limit : Option Nat)

/-- A frame of the combination at `node`, with this base, stands on the frames `outer`. -/
def State.Stands (s : State) (node : NodeId) (base : Nat) (outer : List Frame) : Prop :=
  ∃ above position task, s.frames.items = above ++ .call { node, base, position, task } :: outer

/-- The run goes on from `p` to a state, and the frame stands on `outer` all the way. -/
inductive StaysOn (node : NodeId) (base : Nat) (outer : List Frame) (p : Progress) : State → Prop
  | here {s : State} (hp : p = .running s) (hstands : s.Stands node base outer) :
    StaysOn node base outer p s
  | step {s s' : State} (h : StaysOn node base outer p s)
    (hstep : step arena limit s = .running s') (hstands : s'.Stands node base outer) :
    StaysOn node base outer p s'

/-- In a run from `start` to `s`, the value of the child at `position` was delivered to the
combination at `node`, whose frame has stood on the frames `outer` ever since. -/
def Delivered (start : Progress) (s : State) (node : NodeId) (base : Nat) (outer : List Frame)
    (position : Nat) (v : Value) : Prop :=
  ∃ t u child task, Leads arena limit start (.running t) ∧
    (arena.children node)[position]? = some child ∧
    u.frames.items = .call { node, base, position, task } :: outer ∧
    step arena limit t = deliver arena child v u ∧
    StaysOn arena limit node base outer (step arena limit t) s

variable {arena limit}

theorem Delivered.step {start : Progress} {s s' : State} {node : NodeId} {base : Nat}
    {outer : List Frame} {position : Nat} {v : Value}
    (h : Delivered arena limit start s node base outer position v)
    (hstep : Machine.step arena limit s = .running s') (hstands : s'.Stands node base outer) :
    Delivered arena limit start s' node base outer position v := by
  obtain ⟨t, u, child, task, hleads, hchild, hframes, hdeliver, hstays⟩ := h
  exact ⟨t, u, child, task, hleads, hchild, hframes, hdeliver, hstays.step hstep hstands⟩

end Deliveries

/-! ## Levels -/

/-- The branch that a condition chooses, if it is there. -/
def FormTask.branch? (t : FormTask) (condition : Value) : Option Nat :=
  let chosen := if condition.isTruthy then 2 else 3
  if chosen ≤ t.operandCount then some chosen else none

/-- A conditional behind its first pass wants the branch that its condition chose. -/
def Task.Chosen (given : Nat → Value → Prop) : Task → Prop
  | .call => True
  | .form t =>
    t.form = .ifForm → t.pass ≠ 0 →
      ∃ condition, given 1 condition ∧ t.wanted = t.branch? condition

/-- Each combination has the values that were given to it, one from each child that it has
not passed over. -/
def Traced (given : NodeId → List Level → Nat → Value → Prop) : List Level → Prop
  | .call node position task vs :: ls =>
    List.Forall₂ (given node ls) (task.positions position) vs.reverse ∧
      task.Chosen (given node ls) ∧ Traced given ls
  | _ :: ls => Traced given ls
  | [] => True

theorem Task.Chosen.imp {given given' : Nat → Value → Prop} {task : Task}
    (h : task.Chosen given) (himp : ∀ v, given 1 v → given' 1 v) : task.Chosen given' := by
  cases task with
  | call => trivial
  | form t =>
    intro hform hpass
    obtain ⟨condition, hgiven, hwanted⟩ := h hform hpass
    exact ⟨condition, himp condition hgiven, hwanted⟩

theorem Traced.imp {given given' : NodeId → List Level → Nat → Value → Prop} {ls : List Level}
    (h : Traced given ls) (himp : ∀ node position task vs outer,
      .call node position task vs :: outer <:+ ls →
        ∀ i v, given node outer i v → given' node outer i v) : Traced given' ls := by
  induction ls with
  | nil => trivial
  | cons l ls ih =>
    have hrest : ∀ node position task vs outer, .call node position task vs :: outer <:+ ls →
        ∀ i v, given node outer i v → given' node outer i v :=
      fun node position task vs outer hsuffix =>
        himp node position task vs outer (hsuffix.trans (List.suffix_cons l ls))
    cases l with
    | call node position task vs =>
      obtain ⟨hvalues, hchosen, houter⟩ := h
      have hself := himp node position task vs ls (List.suffix_refl _)
      exact ⟨hvalues.imp hself, hchosen.imp (hself 1), ih houter hrest⟩
    | top vs => exact ih h hrest
    | body k vs => exact ih h hrest

/-- Levels outside of others are traced with them. -/
theorem Traced.below {given : NodeId → List Level → Nat → Value → Prop} {inner outer : List Level}
    (h : Traced given (inner ++ outer)) : Traced given outer := by
  induction inner with
  | nil => exact h
  | cons l inner ih =>
    cases l with
    | call node position task vs => exact ih h.2.2
    | _ => exact ih h

/-! ## Steps -/

section Steps

variable (arena : Arena) (limit : Option Nat) (start : Progress)

/-- What was delivered to a combination on the levels `outer`, in a run up to a state. -/
def GivenAt (s : State) (node : NodeId) (outer : List Level) : Nat → Value → Prop :=
  Delivered arena limit start s node (operandsOf outer).length (framesOf outer)

/-- A run that goes on has well-formed levels, and knows where their values came from. -/
def IsTraced : Progress → Prop
  | .running s =>
    ∃ pc ls, s = s.withLevels pc ls ∧ Laid arena pc ls ∧ Traced (GivenAt arena limit start s) ls
  | .halted _ _ => True

variable {arena limit start} {s₀ : State} {node : NodeId} {ls : List Level}

/-- The frame of a combination stands on the frames of the levels around it. -/
theorem stands_withLevels (r : State) (pc : Option NodeId) {position : Nat} {task : Task}
    {vs : List Value} {outer : List Level} (h : .call node position task vs :: outer <:+ ls) :
    (r.withLevels pc ls).Stands node (operandsOf outer).length (framesOf outer) := by
  obtain ⟨inner, rfl⟩ := h
  obtain ⟨above, habove⟩ := exists_framesOf_append inner (.call node position task vs :: outer)
  exact ⟨above, position, task, habove⟩

/-- Levels that stay keep their values. -/
theorem Traced.later (h : Traced (GivenAt arena limit start s₀) ls) {r : State}
    {pc : Option NodeId} {ls' : List Level}
    (hstep : step arena limit s₀ = .running (r.withLevels pc ls')) (hstays : ls <:+ ls') :
    Traced (GivenAt arena limit start (r.withLevels pc ls')) ls :=
  h.imp fun _ _ _ _ _ hsuffix _ _ hgiven =>
    hgiven.step hstep (stands_withLevels _ _ (hsuffix.trans hstays))

/-- Passing over children leaves the values of a form as they are. -/
theorem Traced.seek {t : FormTask} {position : Nat} {vs : List Value}
    {given : NodeId → List Level → Nat → Value → Prop} (hfits : t.Fits arena node)
    (hpos : 1 ≤ position) (hle : position ≤ t.operandCount + 1)
    (h : Traced given (.call node position (.form t) vs :: ls)) :
    Traced given (.call node (t.seek position) (.form t) vs :: ls) := by
  obtain ⟨hvalues, hchosen, houter⟩ := h
  rw [← FormTask.positions_seek hfits hpos hle] at hvalues
  exact ⟨hvalues, hchosen, houter⟩

/-- The levels that a step works on are traced. -/
theorem Leaves.traced {given : NodeId → List Level → Nat → Value → Prop} {ls' : List Level}
    (hleaves : Leaves arena ls ls') (h : Traced given ls) : Traced given ls' := by
  cases hleaves with
  | outer hsuffix =>
    obtain ⟨inner, rfl⟩ := hsuffix
    exact h.below
  | seek hfits hpos hle => exact h.seek hfits hpos hle

theorem pass_of_prepare {form : SpecialForm} {t : FormTask}
    (h : prepare arena node form = .ok t) (hif : t.form = .ifForm) : t.pass = 0 := by
  obtain ⟨hform, -, -, -⟩ := prepare_eq_ok h
  rw [hform] at hif
  subst hif
  simp only [prepare] at h
  split at h
  · rw [firstPass_eq_ok h]
  · cases h

/-- A combination that gets the value of a child knows the child. -/
theorem Traced.child (hleads : Leads arena limit start (.running s₀)) {child : NodeId}
    {position : Nat} {task task' : Task} {vs : List Value}
    (h : Traced (GivenAt arena limit start s₀) (.call node position task vs :: ls))
    (hchild : (arena.children node)[position]? = some child)
    (hskips : task.skips position = false)
    (htask : task' = task ∨
      position = 0 ∧ ∃ form t, prepare arena node form = .ok t ∧ task' = .form t)
    {u r : State} {v : Value} {pc : Option NodeId}
    (hframes : u.frames.items = framesOf (.call node position task vs :: ls))
    (hdeliver : step arena limit s₀ = deliver arena child v u)
    (hstep : step arena limit s₀ =
      .running (r.withLevels pc (.call node (position + 1) task' (v :: vs) :: ls))) :
    Traced (GivenAt arena limit start
        (r.withLevels pc (.call node (position + 1) task' (v :: vs) :: ls)))
      (.call node (position + 1) task' (v :: vs) :: ls) := by
  obtain ⟨hvalues, hchosen, houter⟩ := h
  have hstands := stands_withLevels r pc
    (List.suffix_refl (.call node (position + 1) task' (v :: vs) :: ls))
  have hlater := fun i u (hgiven : GivenAt arena limit start s₀ node ls i u) =>
    hgiven.step hstep hstands
  have hself := (⟨s₀, u, child, task, hleads, hchild, hframes, hdeliver, .here hstep hstands⟩ :
    GivenAt arena limit start _ node ls position v)
  have hpositions : task'.positions (position + 1) = task.positions position ++ [position] := by
    rcases htask with rfl | ⟨rfl, -⟩
    · exact Task.positions_succ hskips
    · exact task'.positions_one
  refine ⟨?_, ?_, houter.later hstep (List.suffix_cons _ _)⟩
  · rw [hpositions, List.reverse_cons]
    exact List.rel_append (hvalues.imp hlater) (.cons hself .nil)
  · rcases htask with rfl | ⟨-, form, t, hprepare, rfl⟩
    · exact hchosen.imp (hlater 1)
    · exact fun hif hpass => absurd (pass_of_prepare hprepare hif) hpass

/-- The levels that get a value know from which child it came. -/
theorem isTraced_deliver (hlinks : arena.WellLinked)
    (hleads : Leads arena limit start (.running s₀)) (hawaits : Awaits arena node ls)
    (htraced : Traced (GivenAt arena limit start s₀) ls) {r : State} {pc : Option NodeId}
    {v : Value} (hstep : step arena limit s₀ = deliver arena node v (r.withLevels pc ls)) :
    IsTraced arena limit start (step arena limit s₀) := by
  match ls, hawaits with
  | [.top vs], hvs =>
    obtain rfl : vs = [] := hvs
    rw [hstep]
    exact ⟨none, [.top [v]], rfl, .inr ⟨rfl, v, rfl⟩, trivial⟩
  | .body k vs :: ls, ⟨hvs, hrest⟩ =>
    subst hvs
    rw [deliver_body] at hstep
    rw [hstep]
    refine ⟨none, .body k [v] :: ls, rfl, ⟨.inr ⟨rfl, v, rfl⟩, hrest⟩, ?_⟩
    have htraced : Traced (GivenAt arena limit start s₀) ls := htraced
    exact htraced.later hstep (List.suffix_cons _ _)
  | .call parent position task vs :: ls, hawaits =>
    rcases deliver_child_cases hlinks hawaits v r pc with
      ⟨e, t, hhalts⟩ | ⟨task', htask, hlaid, hmoves⟩
    · rw [hstep, hhalts]
      trivial
    · have hnext := hstep.trans hmoves
      have htraced' := htraced.child hleads hawaits.1 hawaits.2.1 htask rfl hstep hnext
      rw [hnext]
      exact ⟨_, _, rfl, hlaid, htraced'⟩

/-- A conditional goes on with the branch that its condition chooses. -/
theorem branch_of_performIf {t next : FormTask} {v : Value} (h : performIf t v = .again next) :
    t.pass = 0 ∧ next.wanted = next.branch? v := by
  rw [performIf] at h
  split at h
  · rename_i hpass
    simp only [FormStep.again.injEq] at h
    subst h
    exact ⟨hpass, rfl⟩
  · cases h

/-- A form that goes on has its operator left, and knows the condition that it went by. -/
theorem chosen_again {t next : FormTask} (hfits : t.Fits arena node) {args : List Value}
    {given : Nat → Value → Prop}
    (hvalues : List.Forall₂ given ((Task.form t).positions (arena.children node).length)
      (.special t.form :: args)) (hnext : perform arena node t args = .ok (.again next)) :
    List.Forall₂ given ((Task.form next).positions 1) [.special t.form] ∧
      (Task.form next).Chosen given := by
  rw [FormTask.positions_end hfits] at hvalues
  obtain ⟨hoperator, hargs⟩ := List.forall₂_cons.1 hvalues
  refine ⟨?_, fun hif hpass => ?_⟩
  · rw [Task.positions_one]
    exact .cons hoperator .nil
  · rcases cases_of_perform_again hnext with ⟨hform, hperform⟩ | ⟨hform, -⟩
    · obtain ⟨hfirst, hwanted⟩ := branch_of_performIf hperform
      have hcondition : t.wanted = some 1 := by
        have hin := hfits.inPass
        rw [FormTask.InPass, hform] at hin
        simpa [hfirst] using hin
      rw [hcondition] at hargs
      cases hargs with
      | cons hgiven hrest =>
        cases hrest
        exact ⟨_, hgiven, hwanted⟩
    · have hsame := (fits_of_perform_again hfits hnext).1
      rw [hsame] at hif
      simp [hif] at hform

/-- A form that goes on has its operator left. -/
theorem isTraced_again {pc : Option NodeId} {position : Nat} {t next : FormTask}
    {vs args : List Value}
    (h : Laid arena pc (.call node position (.form t) vs :: ls))
    (htraced : Traced (GivenAt arena limit start s₀) (.call node position (.form t) vs :: ls))
    (hend : (arena.children node)[t.seek position]? = none)
    (hargs : vs.reverse = .special t.form :: args)
    (hnext : perform arena node t args = .ok (.again next)) {r : State}
    (hstep : step arena limit s₀ = .running (r.withLevels (arena.children node)[1]?
      (.call node 1 (.form next) [.special t.form] :: ls))) :
    IsTraced arena limit start (step arena limit s₀) := by
  obtain ⟨⟨-, hle⟩, -, hfits, howns, -⟩ := id h
  have hcount := hfits.count
  obtain ⟨hvalues, -, houter⟩ := htraced.seek hfits howns.one_le (by omega)
  rw [FormTask.seek_eq_length hfits hend, hargs] at hvalues
  obtain ⟨hoperator, hchosen⟩ := chosen_again hfits hvalues hnext
  have hstands := stands_withLevels r (arena.children node)[1]?
    (List.suffix_refl (.call node 1 (.form next) [.special t.form] :: ls))
  have hlater := fun i v (hgiven : GivenAt arena limit start s₀ node ls i v) =>
    hgiven.step hstep hstands
  rw [hstep]
  exact ⟨_, _, rfl, h.again hnext, hoperator.imp hlater, hchosen.imp (hlater 1),
    houter.later hstep (List.suffix_cons _ _)⟩

/-- Every step keeps track of where the values came from. -/
theorem isTraced_step (hlinks : arena.WellLinked) (hleads : Leads arena limit start (.running s₀))
    (h : IsTraced arena limit start (.running s₀)) :
    IsTraced arena limit start (step arena limit s₀) := by
  obtain ⟨pc, ls, hs, hlaid, htraced⟩ := h
  have hmoves := hlaid.moves hlinks limit s₀
  rw [← hs] at hmoves
  generalize hstep : step arena limit s₀ = p at hmoves
  rw [← hstep]
  cases hmoves with
  | halted r t =>
    rw [hstep]
    trivial
  | delivers hleaves hawaits r pc v =>
    exact isTraced_deliver hlinks hleads hawaits (hleaves.traced htraced) hstep
  | opens hleaves hawaits hcompound r =>
    have hlater := (hleaves.traced htraced).later hstep (List.suffix_cons _ _)
    rw [hstep]
    exact ⟨_, _, rfl, hawaits.opened hcompound, .nil, trivial, hlater⟩
  | enters hleaves hawaits r first =>
    have hlater := (hleaves.traced htraced).later hstep (List.suffix_cons _ _)
    rw [hstep]
    exact ⟨_, _, rfl, ⟨.inl ⟨rfl, rfl⟩, hawaits⟩, hlater⟩
  | again hls hend hargs hnext r =>
    subst hls
    exact isTraced_again hlaid htraced hend hargs hnext hstep

/-! ## Runs -/

/-- The values are traced at each stage of a run. -/
theorem IsTraced.of_leads (hlinks : arena.WellLinked) {p q : Progress}
    (hp : Leads arena limit start p) (h : IsTraced arena limit start p)
    (hleads : Leads arena limit p q) : IsTraced arena limit start q := by
  induction hleads with
  | refl => exact h
  | @step s q hleads ih =>
    exact ih (hp.trans (.step (.refl _))) (isTraced_step hlinks hp h)

theorem isTraced_initial (store : Store) (sink : Sink) (root : NodeId) :
    IsTraced arena limit start (.running (.initial store sink root)) :=
  ⟨some root, [.top []], rfl, .inl ⟨rfl, rfl⟩, trivial⟩

end Steps

end StackScheme.Machine
