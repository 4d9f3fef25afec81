import StackScheme.Proofs.Machine.Levels
import StackScheme.Proofs.Machine.Runs

/-!
# Layout of the levels

What the levels of a running machine look like.  A combination holds one value
for each child before its position that was not passed over, a special form is
in a pass that its shape allows, and each level waits for the node that the next
level inside of it is about.

* Passes.  `FormTask.Fits` is a task that `prepare` and `perform` can give.
  `FormTask.seek` is the position at which the next child is evaluated.
* Shapes.  `prepare_of_length_lt` says that a `lambda` or a `define` without a body is
  refused, and `exists_operands_of_prepare` what is there of one that was prepared.
* Values.  `Task.Owns` are the values that a combination has at a position.
* Waiting.  `Awaits` are levels that wait for the value of a node.
* Steps.  One equation for each kind of innermost level says what `step` does.
* Returning.  `leads_of_forwards` is the end of a form in tail position: a value
  that is delivered to a form which passes it on is delivered to the levels around
  the form.
-/

namespace StackScheme.Machine

/-! ## Passes -/

namespace FormTask

/-- The pass and the operand that is wanted agree with the form. -/
def InPass (t : FormTask) : Prop :=
  match t.form with
  | .ifForm =>
    t.pass = 0 ∧ t.wanted = some 1 ∨
      t.pass = 1 ∧ (t.wanted = none ∨ t.wanted = some 2 ∨ t.wanted = some 3)
  | .andForm | .orForm =>
    t.pass = 0 ∧ t.wanted = none ∧ t.operandCount = 0 ∨ 0 < t.pass ∧ t.wanted = some t.pass
  | _ => t.pass = 0

/-- The task belongs to the special form at `node`. -/
structure Fits (arena : Arena) (node : NodeId) (t : FormTask) : Prop where
  count : (arena.children node).length = t.operandCount + 1
  prepared : ∃ first, prepare arena node t.form = .ok first
  inPass : t.InPass
  wanted_le {i : Nat} (h : t.wanted = some i) : 1 ≤ i ∧ i ≤ t.operandCount

/-- The first position from `position` on that is not passed over. -/
def seek (t : FormTask) (position : Nat) : Nat :=
  match t.wanted with
  | some i => if position ≤ i then i else t.operandCount + 1
  | none => t.operandCount + 1

theorem skips_eq_true_iff {t : FormTask} {position : Nat} :
    t.skips position = true ↔
      1 ≤ position ∧ position ≤ t.operandCount ∧ t.wanted ≠ some position := by
  simp [skips, and_assoc]

/-- What is sought is the operand that is wanted, or the end behind it. -/
theorem seek_cases (t : FormTask) (position : Nat) :
    t.wanted = some (t.seek position) ∧ position ≤ t.seek position ∨
      t.seek position = t.operandCount + 1 ∧ ∀ i, t.wanted = some i → i < position := by
  rw [seek]
  cases t.wanted with
  | none => simp
  | some i =>
    by_cases hi : position ≤ i
    · simp [hi]
    · right
      simp only [hi, if_false, Option.some.injEq, true_and]
      omega

theorem seek_eq_self {t : FormTask} {position : Nat} (h : t.wanted = some position) :
    t.seek position = position := by
  simp [seek, h]

theorem seek_end {arena : Arena} {node : NodeId} {t : FormTask} (hfits : t.Fits arena node) :
    t.seek (t.operandCount + 1) = t.operandCount + 1 := by
  rcases t.seek_cases (t.operandCount + 1) with ⟨hw, hle⟩ | ⟨h, -⟩
  · have := hfits.wanted_le hw
    omega
  · exact h

/-- Seeking goes on behind a position that is passed over. -/
theorem seek_succ {t : FormTask} {position : Nat} (h : t.skips position = true) :
    t.seek (position + 1) = t.seek position := by
  obtain ⟨-, -, hne⟩ := skips_eq_true_iff.1 h
  rw [seek, seek]
  cases hw : t.wanted with
  | none => rfl
  | some i =>
    have hi : i ≠ position := fun e => hne (by rw [hw, e])
    have hiff : position + 1 ≤ i ↔ position ≤ i := by omega
    simp only [hiff]

/-- An operand that is not passed over is the one that is wanted. -/
theorem wanted_of_skips_eq_false {t : FormTask} {position : Nat} (hpos : 1 ≤ position)
    (hle : position ≤ t.operandCount) (h : t.skips position = false) :
    t.wanted = some position := by
  refine Decidable.byContradiction fun hne => ?_
  have htrue := skips_eq_true_iff.2 ⟨hpos, hle, hne⟩
  rw [h] at htrue
  cases htrue

/-- Nothing is passed over at the position that is sought. -/
theorem skips_seek (t : FormTask) (position : Nat) : t.skips (t.seek position) = false := by
  rw [Bool.eq_false_iff, ne_eq, skips_eq_true_iff]
  rintro ⟨-, hle, hne⟩
  rcases t.seek_cases position with ⟨hw, -⟩ | ⟨hend, -⟩
  · exact hne hw
  · omega

end FormTask

/-- Passing over unwanted children leads to the position that is sought. -/
theorem skip_eq_ok {arena : Arena} (hlinks : arena.WellLinked) {node : NodeId} {t : FormTask}
    (hfits : t.Fits arena node) {fuel position : Nat} (hpos : 1 ≤ position)
    (hle : position ≤ t.operandCount + 1) (hfuel : t.operandCount + 1 ≤ fuel + position) :
    skip arena (.form t) fuel (arena.children node)[position]? position =
      .ok ((arena.children node)[t.seek position]?, t.seek position) := by
  have hcount := hfits.count
  induction fuel generalizing position with
  | zero =>
    obtain rfl : position = t.operandCount + 1 := by omega
    rw [t.seek_end hfits]
    rfl
  | succ fuel ih =>
    by_cases hend : position = t.operandCount + 1
    · subst hend
      have hnone : (arena.children node)[t.operandCount + 1]? = none := by
        rw [List.getElem?_eq_none_iff]
        omega
      rw [t.seek_end hfits, hnone]
      rfl
    · have hlt : position < (arena.children node).length := by omega
      have hchild := List.getElem?_eq_getElem hlt
      generalize (arena.children node)[position] = child at hchild
      cases hskip : t.skips position with
      | true =>
        have hmem := List.mem_of_getElem? hchild
        obtain ⟨n, hn⟩ := Arena.exists_node?_eq_some (Arena.lt_size_of_mem_children hlinks hmem)
        have hnext := Arena.getElem?_children_succ hlinks hchild
        rw [Arena.next?_eq_of_node?_eq_some hn] at hnext
        have hrest := ih (by omega : 1 ≤ position + 1) (by omega) (by omega)
        rw [hnext, FormTask.seek_succ hskip] at hrest
        rw [hchild]
        simp only [skip, Task.skips, hskip, if_true, hn]
        exact hrest
      | false =>
        have hwanted := FormTask.wanted_of_skips_eq_false hpos (by omega) hskip
        rw [FormTask.seek_eq_self hwanted, hchild]
        simp [skip, Task.skips, hskip]

theorem firstPass_eq_ok {form : SpecialForm} {operands : List NodeId} {pass : Nat}
    {wanted : Option Nat} {t : FormTask} (h : firstPass form operands pass wanted = .ok t) :
    t = { form, pass, wanted, operandCount := operands.length } := by
  simp only [firstPass, Except.ok.injEq] at h
  exact h.symm

theorem length_children {arena : Arena} {node : NodeId} (h : arena.children node ≠ []) :
    (arena.children node).length = (arena.operands node).length + 1 := by
  rw [Arena.operands, List.length_tail]
  have := List.length_pos_iff.2 h
  omega

/-- What `prepare` allows.  Each form is checked in its own way, and all of them
start with a pass that wants an operand which is there. -/
theorem prepare_eq_ok {arena : Arena} {node : NodeId} {form : SpecialForm} {t : FormTask}
    (h : prepare arena node form = .ok t) :
    t.form = form ∧ t.operandCount = (arena.operands node).length ∧ t.InPass ∧
      ∀ i, t.wanted = some i → 1 ≤ i ∧ i ≤ t.operandCount := by
  cases form with
  | ifForm =>
    simp only [prepare] at h
    split at h
    · rename_i hlen
      obtain rfl := firstPass_eq_ok h
      refine ⟨rfl, rfl, Or.inl ⟨rfl, rfl⟩, ?_⟩
      rintro i hi
      obtain rfl := Option.some.inj hi
      show 1 ≤ 1 ∧ 1 ≤ (arena.operands node).length
      omega
    · cases h
  | lambdaForm =>
    simp only [prepare] at h
    split at h
    · obtain rfl := firstPass_eq_ok h
      simp [FormTask.InPass]
    · cases h
  | defineForm =>
    simp only [prepare] at h
    split at h
    · split at h
      · rename_i hlen
        obtain rfl := firstPass_eq_ok h
        simp [FormTask.InPass, hlen]
      · cases h
    · split at h
      · obtain rfl := firstPass_eq_ok h
        simp [FormTask.InPass]
      · cases h
    · cases h
  | setForm =>
    simp only [prepare] at h
    split at h
    · rename_i hlen
      obtain rfl := firstPass_eq_ok h
      simp [FormTask.InPass, hlen.1]
    · cases h
  | quoteForm =>
    simp only [prepare] at h
    split at h
    · obtain rfl := firstPass_eq_ok h
      simp [FormTask.InPass]
    · cases h
  | andForm | orForm =>
    simp only [prepare] at h
    split at h
    · rename_i hempty
      obtain rfl := firstPass_eq_ok h
      simp_all [FormTask.InPass]
    · rename_i hempty
      obtain rfl := firstPass_eq_ok h
      rw [List.isEmpty_iff, ← List.length_eq_zero_iff] at hempty
      refine ⟨rfl, rfl, Or.inr ⟨Nat.one_pos, rfl⟩, ?_⟩
      rintro i hi
      obtain rfl := Option.some.inj hi
      show 1 ≤ 1 ∧ 1 ≤ (arena.operands node).length
      omega

/-- Forms are refused for their shape alone. -/
theorem eq_malformed_of_prepare {arena : Arena} {node : NodeId} {form : SpecialForm} {e : Error}
    (h : prepare arena node form = .error e) : e = .malformed (arena.render node) := by
  cases form <;> grind [prepare, firstPass, malformed]

/-- A `lambda` or a `define` with less than two operands has no body, and is refused before an
operand is evaluated. -/
theorem prepare_of_length_lt {arena : Arena} {node : NodeId} {form : SpecialForm}
    (hform : form = .lambdaForm ∨ form = .defineForm)
    (hlen : (arena.operands node).length < 2) : prepare arena node form = malformed arena node := by
  have hshort : ¬ 2 ≤ (arena.operands node).length := Nat.not_le.2 hlen
  rcases hform with rfl | rfl
  · simp only [prepare, if_neg hshort]
  · have hne : (arena.operands node).length ≠ 2 := Nat.ne_of_lt hlen
    simp only [prepare, if_neg hshort, if_neg hne]
    split <;> rfl

/-- A `lambda` or a `define` that was prepared has a first operand and a body, so that there is
something to make a procedure of when it is performed. -/
theorem exists_operands_of_prepare {arena : Arena} {node : NodeId} {form : SpecialForm}
    {t : FormTask} (hform : form = .lambdaForm ∨ form = .defineForm)
    (h : prepare arena node form = .ok t) :
    ∃ target first rest, arena.operands node = target :: first :: rest := by
  rcases hoperands : arena.operands node with _ | ⟨target, _ | ⟨first, rest⟩⟩
  · rw [prepare_of_length_lt hform (by simp [hoperands])] at h
    cases h
  · rw [prepare_of_length_lt hform (by simp [hoperands])] at h
    cases h
  · exact ⟨target, first, rest, rfl⟩

/-- A task that was prepared fits. -/
theorem fits_of_prepare {arena : Arena} {node : NodeId} {form : SpecialForm} {t : FormTask}
    (hcompound : arena.children node ≠ []) (h : prepare arena node form = .ok t) :
    t.Fits arena node := by
  obtain ⟨hform, hcount, hpass, hwanted⟩ := prepare_eq_ok h
  refine ⟨?_, ⟨t, hform ▸ h⟩, hpass, fun hi => hwanted _ hi⟩
  rw [length_children hcompound, hcount]

/-- The next pass of `if` wants the branch that the condition chooses, if it is
there. -/
theorem fits_of_performIf {arena : Arena} {node : NodeId} {t next : FormTask} {value : Value}
    (hfits : t.Fits arena node) (hform : t.form = .ifForm)
    (h : performIf t value = .again next) : next.form = t.form ∧ next.Fits arena node := by
  rw [performIf] at h
  split at h
  · simp only [FormStep.again.injEq] at h
    subst h
    refine ⟨rfl, ⟨hfits.count, hfits.prepared, ?_, ?_⟩⟩
    · rw [FormTask.InPass, hform]
      refine Or.inr ⟨rfl, ?_⟩
      cases value.isTruthy <;> simp
      all_goals omega
    · intro i hi
      simp only [Option.ite_none_right_eq_some, Option.some.injEq] at hi
      obtain ⟨hle, rfl⟩ := hi
      refine ⟨?_, hle⟩
      cases value.isTruthy <;> simp
  · cases h

/-- A pass of `and` and `or` that has an operand wants it. -/
theorem FormTask.InPass.wanted_eq {t : FormTask} (h : t.InPass)
    (hform : t.form = .andForm ∨ t.form = .orForm) (hpass : t.pass ≠ 0) :
    t.wanted = some t.pass := by
  rw [FormTask.InPass] at h
  rcases hform with hform | hform <;> rw [hform] at h <;> simp_all

/-- The next pass of `and` and `or` wants the operand after the one before. -/
theorem fits_of_performSequence {arena : Arena} {node : NodeId} {t next : FormTask}
    {value : Value} (hfits : t.Fits arena node) (hform : t.form = .andForm ∨ t.form = .orForm)
    (h : performSequence t value = .again next) : next.form = t.form ∧ next.Fits arena node := by
  rw [performSequence] at h
  split at h
  · cases h
  · rename_i hpass
    generalize (if t.form = .andForm then !value.isTruthy else value.isTruthy) = decided at h
    dsimp only at h
    split at h
    · cases h
    · rename_i hlast
      simp only [FormStep.again.injEq] at h
      subst h
      have hle := hfits.wanted_le (hfits.inPass.wanted_eq hform hpass)
      refine ⟨rfl, ⟨hfits.count, hfits.prepared, ?_, ?_⟩⟩
      · rw [FormTask.InPass]
        rcases hform with hform | hform <;> rw [hform] <;> exact Or.inr ⟨Nat.succ_pos _, rfl⟩
      · intro i hi
        obtain rfl := Option.some.inj hi
        show 1 ≤ t.pass + 1 ∧ t.pass + 1 ≤ t.operandCount
        omega

/-- Only `if`, `and` and `or` have more than one pass. -/
theorem cases_of_perform_again {arena : Arena} {node : NodeId} {t next : FormTask}
    {values : List Value} (h : perform arena node t values = .ok (.again next)) :
    t.form = .ifForm ∧ performIf t (passValue values) = .again next ∨
      (t.form = .andForm ∨ t.form = .orForm) ∧
        performSequence t (passValue values) = .again next := by
  rw [perform] at h
  cases hform : t.form with
  | ifForm =>
    rw [hform] at h
    exact .inl ⟨rfl, Except.ok.inj h⟩
  | andForm | orForm =>
    rw [hform] at h
    exact .inr ⟨by simp, Except.ok.inj h⟩
  | lambdaForm =>
    rw [hform] at h
    simp only [performLambda, malformed] at h
    split at h <;> (try split at h) <;> (try split at h) <;> simp at h
  | defineForm =>
    rw [hform] at h
    simp only [performDefine, malformed] at h
    split at h <;> (try split at h) <;> (try split at h) <;> (try split at h) <;> simp at h
  | setForm =>
    rw [hform] at h
    simp only [performSet] at h
    split at h <;> simp at h
  | quoteForm =>
    rw [hform] at h
    simp only [performQuote] at h
    split at h <;> (try split at h) <;> simp at h

/-- The task of the next pass of a form fits. -/
theorem fits_of_perform_again {arena : Arena} {node : NodeId} {t next : FormTask}
    {values : List Value} (hfits : t.Fits arena node)
    (h : perform arena node t values = .ok (.again next)) :
    next.form = t.form ∧ next.Fits arena node := by
  rcases cases_of_perform_again h with ⟨hform, h⟩ | ⟨hform, h⟩
  · exact fits_of_performIf hfits hform h
  · exact fits_of_performSequence hfits hform h

/-! ## Values -/

/-- The values that a combination has at a position: one for each child before
it that was not passed over. -/
inductive Task.Owns : Task → (position : Nat) → List Value → Prop
  /-- Every child is evaluated, and the operator is no special form. -/
  | call {position : Nat} {values : List Value} (hlen : values.length = position)
    (hoperator : ∀ form, values.getLast? ≠ some (.special form)) : Owns .call position values
  /-- The operand that is wanted is still to come, or there is none. -/
  | before {t : FormTask} {position : Nat} (hpos : 1 ≤ position)
    (hwanted : ∀ i, t.wanted = some i → position ≤ i) :
    Owns (.form t) position [.special t.form]
  /-- The operand that is wanted has been evaluated. -/
  | after {t : FormTask} {position i : Nat} {v : Value} (hwanted : t.wanted = some i)
    (hlt : i < position) : Owns (.form t) position [v, .special t.form]

/-- A special form is past its operator. -/
theorem Task.Owns.one_le {t : FormTask} {position : Nat} {vs : List Value}
    (h : Task.Owns (.form t) position vs) : 1 ≤ position := by
  cases h with
  | before hpos _ => exact hpos
  | after _ hlt => omega

/-- A special form has no other values at the operand that it seeks. -/
theorem Task.Owns.seek {t : FormTask} {position : Nat} {vs : List Value}
    (h : Task.Owns (.form t) position vs) (hle : t.seek position ≤ t.operandCount) :
    Task.Owns (.form t) (t.seek position) vs := by
  rcases t.seek_cases position with ⟨hwanted, hpos⟩ | ⟨hend, -⟩
  · cases h with
    | before hpos' _ =>
      refine .before (by omega) fun i hi => ?_
      rw [hwanted] at hi
      exact Nat.le_of_eq (Option.some.inj hi)
    | after hwanted' hi =>
      rw [hwanted] at hwanted'
      have := Option.some.inj hwanted'
      omega
  · omega

/-- The operator of a special form is the form. -/
theorem Task.Owns.exists_reverse_eq {t : FormTask} {position : Nat} {vs : List Value}
    (h : Task.Owns (.form t) position vs) : ∃ args, vs.reverse = .special t.form :: args := by
  cases h with
  | before _ _ => exact ⟨[], rfl⟩
  | after _ _ => exact ⟨_, rfl⟩

/-- The task belongs to the combination at `node`. -/
def Task.Fits (arena : Arena) (node : NodeId) : Task → Prop
  | .call => True
  | .form t => t.Fits arena node

/-! ## Waiting -/

/-- The levels wait for the value of a node.  Inside of a combination, the node
is the child at the position that the combination has reached. -/
def Awaits (arena : Arena) : NodeId → List Level → Prop
  | _, [.top vs] => vs = []
  | _, .body k vs :: ls => vs = [] ∧ Awaits arena k.returnNode ls
  | node, .call parent position task vs :: ls =>
    (arena.children parent)[position]? = some node ∧ task.skips position = false ∧
      task.Fits arena parent ∧ task.Owns position vs ∧ Awaits arena parent ls
  | _, _ => False

/-- A body that waits has no values yet. -/
theorem Awaits.values_eq_nil {arena : Arena} {node : NodeId} {ls : List Level}
    (h : Awaits arena node ls) {k : Continuation} {vs : List Value}
    (hmem : Level.body k vs ∈ ls) : vs = [] := by
  induction ls generalizing node with
  | nil => simp at hmem
  | cons l ls ih =>
    cases l with
    | top vs' =>
      cases ls with
      | nil => simp at hmem
      | cons l' ls => exact h.elim
    | body k' vs' =>
      rcases List.mem_cons.1 hmem with heq | hmem
      · cases heq
        exact h.1
      · exact ih h.2 hmem
    | call parent position task vs' =>
      rcases List.mem_cons.1 hmem with heq | hmem
      · cases heq
      · exact ih h.2.2.2.2 hmem

/-- Levels around a body wait for the value of the call. -/
theorem Awaits.of_runningBody? {arena : Arena} {node : NodeId} {ls outer : List Level}
    {k : Continuation} (h : Awaits arena node ls) (hbody : runningBody? ls = some (k, outer)) :
    Awaits arena k.returnNode outer := by
  induction ls generalizing node with
  | nil => simp [runningBody?] at hbody
  | cons l ls ih =>
    cases l with
    | top vs => simp [runningBody?] at hbody
    | body k' vs =>
      simp only [runningBody?, Option.ite_none_right_eq_some, Option.some.injEq,
        Prod.mk.injEq] at hbody
      obtain ⟨-, rfl, rfl⟩ := hbody
      exact h.2
    | call parent position task vs =>
      simp only [runningBody?, Option.ite_none_right_eq_some] at hbody
      exact ih h.2.2.2.2 hbody.2

/-! ## Steps -/

section Steps

variable {arena : Arena} (limit : Option Nat) (s : State) (ls : List Level)

theorem step_top (node : NodeId) (vs : List Value) :
    step arena limit (s.withLevels (some node) (.top vs :: ls)) =
      enter arena limit node ((tick s).withLevels (some node) (.top vs :: ls)) := rfl

theorem step_body (node : NodeId) (k : Continuation) (vs : List Value) :
    step arena limit (s.withLevels (some node) (.body k vs :: ls)) =
      enter arena limit node ((tick s).withLevels (some node) (.body k vs :: ls)) := rfl

theorem step_call (node parent : NodeId) (position : Nat) (vs : List Value) :
    step arena limit (s.withLevels (some node) (.call parent position .call vs :: ls)) =
      enter arena limit node
        ((tick s).withLevels (some node) (.call parent position .call vs :: ls)) := rfl

theorem step_top_end (v : Value) :
    step arena limit (s.withLevels none [.top [v]]) =
      .halted (.ok v) ((tick s).withLevels none []) := rfl

theorem step_body_end (k : Continuation) (v : Value) :
    step arena limit (s.withLevels none (.body k [v] :: ls)) =
      match k.remaining with
      | next :: remaining =>
        .running ((tick s).withLevels (some next) (.body { k with remaining } [] :: ls))
      | [] =>
        deliver arena k.returnNode v
          ({ tick s with scope := k.callerScope }.withLevels none ls) :=
  reduce_body arena limit (tick s) none ls k v

theorem step_call_end (parent : NodeId) (position : Nat) (vs : List Value) :
    step arena limit (s.withLevels none (.call parent position .call vs :: ls)) =
      dispatch arena limit
        { node := parent, base := (operandsOf ls).length, position, task := .call } vs.reverse
        ((tick s).withLevels none ls) :=
  reduce_call arena limit (tick s) none ls parent position .call vs

/-- A special form goes to the position that it seeks, and evaluates the operand
there or ends the pass. -/
theorem step_form (hlinks : arena.WellLinked) {parent : NodeId} {t : FormTask}
    (hfits : t.Fits arena parent) {position : Nat} (hpos : 1 ≤ position)
    (hle : position ≤ t.operandCount + 1) (vs : List Value) :
    step arena limit (s.withLevels (arena.children parent)[position]?
        (.call parent position (.form t) vs :: ls)) =
      match (arena.children parent)[t.seek position]? with
      | some child =>
        enter arena limit child
          ((tick s).withLevels (some child) (.call parent (t.seek position) (.form t) vs :: ls))
      | none =>
        dispatch arena limit
          { node := parent, base := (operandsOf ls).length, position := t.seek position,
            task := .form t } vs.reverse ((tick s).withLevels none ls) := by
  have hskip := skip_eq_ok hlinks hfits hpos hle
    (by omega : t.operandCount + 1 ≤ t.operandCount + 1 + position)
  have hunwanted : skipUnwanted arena
      ((tick s).withLevels (arena.children parent)[position]?
        (.call parent position (.form t) vs :: ls)) =
      .ok ((tick s).withLevels (arena.children parent)[t.seek position]?
        (.call parent (t.seek position) (.form t) vs :: ls)) := by
    simp only [skipUnwanted, State.withLevels, framesOf_cons, Level.frame,
      Stack.pop?_ofList_cons, hskip]
    rfl
  rw [step, tick_withLevels, hunwanted]
  cases (arena.children parent)[t.seek position]? with
  | some child => rfl
  | none => exact reduce_call arena limit (tick s) none ls parent (t.seek position) (.form t) vs

end Steps

/-! ## Returning -/

theorem children_ne_nil {arena : Arena} {node child : NodeId} {i : Nat}
    (h : (arena.children node)[i]? = some child) : arena.children node ≠ [] := by
  rintro hnil
  simp [hnil] at h

/-- A child that is not passed over in a special form is the operand that is
wanted, and the form has no other value than its operator. -/
theorem Task.Owns.before_of_child {arena : Arena} {parent node : NodeId} {t : FormTask}
    {position : Nat} {vs : List Value} (howns : Task.Owns (.form t) position vs)
    (hfits : t.Fits arena parent) (hchild : (arena.children parent)[position]? = some node)
    (hskips : t.skips position = false) :
    1 ≤ position ∧ t.wanted = some position ∧ vs = [.special t.form] := by
  have hlt := (List.getElem?_eq_some_iff.1 hchild).1
  have hcount := hfits.count
  cases howns with
  | before hpos hwanted =>
    exact ⟨hpos, FormTask.wanted_of_skips_eq_false hpos (by omega) hskips, rfl⟩
  | @after _ _ i v hwanted hi =>
    have hpos : 1 ≤ position := by omega
    have hw := FormTask.wanted_of_skips_eq_false hpos (by omega) hskips
    rw [hwanted] at hw
    have := Option.some.inj hw
    omega

/-- A form that passes a value on asks for nothing else. -/
theorem perform_of_forwards {arena : Arena} {node : NodeId} {t : FormTask} {v : Value}
    (h : t.forwards = true) : perform arena node t [v] = .ok (.value v) := by
  rw [FormTask.forwards] at h
  rw [perform]
  cases hform : t.form with
  | ifForm =>
    simp only [hform, beq_iff_eq] at h
    simp [performIf, h, passValue]
  | andForm | orForm =>
    simp only [hform, Bool.and_eq_true, decide_eq_true_eq, beq_iff_eq] at h
    have hne : t.operandCount ≠ 0 := by omega
    simp [performSequence, h.2, hne, passValue]
  | lambdaForm | defineForm | setForm | quoteForm => simp [hform] at h

section Returning

variable {arena : Arena} (hlinks : arena.WellLinked) (limit : Option Nat)
  (s : State) (pc : Option NodeId) (ls : List Level)
include hlinks

/-- The operand that is wanted leaves its value, and the form goes on behind it. -/
theorem deliver_operand {parent node : NodeId} {t : FormTask} {position : Nat} {v : Value}
    (hchild : (arena.children parent)[position]? = some node) (hpos : 1 ≤ position) :
    deliver arena node v
        (s.withLevels pc (.call parent position (.form t) [.special t.form] :: ls)) =
      .running (s.withLevels (arena.children parent)[position + 1]?
        (.call parent (position + 1) (.form t) [v, .special t.form] :: ls)) := by
  have hmem := List.mem_of_getElem? hchild
  obtain ⟨n, hn⟩ := Arena.exists_node?_eq_some (Arena.lt_size_of_mem_children hlinks hmem)
  have hnext := Arena.getElem?_children_succ hlinks hchild
  rw [Arena.next?_eq_of_node?_eq_some hn] at hnext
  rw [deliver_call arena s pc ls hn (Or.inl (by omega)), ← hnext]

/-- Behind the operand that is wanted, a pass of a special form ends. -/
theorem step_operand {parent node : NodeId} {t : FormTask} {position : Nat} {v : Value}
    (hfits : t.Fits arena parent) (hchild : (arena.children parent)[position]? = some node)
    (hwanted : t.wanted = some position) :
    step arena limit (s.withLevels (arena.children parent)[position + 1]?
        (.call parent (position + 1) (.form t) [v, .special t.form] :: ls)) =
      callForm arena
        { node := parent, base := (operandsOf ls).length, position := t.operandCount + 1,
          task := .form t }
        t.form [v] ((tick s).withLevels none ls) := by
  have hlt := (List.getElem?_eq_some_iff.1 hchild).1
  have hcount := hfits.count
  have hseek : t.seek (position + 1) = t.operandCount + 1 := by
    rcases t.seek_cases (position + 1) with ⟨hw, hle⟩ | ⟨hend, -⟩
    · rw [hwanted] at hw
      have := Option.some.inj hw
      omega
    · exact hend
  have hend : (arena.children parent)[t.operandCount + 1]? = none := by
    rw [List.getElem?_eq_none_iff]
    omega
  have hstep := step_form limit s ls hlinks hfits (by omega : 1 ≤ position + 1) (by omega)
    [v, .special t.form]
  rwa [hseek, hend] at hstep

/-- After the operand that is wanted, a pass of a special form ends. -/
theorem leads_of_operand {parent node : NodeId} {t : FormTask} {position : Nat} {v : Value}
    (hfits : t.Fits arena parent) (hchild : (arena.children parent)[position]? = some node)
    (hpos : 1 ≤ position) (hwanted : t.wanted = some position) :
    ∃ position', Leads arena limit
      (deliver arena node v
        (s.withLevels pc (.call parent position (.form t) [.special t.form] :: ls)))
      (callForm arena
        { node := parent, base := (operandsOf ls).length, position := position', task := .form t }
        t.form [v] ((tick s).withLevels none ls)) := by
  rw [deliver_operand hlinks s pc ls hchild hpos]
  exact ⟨_, .of_step_eq (step_operand hlinks limit s ls hfits hchild hwanted)⟩

/-- A value that is delivered to a form which passes it on is delivered to the
levels around the form. -/
theorem leads_of_forwards {parent node : NodeId} {t : FormTask} {position : Nat} {v : Value}
    (hfits : t.Fits arena parent) (hchild : (arena.children parent)[position]? = some node)
    (hpos : 1 ≤ position) (hwanted : t.wanted = some position) (hforwards : t.forwards = true) :
    Leads arena limit
      (deliver arena node v
        (s.withLevels pc (.call parent position (.form t) [.special t.form] :: ls)))
      (deliver arena parent v ((tick s).withLevels none ls)) := by
  obtain ⟨position', hleads⟩ :=
    leads_of_operand hlinks limit s pc ls (v := v) hfits hchild hpos hwanted
  rw [callForm_form, perform_of_forwards hforwards] at hleads
  exact hleads

end Returning

end StackScheme.Machine
