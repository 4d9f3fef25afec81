import StackScheme.Proofs.Machine.Deliveries
import StackScheme.Proofs.Machine.Dispatches

/-!
# Alignment of frames and operands

Three registers have to agree about each combination that is part way through: the position
in its frame, the node that is evaluated in it, and the values on the operand stack.  They
are changed in different places, and for all combinations at once.

* Registers.  `State.evaluatedBelow` and `State.valuesBelow` say what belongs to the frame
  below given frames.  `CallFrame.Aligned` says that these agree with the frame.
* Frames.  `exists_levels_of_framesOf` finds the level of a frame, and `Laid.below` the
  combination whose value it waits for.
* Ends.  `Laid.dispatch?_cases` is what the levels look like when an operator is applied.
* Runs.  `State.Aligned` is about all frames of a state, and `operands_aligned` about all
  states of a run.
-/

namespace StackScheme.Machine

/-! ## Registers -/

namespace State

/-- What is evaluated in the frame below the frames `above`: the node that the machine is
at, the combination of the next frame, or the combination that the next body returns to. -/
def evaluatedBelow (s : State) (above : List Frame) : Option NodeId :=
  match above.getLast? with
  | none => s.pc
  | some (.call f) => some f.node
  | some (.body _) =>
    s.continuations.items[above.countP Frame.isBody - 1]?.map Continuation.returnNode
  | some .topLevel => none

/-- The height of the operand stack up to which it belongs to the frame below the frames
`above`. -/
def heightBelow (s : State) (above : List Frame) : Nat :=
  match above.getLast? with
  | some (.call f) => f.base
  | some (.body base) => base
  | _ => s.operands.size

/-- The values of the frame `f` below the frames `above`, the lowest first. -/
def valuesBelow (s : State) (above : List Frame) (f : CallFrame) : List Value :=
  (s.operands.items.reverse.take (s.heightBelow above)).drop f.base

end State

/-- A combination agrees with the node that is evaluated in it and with its values. -/
structure CallFrame.Aligned (arena : Arena) (given : Nat → Value → Prop)
    (evaluated : Option NodeId) (vs : List Value) (f : CallFrame) : Prop where
  /-- The node that is evaluated is the child at the position. -/
  child : evaluated = (arena.children f.node)[f.position]?
  /-- There is no such node exactly at the end of the combination. -/
  atEnd : evaluated = none ↔ f.position = (arena.children f.node).length
  position_le : f.position ≤ (arena.children f.node).length
  operator : f.task.skips 0 = false
  /-- There is one value from each child before the position that is not passed over. -/
  values : List.Forall₂ given (f.task.positions f.position) vs
  /-- The frame knows of a special form as soon as its operator is there. -/
  form (form : SpecialForm) :
    (∃ t, f.task = .form t ∧ t.form = form) ↔ vs.head? = some (.special form)
  count {t : FormTask} (h : f.task = .form t) :
    (arena.children f.node).length = t.operandCount + 1
  /-- A conditional evaluates its condition, and then at most the branch that the condition
  has chosen. -/
  ifForm {t : FormTask} (h : f.task = .form t) (hform : t.form = .ifForm) :
    t.pass = 0 ∧ f.task.positions (arena.children f.node).length = [0, 1] ∨
      t.pass = 1 ∧ ∃ condition, given 1 condition ∧
        f.task.positions (arena.children f.node).length = 0 :: (t.branch? condition).toList
  /-- `and` and `or` evaluate the operand that their pass is about. -/
  sequence {t : FormTask} (h : f.task = .form t) (hform : t.form = .andForm ∨ t.form = .orForm)
    (hpass : 1 ≤ t.pass) : f.task.positions (arena.children f.node).length = [0, t.pass]

/-- A task with the values that it should have agrees with them. -/
theorem CallFrame.aligned {arena : Arena} {given : Nat → Value → Prop}
    {evaluated : Option NodeId} {vs : List Value} {f : CallFrame}
    (hchild : evaluated = (arena.children f.node)[f.position]?)
    (hle : f.position ≤ (arena.children f.node).length) (hfits : f.task.Fits arena f.node)
    (howns : f.task.Owns f.position vs)
    (hvalues : List.Forall₂ given (f.task.positions f.position) vs.reverse)
    (hchosen : f.task.Chosen given) : f.Aligned arena given evaluated vs.reverse := by
  obtain ⟨node, base, position, task⟩ := f
  have hend : evaluated = none ↔ position = (arena.children node).length := by
    rw [hchild, List.getElem?_eq_none_iff]
    exact ⟨Nat.le_antisymm hle, fun h => Nat.le_of_eq h.symm⟩
  cases task with
  | call =>
    refine ⟨hchild, hend, hle, rfl, hvalues, fun form => ?_, nofun, nofun, nofun⟩
    cases howns with
    | call _ hoperator =>
      rw [List.head?_reverse]
      exact ⟨fun ⟨_, h, _⟩ => (nomatch h), fun h => (hoperator form h).elim⟩
  | form t =>
    have hfits : t.Fits arena node := hfits
    have hpositions := FormTask.positions_end hfits
    obtain ⟨args, hargs⟩ := howns.exists_reverse_eq
    refine ⟨hchild, hend, hle, (Task.form t).skips_zero, hvalues, fun form => ?_, ?_, ?_, ?_⟩
    · rw [hargs]
      simp
    · rintro _ ⟨⟩
      exact hfits.count
    · rintro _ ⟨⟩ hform
      have hin := hfits.inPass
      rw [FormTask.InPass, hform] at hin
      rcases hin with ⟨hpass, hwanted⟩ | ⟨hpass, -⟩
      · exact .inl ⟨hpass, by rw [hpositions, hwanted]; rfl⟩
      · obtain ⟨condition, hgiven, hwanted⟩ := hchosen hform (by omega)
        exact .inr ⟨hpass, condition, hgiven, by rw [hpositions, hwanted]⟩
    · rintro _ ⟨⟩ hform hpass
      rw [hpositions, hfits.inPass.wanted_eq hform (by omega)]
      rfl

/-! ## Frames -/

/-- A frame is the frame of a level, and the frames above it are those of the levels inside
of that one. -/
theorem exists_levels_of_framesOf {ls : List Level} {above below : List Frame} {f : CallFrame}
    (h : framesOf ls = above ++ .call f :: below) :
    ∃ inner vs outer, ls = inner ++ .call f.node f.position f.task vs :: outer ∧
      below = framesOf outer ∧ f.base = (operandsOf outer).length ∧
      above.countP Frame.isBody = (continuationsOf inner).length ∧
      above.getLast? =
        inner.getLast?.map (Level.frame (vs.length + (operandsOf outer).length)) := by
  induction ls generalizing above with
  | nil => simp [framesOf] at h
  | cons l ls ih =>
    rw [framesOf_cons] at h
    cases above with
    | nil =>
      obtain ⟨hframe, rfl⟩ := List.cons.inj h
      cases l with
      | call node position task vs =>
        cases hframe
        exact ⟨[], vs, ls, rfl, rfl, rfl, rfl, rfl⟩
      | _ => cases hframe
    | cons a above =>
      obtain ⟨rfl, hrest⟩ := List.cons.inj h
      obtain ⟨inner, vs, outer, rfl, hbelow, hbase, hcount, hlast⟩ := ih hrest
      refine ⟨l :: inner, vs, outer, rfl, hbelow, hbase, ?_, ?_⟩
      · cases l with
        | body k us => simp [Level.frame, List.countP_cons, Frame.isBody, hcount]
        | _ => simp [Level.frame, Frame.isBody, hcount]
      · rw [List.getLast?_cons, List.getLast?_cons, hlast]
        cases hinner : inner.getLast? with
        | none =>
          obtain rfl := List.getLast?_eq_none_iff.1 hinner
          simp [Level.values]
        | some l' => rfl

/-- The combination whose value the levels around a level wait for. -/
def Level.awaited? : Level → Option NodeId
  | .call node _ _ _ => some node
  | .body k _ => some k.returnNode
  | .top _ => none

section Waiting

variable {arena : Arena} {init outer ls : List Level} {l l' : Level}

theorem Awaits.tail {node : NodeId} (h : Awaits arena node (l :: ls)) (hls : ls ≠ []) :
    ∃ m, l.awaited? = some m ∧ Awaits arena m ls := by
  cases l with
  | call parent position task vs => exact ⟨parent, rfl, h.2.2.2.2⟩
  | body k vs => exact ⟨k.returnNode, rfl, h.2⟩
  | top vs =>
    cases ls with
    | nil => exact absurd rfl hls
    | cons _ _ => exact h.elim

theorem Laid.tail {pc : Option NodeId} (h : Laid arena pc (l :: ls)) (hls : ls ≠ []) :
    ∃ m, l.awaited? = some m ∧ Awaits arena m ls := by
  cases l with
  | call parent position task vs => exact ⟨parent, rfl, h.2.2.2.2⟩
  | body k vs => exact ⟨k.returnNode, rfl, h.2⟩
  | top vs =>
    cases ls with
    | nil => exact absurd rfl hls
    | cons _ _ => exact h.elim

/-- Each level waits for the value of the level right inside of it. -/
theorem Awaits.below {node : NodeId} (h : Awaits arena node (init ++ l :: l' :: outer)) :
    ∃ m, l.awaited? = some m ∧ Awaits arena m (l' :: outer) := by
  induction init generalizing node with
  | nil => exact h.tail (by simp)
  | cons a init ih =>
    obtain ⟨m, -, hrest⟩ := h.tail (by simp)
    exact ih hrest

/-- A level is the innermost one, or waits for the value of the level right inside of it. -/
theorem Laid.below {pc : Option NodeId} {inner : List Level}
    (h : Laid arena pc (inner ++ l' :: outer)) :
    inner = [] ∧ Laid arena pc (l' :: outer) ∨
      ∃ init l m, inner = init ++ [l] ∧ l.awaited? = some m ∧ Awaits arena m (l' :: outer) := by
  rcases List.eq_nil_or_concat inner with rfl | ⟨init, l, rfl⟩
  · exact .inl ⟨rfl, h⟩
  rw [List.concat_eq_append] at h ⊢
  rw [List.append_assoc, List.singleton_append] at h
  refine .inr ⟨init, l, ?_⟩
  cases init with
  | nil =>
    obtain ⟨m, hm, hawaits⟩ := h.tail (by simp)
    exact ⟨m, rfl, hm, hawaits⟩
  | cons a init =>
    obtain ⟨_, -, hrest⟩ := h.tail (by simp)
    obtain ⟨m, hm, hawaits⟩ := hrest.below
    exact ⟨m, rfl, hm, hawaits⟩

end Waiting

section Registers

variable {arena : Arena} {s : State} {pc : Option NodeId} {inner outer : List Level}
  {node : NodeId} {position : Nat} {task : Task} {vs : List Value} {above : List Frame}

/-- The values of a combination lie between the bases of its frame and of the next one. -/
theorem valuesBelow_withLevels {f : CallFrame} (hbase : f.base = (operandsOf outer).length)
    (hheight : (s.withLevels pc (inner ++ .call node position task vs :: outer)).heightBelow above =
      vs.length + (operandsOf outer).length) :
    (s.withLevels pc (inner ++ .call node position task vs :: outer)).valuesBelow above f =
      vs.reverse := by
  have hitems : (operandsOf (inner ++ .call node position task vs :: outer)).reverse =
      (operandsOf outer).reverse ++ vs.reverse ++ (operandsOf inner).reverse := by
    simp [operandsOf, Level.values]
  rw [State.valuesBelow, hheight, hbase]
  simp only [State.withLevels, Stack.items_ofList, hitems]
  rw [List.take_left' (by simp [Nat.add_comm]), List.drop_left' (by simp)]

/-- What is evaluated right outside of a level is what the level is about. -/
theorem evaluatedBelow_withLevels {init : List Level} {l : Level} {height : Nat}
    (hcount : above.countP Frame.isBody = (continuationsOf (init ++ [l])).length)
    (hlast : above.getLast? = some (l.frame height)) :
    (s.withLevels pc (init ++ l :: outer)).evaluatedBelow above = l.awaited? := by
  rw [State.evaluatedBelow, hlast]
  cases l with
  | top us => rfl
  | call parent i task' us => rfl
  | body k us =>
    have hk : (continuationsOf (init ++ .body k us :: outer))[
        (continuationsOf (init ++ [.body k us])).length - 1]? = some k := by
      simp [continuationsOf, Level.continuation?]
    dsimp only [Level.frame, State.withLevels, Stack.items_ofList]
    rw [hcount, hk]
    rfl

/-- The registers agree with the levels about what belongs to a combination. -/
theorem below_withLevels
    (hlaid : Laid arena pc (inner ++ .call node position task vs :: outer))
    (hcount : above.countP Frame.isBody = (continuationsOf inner).length)
    (hlast : above.getLast? =
      inner.getLast?.map (Level.frame (vs.length + (operandsOf outer).length))) :
    let s' := s.withLevels pc (inner ++ .call node position task vs :: outer)
    s'.heightBelow above = vs.length + (operandsOf outer).length ∧
      (above = [] ∨ (s'.evaluatedBelow above).isSome) ∧
      s'.evaluatedBelow above = (arena.children node)[position]? ∧
      position ≤ (arena.children node).length ∧ task.Fits arena node ∧ task.Owns position vs := by
  rcases hlaid.below with ⟨rfl, ⟨hpc, hle⟩, -, hfits, howns, -⟩ |
    ⟨init, l, m, rfl, hm, hchild, -, hfits, howns, -⟩
  · obtain rfl := List.getLast?_eq_none_iff.1 hlast
    exact ⟨by simp [State.heightBelow, State.withLevels, Level.values], .inl rfl, hpc, hle, hfits,
      howns⟩
  · rw [List.getLast?_concat, Option.map_some] at hlast
    have hlt := (List.getElem?_eq_some_iff.1 hchild).1
    have hevaluated : (s.withLevels pc (init ++ [l] ++ .call node position task vs :: outer)
        ).evaluatedBelow above = some m := by
      rw [List.append_assoc, List.singleton_append, evaluatedBelow_withLevels hcount hlast, hm]
    refine ⟨?_, .inr ?_, ?_, Nat.le_of_lt hlt, hfits, howns⟩
    · rw [State.heightBelow, hlast]
      cases l with
      | top us => cases hm
      | _ => rfl
    · rw [hevaluated, Option.isSome_some]
    · rw [hevaluated, hchild]

end Registers

/-! ## Ends -/

section Ends

variable {arena : Arena} {s : State} {pc : Option NodeId} {ls : List Level} {node : NodeId}
  {position : Nat} {vs : List Value} {d : Dispatch}

/-- An ordinary combination ends when there is no child left. -/
theorem dispatch?_call_end :
    dispatch? arena (s.withLevels none (.call node position .call vs :: ls)) =
      some {
        frame := { node, base := (operandsOf ls).length, position }
        values := vs.reverse
        state := (tick s).withLevels none ls } := by
  simp only [dispatch?, skipUnwanted, tick, State.withLevels, framesOf_cons, Level.frame,
    Stack.pop?_ofList_cons, splitOff?_operandsOf, Level.values, Option.map_some]
  rfl

/-- The end of a special form has all values of the form. -/
theorem values_of_dispatch?_form {t : FormTask}
    (h : dispatch? arena (s.withLevels pc (.call node position (.form t) vs :: ls)) = some d) :
    d.values = vs.reverse := by
  simp only [dispatch?, skipUnwanted, tick, State.withLevels, framesOf_cons, Level.frame,
    Stack.pop?_ofList_cons] at h
  cases hskip : skip arena (.form t) (t.operandCount + 1) pc position with
  | error fault => simp [hskip] at h
  | ok found =>
    obtain ⟨pc', position'⟩ := found
    cases pc' with
    | some child => simp [hskip] at h
    | none =>
      simp only [hskip, Stack.pop?_push, splitOff?_operandsOf, Level.values, Option.map_some,
        Option.some.injEq] at h
      rw [← h]

/-- An operator that is no special form is applied at the end of an ordinary combination. -/
theorem Laid.dispatch?_cases (hlaid : Laid arena pc ls) {operator : Value} {args : List Value}
    (h : dispatch? arena (s.withLevels pc ls) = some d) (hvalues : d.values = operator :: args)
    (hoperator : ∀ form, operator ≠ .special form) :
    ∃ outer, ls = .call d.frame.node (arena.children d.frame.node).length .call
        d.values.reverse :: outer ∧
      d.frame.base = (operandsOf outer).length ∧ d.state = (tick s).withLevels none outer := by
  match ls, hlaid with
  | [.top vs], _ => cases pc <;> cases h
  | .body k vs :: outer, _ => cases pc <;> cases h
  | .call node position .call vs :: outer, ⟨⟨hpc, hle⟩, _⟩ =>
    cases pc with
    | some child => cases h
    | none =>
      have hend := List.getElem?_eq_none_iff.1 hpc.symm
      obtain rfl : position = (arena.children node).length := Nat.le_antisymm hle hend
      rw [dispatch?_call_end, Option.some.injEq] at h
      subst h
      exact ⟨outer, by simp, rfl, rfl⟩
  | .call node position (.form t) vs :: outer, ⟨_, _, _, howns, _⟩ =>
    obtain ⟨args', hargs⟩ := howns.exists_reverse_eq
    rw [values_of_dispatch?_form h, hargs, List.cons.injEq] at hvalues
    exact absurd hvalues.1.symm (hoperator t.form)

end Ends

/-! ## Runs -/

/-- Each combination of a state of a run agrees with the node that is evaluated in it and with
its values. -/
def State.Aligned (arena : Arena) (limit : Option Nat) (start : Progress) (s : State) : Prop :=
  ∀ above f below, s.frames.items = above ++ .call f :: below →
    (above = [] ∨ (s.evaluatedBelow above).isSome) ∧ f.base ≤ s.heightBelow above ∧
      f.Aligned arena (Delivered arena limit start s f.node f.base below)
        (s.evaluatedBelow above) (s.valuesBelow above f)

theorem State.aligned {arena : Arena} {limit : Option Nat} {start : Progress} {s : State}
    {pc : Option NodeId} {ls : List Level} (hs : s = s.withLevels pc ls)
    (hlaid : Laid arena pc ls) (htraced : Traced (GivenAt arena limit start s) ls) :
    s.Aligned arena limit start := by
  intro above f below hframes
  rw [show s.frames.items = framesOf ls from congrArg (·.frames.items) hs] at hframes
  obtain ⟨inner, vs, outer, rfl, rfl, hbase, hcount, hlast⟩ := exists_levels_of_framesOf hframes
  obtain ⟨hheight, hwaits, hchild, hle, hfits, howns⟩ :=
    below_withLevels (s := s) hlaid hcount hlast
  have hvs := valuesBelow_withLevels (s := s) hbase hheight
  rw [← hs] at hheight hwaits hchild hvs
  obtain ⟨hvalues, hchosen, -⟩ := htraced.below
  refine ⟨hwaits, by omega, ?_⟩
  rw [GivenAt, ← hbase] at hvalues hchosen
  rw [hvs]
  exact CallFrame.aligned hchild hle hfits howns hvalues hchosen

/-- The position of a frame, the node that is evaluated and the operand stack agree in each
state of a run, for all combinations.  So an operator that is applied has got the value of
each operand once, and in order. -/
theorem operands_aligned {arena : Arena} (hgrown : arena.Grown) {limit : Option Nat}
    {store : Store} {sink : Sink} {root : NodeId} {s : State}
    (hs : Leads arena limit (.running (.initial store sink root)) (.running s)) :
    s.Aligned arena limit (.running (.initial store sink root)) ∧
      ∀ d operator args, dispatch? arena s = some d → d.values = operator :: args →
        (∀ form, operator ≠ .special form) →
        step arena limit s = dispatch arena limit d.frame (operator :: args) d.state ∧
          args.length = (arena.operands d.frame.node).length ∧
          List.Forall₂
            (Delivered arena limit (.running (.initial store sink root)) s d.frame.node
              d.frame.base d.state.frames.items)
            (List.range' 1 (arena.operands d.frame.node).length) args := by
  obtain ⟨pc, ls, hlevels, hlaid, htraced⟩ :=
    (isTraced_initial store sink root).of_leads hgrown.wellLinked (.refl _) hs
  refine ⟨State.aligned hlevels hlaid htraced, fun d operator args hd hvalues hoperator => ?_⟩
  have hstep := step_eq_of_dispatch? hd limit
  rw [hvalues] at hstep
  rw [hlevels] at hd
  obtain ⟨outer, rfl, hbase, hstate⟩ := hlaid.dispatch?_cases hd hvalues hoperator
  have hcompound := hlaid.2.1
  obtain ⟨hgiven, -⟩ := htraced
  rw [List.reverse_reverse, hvalues, Task.positions_call, length_children hcompound,
    List.range_eq_range', List.range'_succ, List.forall₂_cons] at hgiven
  have hframes : d.state.frames.items = framesOf outer := by rw [hstate]; rfl
  rw [hframes, hbase]
  exact ⟨hstep, by simpa using hgiven.2.length_eq.symm, hgiven.2⟩

/-- In `(if (< 1 2) 3 4)`, the comparison gets both of its operands while the conditional
waits for the value of its condition. -/
theorem operands_aligned_condition :
    ∃ (arena : Arena) (s : State) (d : Dispatch),
      Leads arena none (.running (.initial .initial .accepting 7)) (.running s) ∧
        s.frames.items = [.call { node := 4, base := 1, position := 3 },
          .call {
            node := 7
            base := 0
            position := 1
            task := .form { form := .ifForm, pass := 0, wanted := some 1, operandCount := 3 } },
          .topLevel] ∧
        s.Aligned arena none (.running (.initial .initial .accepting 7)) ∧
        dispatch? arena s = some d ∧ d.frame = { node := 4, base := 1, position := 3 } ∧
        d.values = [.builtin (.compare .less), .integer 1, .integer 2] ∧
        List.Forall₂ (Delivered arena none (.running (.initial .initial .accepting 7)) s 4 1
          d.state.frames.items) [1, 2] [.integer 1, .integer 2] := by
  let reader : Reader := ⟨[.opening, .word "if", .opening, .word "<", .word "1", .word "2",
    .closing, .word "3", .word "4", .closing]⟩
  have hgrown : (reader.read {}).arena.Grown := .read reader .empty
  have hrun : ∃ s d, (Progress.next (step (reader.read {}).arena none))^[6]
        (.running (.initial .initial .accepting 7)) = .running s ∧
      s.frames.items = [.call { node := 4, base := 1, position := 3 },
          .call {
            node := 7
            base := 0
            position := 1
            task := .form { form := .ifForm, pass := 0, wanted := some 1, operandCount := 3 } },
          .topLevel] ∧
      dispatch? (reader.read {}).arena s = some d ∧
      d.frame = { node := 4, base := 1, position := 3 } ∧
      d.values = [.builtin (.compare .less), .integer 1, .integer 2] :=
    ⟨_, _, rfl, rfl, rfl, rfl, rfl⟩
  obtain ⟨s, d, hiterate, hframes, hd, hframe, hvalues⟩ := hrun
  have hleads := leads_iterate_next (reader.read {}).arena none 6
    (.running (.initial .initial .accepting 7))
  rw [hiterate] at hleads
  obtain ⟨haligned, hends⟩ := operands_aligned hgrown hleads
  have hargs := (hends d _ _ hd hvalues nofun).2.2
  rw [hframe] at hargs
  exact ⟨_, s, d, hleads, hframes, haligned, hd, hframe, hvalues, hargs⟩

end StackScheme.Machine
