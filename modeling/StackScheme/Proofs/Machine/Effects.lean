import StackScheme.Proofs.Machine.Levels

/-!
# Effects on the levels

Evaluating a node and ending a combination have few effects on the levels: the
evaluation fails, the levels get a value, or a combination is put inside of them.
Which effect it is depends on the scope, the store and the sink, and neither on the
levels nor on the counters.

* `LevelEffect.act` is what an effect does.
* `deliver_call_cases` is what becomes of a combination that gets a value.
* `exists_enter_eq_act` and `exists_dispatch_eq_act` say that `enter` and `dispatch`
  have an effect and do nothing else to the levels.  Closures are the exception, since
  how they are applied depends on the levels.
-/

namespace StackScheme.Machine

/-- What is done to the levels on behalf of a node. -/
inductive LevelEffect where
  /-- The evaluation ends with an error. -/
  | fail (e : Error)
  /-- The levels get the value of the node. -/
  | value (v : Value)
  /-- The node is a combination, and its operator is evaluated. -/
  | opens (operator : NodeId)
  /-- The node is a special form that goes through its operands once more. -/
  | again (form : SpecialForm) (t : FormTask)

/-- Has an effect on the levels `ls` on behalf of `node`. -/
def LevelEffect.act (arena : Arena) (limit : Option Nat) (node : NodeId) (s : State)
    (pc : Option NodeId) (ls : List Level) : LevelEffect → Progress
  | fail e => (s.withLevels pc ls).fail e
  | value v => deliver arena node v (s.withLevels pc ls)
  | opens operator =>
    match (s.withLevels pc ls).reachedLimit? limit with
    | some l => (s.withLevels pc ls).fail (.tooDeep l)
    | none => .running (s.withLevels (some operator) (.call node 0 .call [] :: ls))
  | again form t =>
    .running (s.withLevels (arena.operands node).head?
      (.call node 1 (.form t) [.special form] :: ls))

variable (arena : Arena) (node : NodeId) (s : State)

/-- A combination that gets a value refuses it or moves on with it, whatever the levels
around it are. -/
theorem deliver_call_cases (v : Value) (parent : NodeId) (position : Nat) (task : Task)
    (vs : List Value) :
    (∃ e, ∀ s pc ls,
        deliver arena node v (State.withLevels s pc (.call parent position task vs :: ls)) =
          (s.withLevels pc (.call parent position task vs :: ls)).fail e) ∨
      ∃ pc' position' task', ∀ s pc ls,
        deliver arena node v (State.withLevels s pc (.call parent position task vs :: ls)) =
          .running (s.withLevels pc' (.call parent position' task' (v :: vs) :: ls)) := by
  cases hm : arena.node? node with
  | none =>
    refine .inl ⟨.internal .danglingNode, fun s pc ls => ?_⟩
    simp only [deliver, State.withLevels, framesOf_cons, Level.frame, Stack.pop?_ofList_cons, hm]
    rfl
  | some m =>
    by_cases hv : position ≠ 0 ∨ ∀ form, v ≠ .special form
    · exact .inr ⟨m.next, position + 1, task, fun s pc ls => deliver_call arena s pc ls hm hv⟩
    · obtain ⟨hzero, hspecial⟩ := not_or.1 hv
      obtain rfl : position = 0 := Decidable.byContradiction hzero
      obtain ⟨form, rfl⟩ : ∃ form, v = .special form := by
        cases v with
        | special form => exact ⟨form, rfl⟩
        | _ =>
          refine absurd (fun form h => ?_) hspecial
          cases h
      cases hprepare : prepare arena parent form with
      | error e =>
        refine .inl ⟨e, fun s pc ls => ?_⟩
        rw [deliver_special arena s pc ls hm, hprepare]
      | ok t =>
        refine .inr ⟨m.next, 1, .form t, fun s pc ls => ?_⟩
        rw [deliver_special arena s pc ls hm, hprepare]

/-- Evaluating a node has an effect that is the same on all levels. -/
theorem exists_enter_eq_act :
    ∃ effect : LevelEffect, ∀ stats limit pc ls,
      enter arena limit node ({ s with stats }.withLevels pc ls) =
        effect.act arena limit node { s with stats } pc ls := by
  unfold enter
  rcases arena.node? node with _ | ⟨shape, next⟩
  · exact ⟨.fail (.internal .danglingNode), fun _ _ _ _ => rfl⟩
  cases shape with
  | empty => exact ⟨.value .unspecified, fun _ _ _ _ => rfl⟩
  | compound operator => exact ⟨.opens operator, fun _ _ _ _ => rfl⟩
  | atom a =>
    cases a with
    | symbol name =>
      cases hlookup : s.store.lookup? s.scope name with
      | some v =>
        refine ⟨.value v, fun stats limit pc ls => ?_⟩
        simp only [State.withLevels, hlookup]
        rfl
      | none =>
        refine ⟨.fail (.unbound name), fun stats limit pc ls => ?_⟩
        simp only [State.withLevels, hlookup]
        rfl
    | _ => exact ⟨.value _, fun _ _ _ _ => rfl⟩

theorem exists_callBuiltin_eq_act (b : Builtin) (args : List Value) :
    ∃ (effect : LevelEffect) (sink : Sink), ∀ stats limit ls,
      callBuiltin arena node b args ({ s with stats }.withLevels none ls) =
        effect.act arena limit node { s with stats, sink } none ls := by
  unfold callBuiltin
  rcases b.call args with e | ⟨v | text⟩
  · exact ⟨.fail e, s.sink, fun _ _ _ => rfl⟩
  · exact ⟨.value v, s.sink, fun _ _ _ => rfl⟩
  · unfold writeText
    rcases hwrite : s.sink.write text with ⟨_ | reason, sink⟩
    · refine ⟨.value .unspecified, sink, fun stats limit ls => ?_⟩
      simp only [State.withLevels, hwrite]
      rfl
    · refine ⟨.fail (.output reason), sink, fun stats limit ls => ?_⟩
      simp only [State.withLevels, hwrite]
      rfl

theorem exists_performStep_eq_act (position : Nat) (task : Task) (form : SpecialForm)
    (next : FormStep) :
    ∃ (effect : LevelEffect) (store : Store), ∀ stats limit ls,
      performStep arena { node, base := (operandsOf ls).length, position, task } form next
          ({ s with stats }.withLevels none ls) =
        effect.act arena limit node { s with stats, store } none ls := by
  cases next with
  | value v => exact ⟨.value v, s.store, fun _ _ _ => rfl⟩
  | bind name v => exact ⟨.value .unspecified, s.store.bind s.scope name v, fun _ _ _ => rfl⟩
  | assign name v =>
    unfold performStep
    cases hholder : s.store.holder? s.scope name with
    | some holder =>
      refine ⟨.value .unspecified, s.store.bind holder name v, fun stats limit ls => ?_⟩
      simp only [State.withLevels, hholder]
      rfl
    | none =>
      refine ⟨.fail (.unbound name), s.store, fun stats limit ls => ?_⟩
      simp only [State.withLevels, hholder]
      rfl
  | lambda parameters first rest =>
    exact ⟨.value (.closure (newClosure s none parameters first rest)), s.store.newSerial,
      fun _ _ _ => rfl⟩
  | procedure name parameters first rest =>
    let c := newClosure s (some name) parameters first rest
    exact ⟨.value .unspecified, s.store.newSerial.bind s.scope name (.closure c),
      fun _ _ _ => rfl⟩
  | again t => exact ⟨.again form t, s.store, fun _ _ _ => rfl⟩

/-- Ending a combination whose operator is no closure has an effect that is the same
on all levels. -/
theorem exists_dispatch_eq_act (position : Nat) (task : Task) {values : List Value}
    (hvalues : ∀ c args, values ≠ .closure c :: args) :
    ∃ (effect : LevelEffect) (store : Store) (sink : Sink), ∀ stats limit ls,
      dispatch arena limit { node, base := (operandsOf ls).length, position, task } values
          ({ s with stats }.withLevels none ls) =
        effect.act arena limit node { s with stats, store, sink } none ls := by
  rcases values with _ | ⟨operator, args⟩
  · exact ⟨.fail (.internal .noOperator), s.store, s.sink, fun _ _ _ => rfl⟩
  cases operator with
  | builtin b =>
    obtain ⟨effect, sink, heffect⟩ := exists_callBuiltin_eq_act arena node s b args
    exact ⟨effect, s.store, sink, heffect⟩
  | closure c => exact absurd rfl (hvalues c args)
  | special form =>
    cases task with
    | call => exact ⟨.fail (.internal .unpreparedForm), s.store, s.sink, fun _ _ _ => rfl⟩
    | form t =>
      simp only [dispatch, callForm_form]
      cases perform arena node t args with
      | error e => exact ⟨.fail e, s.store, s.sink, fun _ _ _ => rfl⟩
      | ok next =>
        obtain ⟨effect, store, heffect⟩ :=
          exists_performStep_eq_act arena node s position (.form t) form next
        exact ⟨effect, store, s.sink, heffect⟩
  | _ =>
    exact ⟨.fail (.notApplicable _ (arena.render node)), s.store, s.sink, fun _ _ _ => rfl⟩

end StackScheme.Machine
