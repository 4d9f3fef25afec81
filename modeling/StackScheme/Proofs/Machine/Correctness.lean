import StackScheme.Proofs.Machine.FormSimulation

/-!
# The machine computes what the evaluator computes

The machine ends with an outcome, a store and a sink if and only if the recursive
evaluator does.

* Applying.  A builtin delivers its value, and a procedure runs its body on a
  level of its own or, in tail position, on the level of the running body.
* `simulates_eval` is the induction on the fuel: every expression is simulated,
  on whatever levels it is evaluated.
* `run_iff_eval` is the result for whole runs.  The evaluator cannot have an
  outcome that the machine has not, and if it has none for a number of steps in
  which the machine ends, this is against `simulates_eval`.
-/

namespace StackScheme.Machine

open Evaluator

variable {arena : Arena} {n : Nat}

/-! ## Applying -/

section Applying

variable (hlinks : arena.WellLinked) {node : NodeId} {ls : List Level}
  (hrest : Awaits arena node ls) (s : State) (args : List Value)
include hlinks hrest

theorem simulates_applyBuiltin (b : Builtin) :
    Simulates arena n (callBuiltin arena node b args (s.withLevels none ls))
      (applyBuiltin b args s.world) (Exits arena node s.scope ls) := by
  rw [callBuiltin, applyBuiltin]
  cases b.call args with
  | error e => exact .fail rfl
  | ok result =>
    cases result with
    | value v => exact simulates_deliver hlinks n hrest v s none
    | output text =>
      simp only [writeText, Bind.bind, Effect.write, State.withLevels, State.world]
      rcases s.sink.write text with ⟨_ | reason, sink⟩
      · exact simulates_deliver hlinks n hrest .unspecified { s with sink } none
      · exact .fail rfl

omit hlinks in
/-- The body of a procedure runs in the place of the running body if the call is
a tail call, and on a level of its own otherwise. -/
theorem simulates_applyClosure (ih : SimulatesEval arena n) (c : Closure) :
    Simulates arena n (apply none node c args (s.withLevels none ls))
      (applyClosure (eval arena n) c args s.world) (Exits arena node s.scope ls) := by
  rw [apply, applyClosure]
  by_cases harity : args.length = c.parameters.length
  · rw [if_neg (not_not_intro harity), if_neg (not_not_intro harity), inTailPosition_withLevels]
    cases hbody : runningBody? ls with
    | some found =>
      obtain ⟨k, outer⟩ := found
      have houter := hrest.of_runningBody? hbody
      rw [exits_of_some hbody, Option.isSome_some, if_pos rfl,
        tailCall_withLevels hbody fun vs hmem => hrest.values_eq_nil hmem]
      exact simulates_evalBody ih (k := { k with remaining := c.rest }) houter c.first
        { s with
          scope := s.store.nextScope
          store := s.store.extend c.scope (c.parameters.zip args) }
    | none =>
      rw [exits_of_none hbody, Option.isSome_none, if_neg Bool.false_ne_true]
      obtain ⟨stats, hcall⟩ := nestedCall_withLevels node c args s none ls
      show Simulates arena n (nestedCall node c args (s.withLevels none ls)) _ _
      rw [hcall]
      exact simulates_evalBody ih
        (k := { callerScope := s.scope, returnNode := node, remaining := c.rest }) hrest c.first
        { s with
          scope := s.store.nextScope
          store := s.store.extend c.scope (c.parameters.zip args)
          stats }
  · rw [if_pos harity, if_pos harity]
    exact .fail rfl

/-- An operator that is no special form is applied to its arguments. -/
theorem simulates_apply (ih : SimulatesEval arena n) {v : Value}
    (hv : ∀ form, v ≠ .special form) (position : Nat) :
    Simulates arena n
      (dispatch arena none
        { node, base := (operandsOf ls).length, position, task := .call } (v :: args)
        (s.withLevels none ls))
      (Evaluator.apply arena (eval arena n) node v args s.world)
      (Exits arena node s.scope ls) := by
  cases v with
  | builtin b => exact simulates_applyBuiltin hlinks hrest s args b
  | closure c => exact simulates_applyClosure hrest s args ih c
  | special form => exact absurd rfl (hv form)
  | _ => exact .fail rfl

end Applying

/-! ## Expressions -/

/-- A combination is a new level.  When its operator is known, it is a special
form or all of its operands are evaluated. -/
theorem simulates_evalCombination (hlinks : arena.WellLinked) (ih : SimulatesEval arena n)
    {node operator : NodeId} {m : Node} {ls : List Level} (hrest : Awaits arena node ls)
    (hnode : arena.node? node = some m) (hshape : m.shape = .compound operator) (s : State) :
    Simulates arena n (.running (s.withLevels (some operator) (.call node 0 .call [] :: ls)))
      (evalCombination arena (eval arena n) s.scope node operator s.world)
      (Exits arena node s.scope ls) := by
  have hchild := Arena.getElem?_children_zero hnode hshape
  have hcompound := children_ne_nil hchild
  have hawaits : Awaits arena operator (.call node 0 .call [] :: ls) :=
    ⟨hchild, rfl, trivial, .call rfl (by simp), hrest⟩
  have heval := ih operator _ _ _ _ hawaits (step_call none s ls operator node 0 [])
  rw [exits_of_none (show runningBody? (.call node 0 .call [] :: ls) = none from rfl)] at heval
  refine heval.bind fun v w q hq => ?_
  obtain ⟨s', pc', hscope, rfl, rfl⟩ := hq
  rw [scope_tick] at hscope
  obtain ⟨child, hoperator⟩ := Arena.exists_node?_eq_some
    (Arena.lt_size_of_mem_children hlinks (List.mem_of_getElem? hchild))
  have hnext : child.next = (arena.operands node).head? := by
    rw [← Arena.next?_eq_of_node?_eq_some hoperator, Arena.head?_operands,
      ← Arena.getElem?_children_succ hlinks hchild]
  rw [← hscope]
  by_cases hv : ∃ form, v = .special form
  · obtain ⟨form, rfl⟩ := hv
    have hform := simulates_evalForm hlinks hrest s' pc' hcompound ih form
    rw [deliver_special arena s' pc' ls hoperator, hnext]
    rw [startForm] at hform
    cases hprepare : prepare arena node form with
    | error e =>
      rw [hprepare] at hform
      exact hform
    | ok t =>
      rw [hprepare] at hform
      simp only [startPass, (prepare_eq_ok hprepare).1] at hform
      exact hform
  · have hne : ∀ form, v ≠ .special form := fun form h => hv ⟨form, h⟩
    rw [deliver_call arena s' pc' ls hoperator (Or.inr hne), hnext,
      evalRest_of_ne_special arena (eval arena n) s'.scope node hne]
    have hoperands : (arena.children node).drop (0 + 1) = arena.operands node := by
      rw [Arena.operands, List.drop_one]
    have howns : Task.Owns .call (0 + 1) [v] := .call rfl (by simpa using hne)
    refine (simulates_evalAll hlinks ih hrest (arena.operands node) (Nat.le_refl 1) hoperands
      howns s').bind fun args w q hq => ?_
    obtain ⟨s'', position, hscope', rfl, rfl⟩ := hq
    rw [← hscope']
    exact simulates_apply hlinks hrest s'' args ih hne position

/-- Entering a node is the start of its evaluation. -/
theorem simulates_evalNode (hlinks : arena.WellLinked) (ih : SimulatesEval arena n)
    {node : NodeId} {ls : List Level} (hrest : Awaits arena node ls) (s : State)
    (pc : Option NodeId) :
    Simulates arena n (enter arena none node (s.withLevels pc ls))
      (evalNode arena (eval arena n) s.scope node s.world) (Exits arena node s.scope ls) := by
  rw [evalNode]
  rcases hnode : arena.node? node with _ | ⟨shape, next⟩
  · rw [enter, hnode]
    exact .fail rfl
  cases shape with
  | empty =>
    rw [enter, hnode]
    exact simulates_deliver hlinks n hrest .unspecified s pc
  | compound operator =>
    rw [enter_compound arena none s pc ls hnode rfl]
    exact simulates_evalCombination hlinks ih hrest hnode rfl s
  | atom a =>
    cases a with
    | symbol name =>
      rw [enter, hnode]
      simp only [lookup, Bind.bind, Effect.store, State.world]
      dsimp only [State.withLevels]
      cases s.store.lookup? s.scope name with
      | some v => exact simulates_deliver hlinks n hrest v s pc
      | none => exact .fail rfl
    | _ =>
      rw [enter, hnode]
      exact simulates_deliver hlinks n hrest _ s pc

/-- The machine simulates the evaluator, whatever fuel it has. -/
theorem simulates_eval (hlinks : arena.WellLinked) (n : Nat) : SimulatesEval arena n := by
  induction n with
  | zero => exact fun _ _ _ _ _ _ _ hends => hends.elim
  | succ n ih =>
    intro node s₀ s pc ls hrest hstep
    refine .succ ?_
    rw [hstep]
    exact simulates_evalNode hlinks ih hrest s pc

/-! ## Whole runs -/

/-- The simulation of a whole expression.  A value that is delivered to the
outermost level is the outcome. -/
theorem simulates_run (hlinks : arena.WellLinked) (n : Nat) (store : Store) (sink : Sink)
    (root : NodeId) :
    Simulates arena n (.running (.initial store sink root))
      (eval arena n Store.globalScope root ⟨store, sink⟩)
      (fun v w q => ∃ t : State, t.world = w ∧ q = .halted (.ok v) t) := by
  have hawaits : Awaits arena root [.top []] := rfl
  have heval := simulates_eval hlinks n root (.initial store sink root) _ _ _ hawaits
    (step_top none (.initial store sink root) [] root [])
  rw [exits_of_none (show runningBody? [.top []] = none from rfl)] at heval
  refine heval.imp fun v w q hq => ?_
  obtain ⟨s, pc, -, rfl, rfl⟩ := hq
  refine ⟨_, ?_, (tick s).withLevels none [], rfl, rfl⟩
  rw [deliver_top]
  exact .of_step_eq (step_top_end none s v)

/-- A run that ends agrees with the evaluator that has enough fuel. -/
theorem eval_eq_of_run_eq_some (hlinks : arena.WellLinked) {store : Store} {sink : Sink}
    {root : NodeId} {r : Except Error Value} {t : State}
    (hrun : run arena none n (.initial store sink root) = some (r, t)) :
    eval arena n Store.globalScope root ⟨store, sink⟩ = some (r, t.world) := by
  have hsim := simulates_run hlinks n store sink root
  have hleads := leads_of_run_eq_some hrun
  match heval : eval arena n Store.globalScope root ⟨store, sink⟩ with
  | none =>
    rw [heval] at hsim
    exact absurd (endsWithin_of_run_eq_some hrun) hsim
  | some (.ok v, w) =>
    rw [heval] at hsim
    obtain ⟨q, hq, t', rfl, rfl⟩ := hsim
    obtain ⟨rfl, rfl⟩ := hleads.halted_inj hq
    rfl
  | some (.error e, w) =>
    rw [heval] at hsim
    obtain ⟨t', hq, rfl⟩ := hsim
    obtain ⟨rfl, rfl⟩ := hleads.halted_inj hq
    rfl

/-- An evaluation that ends is the outcome of a run. -/
theorem exists_run_of_eval_eq_some (hlinks : arena.WellLinked) {store : Store} {sink : Sink}
    {root : NodeId} {r : Except Error Value} {w : World}
    (heval : eval arena n Store.globalScope root ⟨store, sink⟩ = some (r, w)) :
    ∃ m t, run arena none m (.initial store sink root) = some (r, t) ∧ t.world = w := by
  have hsim := simulates_run hlinks n store sink root
  rw [heval] at hsim
  cases r with
  | ok v =>
    obtain ⟨q, hq, t, rfl, rfl⟩ := hsim
    obtain ⟨m, hm⟩ := exists_run_eq_some_iff.2 hq
    exact ⟨m, t, hm, rfl⟩
  | error e =>
    obtain ⟨t, hq, rfl⟩ := hsim
    obtain ⟨m, hm⟩ := exists_run_eq_some_iff.2 hq
    exact ⟨m, t, hm, rfl⟩

/-- The machine without a limit ends with an outcome, a store and a sink if and
only if the recursive evaluator does. -/
theorem run_iff_eval (hgrown : arena.Grown) (store store' : Store) (sink sink' : Sink)
    (root : NodeId) (r : Except Error Value) :
    (∃ n t, run arena none n (.initial store sink root) = some (r, t) ∧
        t.store = store' ∧ t.sink = sink') ↔
      ∃ n, eval arena n Store.globalScope root ⟨store, sink⟩ = some (r, ⟨store', sink'⟩) := by
  have hlinks := hgrown.wellLinked
  constructor
  · rintro ⟨n, t, hrun, rfl, rfl⟩
    exact ⟨n, eval_eq_of_run_eq_some hlinks hrun⟩
  · rintro ⟨n, heval⟩
    obtain ⟨m, t, hrun, hworld⟩ := exists_run_of_eval_eq_some hlinks heval
    simp only [State.world, World.mk.injEq] at hworld
    exact ⟨m, t, hrun, hworld.1, hworld.2⟩

/-- In the call of `(lambda (x) (define (f y) (set! x y) (display x)) (if x (f "b") x))` with
`"a"`, the tail call of `f` assigns to the `x` of the scope around `f`, and writes what is
bound there then. -/
theorem run_iff_eval_define :
    ∃ arena : Arena, arena.Grown ∧ ∃ store' sink', Sink.text sink' = "b" ∧
      (Store.lookup? store' 1 "x").map Value.text = some "b" ∧
      ∃ n t, run arena none n (.initial .initial .accepting 24) = some (.ok .unspecified, t) ∧
        t.store = store' ∧ t.sink = sink' := by
  let reader : Reader := ⟨[.opening, .opening, .word "lambda", .opening, .word "x", .closing,
    .opening, .word "define", .opening, .word "f", .word "y", .closing,
    .opening, .word "set!", .word "x", .word "y", .closing,
    .opening, .word "display", .word "x", .closing, .closing,
    .opening, .word "if", .word "x", .opening, .word "f", .string "b", .closing, .word "x",
    .closing, .closing, .string "a", .closing]⟩
  have hgrown : (reader.read {}).arena.Grown := .read reader .empty
  -- The outcome, the text that was written, and what the name is bound to at the end.
  have hview : (eval (reader.read {}).arena 5 Store.globalScope 24 ⟨.initial, .accepting⟩).map
      (fun e => (e.1.toOption.map Value.typeName, e.2.sink.text,
        (e.2.store.lookup? 1 "x").map Value.text)) =
      some (some "unspecified", "b", some "b") := by decide +kernel
  obtain ⟨⟨r, store', sink'⟩, heval, hview⟩ := Option.map_eq_some_iff.1 hview
  simp only [Prod.mk.injEq] at hview
  obtain ⟨houtcome, htext, hbound⟩ := hview
  obtain rfl : r = .ok .unspecified := by
    cases r with
    | error e => cases houtcome
    | ok v => cases v <;> simp [Except.toOption, Value.typeName] at houtcome ⊢
  exact ⟨_, hgrown, store', sink', htext, hbound,
    (run_iff_eval hgrown .initial store' .accepting sink' 24 _).2 ⟨5, heval⟩⟩

end StackScheme.Machine
