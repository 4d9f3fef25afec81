import StackScheme.Proofs.Evaluator
import StackScheme.Proofs.Machine.Layout

/-!
# Simulation of the evaluator

The machine is compared with the recursive evaluator in three respects at once.
Where the evaluator has a value, the machine comes to the point where that value
is delivered; where it has an error, the machine ends with that error; and where
it runs out of fuel, the machine is still running after as many steps.

* `Simulates` is the comparison.  `Simulates.bind` puts effects together, so that
  proofs follow the text of the evaluator.
* `Exits` is the point where the value of an expression is delivered.  For a tail
  call this is the place that the running body returns to.
* Operands and bodies.  `SimulatesEval` is what the induction on the fuel gives,
  and `simulates_evalAll` and `simulates_evalBody` follow from it.
* Passes.  A special form evaluates an operand in each pass.
-/

namespace StackScheme.Machine

open Evaluator

/-- The registers that an evaluation may change for good. -/
def State.world (s : State) : World :=
  ⟨s.store, s.sink⟩

@[simp] theorem scope_tick (s : State) : (tick s).scope = s.scope := rfl

/-! ## Simulation -/

/-- The stage `p` of a run agrees with an outcome of the evaluator, if a value
means to come to a stage with the property `K`. -/
def Simulates (arena : Arena) {α : Type} (n : Nat) (p : Progress)
    (outcome : Option (Except Error α × World)) (K : α → World → Progress → Prop) : Prop :=
  match outcome with
  | none => ¬ EndsWithin arena none n p
  | some (.ok a, w) => ∃ q, Leads arena none p q ∧ K a w q
  | some (.error e, w) => ∃ t, Leads arena none p (.halted (.error e) t) ∧ t.world = w

namespace Simulates

variable {arena : Arena} {α β : Type} {n : Nat} {p q : Progress}
  {K : α → World → Progress → Prop} {L : β → World → Progress → Prop}

theorem of_leads {outcome : Option (Except Error α × World)} (hleads : Leads arena none p q)
    (h : Simulates arena n q outcome K) : Simulates arena n p outcome K := by
  match outcome with
  | none => exact fun hends => h (hends.of_leads hleads)
  | some (.ok a, w) =>
    obtain ⟨q', hq', hK⟩ := h
    exact ⟨q', hleads.trans hq', hK⟩
  | some (.error e, w) =>
    obtain ⟨t, ht, hw⟩ := h
    exact ⟨t, hleads.trans ht, hw⟩

theorem of_step {s : State} {outcome : Option (Except Error α × World)}
    (h : Simulates arena n (step arena none s) outcome K) :
    Simulates arena n (.running s) outcome K :=
  of_leads (.of_step_eq rfl) h

/-- One step of the machine pays for one unit of fuel. -/
theorem succ {s : State} {outcome : Option (Except Error α × World)}
    (h : Simulates arena n (step arena none s) outcome K) :
    Simulates arena (n + 1) (.running s) outcome K := by
  match outcome with
  | none => exact h
  | some (.ok a, w) => exact of_step h
  | some (.error e, w) => exact of_step h

theorem pure {a : α} {w : World} (h : K a w p) :
    Simulates arena n p ((Pure.pure a : Effect α) w) K :=
  ⟨p, .refl p, h⟩

theorem fail {e : Error} {s : State} {w : World} (h : s.world = w) :
    Simulates arena n (s.fail e) ((Effect.fail e : Effect α) w) K :=
  ⟨s, .refl _, h⟩

/-- Effects one after the other are simulated one after the other. -/
theorem bind {x : Effect α} {f : α → Effect β} {w : World}
    (hx : Simulates arena n p (x w) K)
    (hf : ∀ a w q, K a w q → Simulates arena n q (f a w) L) :
    Simulates arena n p ((x >>= f) w) L := by
  simp only [Bind.bind]
  match hxw : x w with
  | none =>
    rw [hxw] at hx
    exact hx
  | some (.error e, w') =>
    rw [hxw] at hx
    exact hx
  | some (.ok a, w') =>
    rw [hxw] at hx
    obtain ⟨q, hq, hK⟩ := hx
    exact of_leads hq (hf a w' q hK)

/-- The run may go on to another stage for a value. -/
theorem imp {K' : α → World → Progress → Prop} {outcome : Option (Except Error α × World)}
    (h : Simulates arena n p outcome K)
    (hK : ∀ a w q, K a w q → ∃ q', Leads arena none q q' ∧ K' a w q') :
    Simulates arena n p outcome K' := by
  match outcome with
  | none => exact h
  | some (.ok a, w) =>
    obtain ⟨q, hq, hKq⟩ := h
    obtain ⟨q', hq', hK'⟩ := hK a w q hKq
    exact ⟨q', hq.trans hq', hK'⟩
  | some (.error e, w) => exact h

end Simulates

/-! ## Exits -/

/-- The value is delivered to these levels as the value of `node`. -/
def Delivers (arena : Arena) (node : NodeId) (scope : ScopeId) (ls : List Level) (v : Value)
    (w : World) (q : Progress) : Prop :=
  ∃ (s : State) (pc : Option NodeId), s.scope = scope ∧ s.world = w ∧
    q = deliver arena node v (s.withLevels pc ls)

/-- The value of `node` leaves the levels: it is delivered to them, or, if they
pass it on to the end of a body, to the caller of that body. -/
def Exits (arena : Arena) (node : NodeId) (scope : ScopeId) (ls : List Level) :
    Value → World → Progress → Prop :=
  match runningBody? ls with
  | some (k, outer) => Delivers arena k.returnNode k.callerScope outer
  | none => Delivers arena node scope ls

theorem exits_of_none {arena : Arena} {node : NodeId} {scope : ScopeId} {ls : List Level}
    (h : runningBody? ls = none) : Exits arena node scope ls = Delivers arena node scope ls := by
  rw [Exits, h]

theorem exits_of_some {arena : Arena} {node : NodeId} {scope : ScopeId} {ls outer : List Level}
    {k : Continuation} (h : runningBody? ls = some (k, outer)) :
    Exits arena node scope ls = Delivers arena k.returnNode k.callerScope outer := by
  rw [Exits, h]

/-- A delivered value leaves the levels. -/
theorem simulates_deliver {arena : Arena} (hlinks : arena.WellLinked) (n : Nat) {node : NodeId}
    {ls : List Level} (h : Awaits arena node ls) (v : Value) (s : State) (pc : Option NodeId) :
    Simulates arena n (deliver arena node v (s.withLevels pc ls))
      ((pure v : Effect Value) s.world) (Exits arena node s.scope ls) := by
  -- The induction is on the levels that pass the value on.
  induction ls generalizing node s pc with
  | nil => exact h.elim
  | cons l ls ih =>
    cases l with
    | top vs =>
      have hbody : runningBody? (.top vs :: ls) = none := rfl
      exact .pure (exits_of_none hbody ▸ ⟨s, pc, rfl, rfl, rfl⟩)
    | body k vs =>
      by_cases hlast : k.remaining = []
      · obtain rfl : vs = [] := h.1
        have hbody : runningBody? (.body k [] :: ls) = some (k, ls) := by simp [runningBody?, hlast]
        rw [exits_of_some hbody, deliver_body]
        refine .of_step ?_
        rw [step_body_end, hlast]
        exact .pure ⟨{ tick s with scope := k.callerScope }, none, rfl, rfl, rfl⟩
      · have hbody : runningBody? (.body k vs :: ls) = none := by simp [runningBody?, hlast]
        exact .pure (exits_of_none hbody ▸ ⟨s, pc, rfl, rfl, rfl⟩)
    | call parent position task vs =>
      obtain ⟨hchild, hskips, hfits, howns, hrest⟩ := h
      cases hforwards : task.forwards with
      | false =>
        have hbody : runningBody? (.call parent position task vs :: ls) = none := by
          simp [runningBody?, hforwards]
        exact .pure (exits_of_none hbody ▸ ⟨s, pc, rfl, rfl, rfl⟩)
      | true =>
        have hbody : runningBody? (.call parent position task vs :: ls) = runningBody? ls := by
          simp [runningBody?, hforwards]
        cases task with
        | call => cases hforwards
        | form t =>
          obtain ⟨hpos, hwanted, rfl⟩ := howns.before_of_child hfits hchild hskips
          cases houter : runningBody? ls with
          | none =>
            exact .pure (exits_of_none (hbody.trans houter) ▸ ⟨s, pc, rfl, rfl, rfl⟩)
          | some found =>
            have hleads := leads_of_forwards hlinks none s pc ls (v := v) hfits hchild hpos
              hwanted hforwards
            have hexits := ih hrest (tick s) none
            rw [exits_of_some houter] at hexits
            rw [exits_of_some (hbody.trans houter)]
            exact hexits.of_leads hleads

/-! ## Operands and bodies -/

/-- Expressions are evaluated with fuel `n` as the machine evaluates them: a step
that enters a node starts what the evaluator does with it. -/
def SimulatesEval (arena : Arena) (n : Nat) : Prop :=
  ∀ (node : NodeId) (s₀ s : State) (pc : Option NodeId) (ls : List Level),
    Awaits arena node ls → step arena none s₀ = enter arena none node (s.withLevels pc ls) →
      Simulates arena n (.running s₀) (eval arena n s.scope node s.world)
        (Exits arena node s.scope ls)

section Parts

variable {arena : Arena} {n : Nat} (hlinks : arena.WellLinked) (ih : SimulatesEval arena n)
include ih

/-- Expressions of a body follow each other on one level. -/
theorem simulates_evalBody {outer : List Level} {k : Continuation}
    (houter : Awaits arena k.returnNode outer) (first : NodeId) (s : State) :
    Simulates arena n (.running (s.withLevels (some first) (.body k [] :: outer)))
      (evalBody (eval arena n s.scope) first k.remaining s.world)
      (Delivers arena k.returnNode k.callerScope outer) := by
  obtain ⟨callerScope, returnNode, remaining⟩ := k
  -- The induction is on the expressions that remain.
  induction remaining generalizing first s with
  | nil =>
    have hbody : runningBody? (.body ⟨callerScope, returnNode, []⟩ [] :: outer) =
        some (⟨callerScope, returnNode, []⟩, outer) := rfl
    have hawaits : Awaits arena first (.body ⟨callerScope, returnNode, []⟩ [] :: outer) :=
      ⟨rfl, houter⟩
    have heval := ih first _ _ _ _ hawaits (step_body none s outer first _ [])
    rw [exits_of_some hbody] at heval
    exact heval
  | cons next remaining ih' =>
    have hbody : runningBody? (.body ⟨callerScope, returnNode, next :: remaining⟩ [] :: outer) =
        none := rfl
    have hawaits :
        Awaits arena first (.body ⟨callerScope, returnNode, next :: remaining⟩ [] :: outer) :=
      ⟨rfl, houter⟩
    have heval := ih first _ _ _ _ hawaits (step_body none s outer first _ [])
    rw [exits_of_none hbody] at heval
    refine heval.bind fun v w q hq => ?_
    obtain ⟨s', pc', hscope, rfl, rfl⟩ := hq
    rw [deliver_body]
    refine .of_step ?_
    rw [step_body_end]
    have hrest := ih' next (tick s') houter
    rw [scope_tick, hscope] at hrest
    exact hrest

include hlinks

/-- The operands of an ordinary combination are evaluated one after the other,
and the operator is applied to all of them. -/
theorem simulates_evalAll {parent : NodeId} {ls : List Level} (hrest : Awaits arena parent ls)
    (nodes : List NodeId) {position : Nat} {vs : List Value} (hpos : 1 ≤ position)
    (hnodes : (arena.children parent).drop position = nodes)
    (howns : Task.Owns .call position vs) (s : State) :
    Simulates arena n
      (.running (s.withLevels nodes.head? (.call parent position .call vs :: ls)))
      (evalAll (eval arena n s.scope) nodes s.world)
      (fun args w q => ∃ (s' : State) (position' : Nat), s'.scope = s.scope ∧ s'.world = w ∧
        q = dispatch arena none
          { node := parent, base := (operandsOf ls).length, position := position', task := .call }
          (vs.reverse ++ args) (s'.withLevels none ls)) := by
  -- The induction is on the operands that are left.
  induction nodes generalizing position vs s with
  | nil =>
    refine .of_step ?_
    rw [List.head?_nil, step_call_end]
    exact .pure ⟨tick s, position, rfl, rfl, by rw [List.append_nil]⟩
  | cons node nodes ih' =>
    have hchild : (arena.children parent)[position]? = some node := by
      rw [← List.head?_drop, hnodes, List.head?_cons]
    have hdrop : (arena.children parent).drop (position + 1) = nodes := by
      rw [← List.drop_drop, hnodes, List.drop_one, List.tail_cons]
    have hawaits : Awaits arena node (.call parent position .call vs :: ls) :=
      ⟨hchild, rfl, trivial, howns, hrest⟩
    have heval := ih node _ _ _ _ hawaits (step_call none s ls node parent position vs)
    rw [exits_of_none (show runningBody? (.call parent position .call vs :: ls) = none from rfl)]
      at heval
    refine heval.bind fun v w q hq => ?_
    obtain ⟨s', pc', hscope, rfl, rfl⟩ := hq
    obtain ⟨m, hm⟩ := Arena.exists_node?_eq_some
      (Arena.lt_size_of_mem_children hlinks (List.mem_of_getElem? hchild))
    have hnext : m.next = nodes.head? := by
      rw [← Arena.next?_eq_of_node?_eq_some hm, ← Arena.getElem?_children_succ hlinks hchild,
        ← List.head?_drop, hdrop]
    have howns' : Task.Owns .call (position + 1) (v :: vs) := by
      cases howns with
      | call hlen hoperator =>
        refine .call (by rw [List.length_cons, hlen]) fun form => ?_
        cases vs with
        | nil => simp at hlen; omega
        | cons u us => exact hoperator form
    rw [deliver_call arena s' pc' ls hm (Or.inl (by omega)), hnext]
    have hrec := ih' (by omega) hdrop howns' s'
    rw [hscope, scope_tick] at hrec
    refine hrec.bind fun args w q hq => ?_
    obtain ⟨s'', position', hscope', rfl, rfl⟩ := hq
    refine .pure ⟨s'', position', hscope', rfl, ?_⟩
    rw [List.reverse_cons, List.append_assoc, List.singleton_append]

end Parts

/-! ## Passes of special forms -/

/-- The special form at `node` starts a pass. -/
def startPass (arena : Arena) (node : NodeId) (t : FormTask) (s : State) (ls : List Level) :
    Progress :=
  .running (s.withLevels (arena.operands node).head?
    (.call node 1 (.form t) [.special t.form] :: ls))

/-- The special form at `node` ends a pass with these values. -/
def EndsPass (arena : Arena) (node : NodeId) (t : FormTask) (values : List Value)
    (scope : ScopeId) (ls : List Level) (w : World) (q : Progress) : Prop :=
  ∃ (s : State) (position : Nat), s.scope = scope ∧ s.world = w ∧
    q = callForm arena
      { node, base := (operandsOf ls).length, position, task := .form t } t.form values
      (s.withLevels none ls)

/-- The special form at `node` starts, if it has the right shape. -/
def startForm (arena : Arena) (node : NodeId) (form : SpecialForm) (s : State)
    (pc : Option NodeId) (ls : List Level) : Progress :=
  match prepare arena node form with
  | .error e => (s.withLevels pc (.call node 0 .call [] :: ls)).fail e
  | .ok t => startPass arena node t s ls

/-- Operands are nodes of the arena. -/
theorem exists_node?_of_mem_operands {arena : Arena} (hlinks : arena.WellLinked)
    {node operand : NodeId} (h : operand ∈ arena.operands node) :
    ∃ m, arena.node? operand = some m :=
  Arena.exists_node?_eq_some (Arena.lt_size_of_mem_operands hlinks h)

section Passes

variable {arena : Arena} {n : Nat} (hlinks : arena.WellLinked) {node : NodeId} {t : FormTask}
  {ls : List Level} (hfits : t.Fits arena node) (s : State)
include hlinks hfits

/-- The first step of a pass goes to the operand that is wanted. -/
theorem step_startPass_wanted {i : Nat} {child : NodeId} (hwanted : t.wanted = some (i + 1))
    (hchild : (arena.operands node)[i]? = some child) :
    step arena none (s.withLevels (arena.operands node).head?
        (.call node 1 (.form t) [.special t.form] :: ls)) =
      enter arena none child ((tick s).withLevels (some child)
        (.call node (i + 1) (.form t) [.special t.form] :: ls)) := by
  have hseek : t.seek 1 = i + 1 := by
    rw [FormTask.seek, hwanted]
    exact if_pos (by omega)
  have hstep := step_form none s ls hlinks hfits (Nat.le_refl 1) (by omega) [.special t.form]
  rw [hseek, ← Arena.getElem?_operands arena node i, hchild] at hstep
  rw [Arena.head?_operands]
  exact hstep

omit hlinks in
/-- The levels of a pass wait for the operand that is wanted. -/
theorem awaits_wanted (hrest : Awaits arena node ls) {i : Nat} {child : NodeId}
    (hwanted : t.wanted = some (i + 1)) (hchild : (arena.operands node)[i]? = some child) :
    Awaits arena child (.call node (i + 1) (.form t) [.special t.form] :: ls) := by
  refine ⟨Arena.getElem?_operands arena node i ▸ hchild, ?_, hfits, ?_, hrest⟩
  · show t.skips (i + 1) = false
    rw [Bool.eq_false_iff, ne_eq, FormTask.skips_eq_true_iff]
    exact fun h => h.2.2 hwanted
  · refine .before (by omega) fun j hj => ?_
    rw [hwanted] at hj
    exact Nat.le_of_eq (Option.some.inj hj)

/-- A pass that wants no operand ends without a value. -/
theorem leads_startPass (hwanted : t.wanted = none) :
    ∃ q, Leads arena none (startPass arena node t s ls) q ∧
      EndsPass arena node t [] s.scope ls s.world q := by
  have hseek : t.seek 1 = t.operandCount + 1 := by rw [FormTask.seek, hwanted]
  have hend : (arena.children node)[t.operandCount + 1]? = none := by
    have hcount := hfits.count
    rw [List.getElem?_eq_none_iff]
    omega
  have hstep := step_form none s ls hlinks hfits (Nat.le_refl 1) (by omega) [.special t.form]
  rw [hseek, hend, ← Arena.head?_operands] at hstep
  exact ⟨_, .of_step_eq hstep, tick s, t.operandCount + 1, rfl, rfl, rfl⟩

variable (ih : SimulatesEval arena n) (hrest : Awaits arena node ls)
include ih hrest

/-- A pass evaluates the operand that is wanted and ends with its value. -/
theorem simulates_operand {i : Nat} {child : NodeId} (hwanted : t.wanted = some (i + 1))
    (hchild : (arena.operands node)[i]? = some child) (hforwards : t.forwards = false) :
    Simulates arena n (startPass arena node t s ls) (eval arena n s.scope child s.world)
      (fun v => EndsPass arena node t [v] s.scope ls) := by
  have heval := ih child _ _ _ _ (awaits_wanted hfits hrest hwanted hchild)
    (step_startPass_wanted hlinks hfits s hwanted hchild)
  have hbody : runningBody? (.call node (i + 1) (.form t) [.special t.form] :: ls) = none := by
    simp [runningBody?, Task.forwards, hforwards]
  rw [exits_of_none hbody] at heval
  refine heval.imp fun v w q hq => ?_
  obtain ⟨s', pc', hscope, rfl, rfl⟩ := hq
  rw [Arena.getElem?_operands] at hchild
  obtain ⟨position, hleads⟩ :=
    leads_of_operand hlinks none s' pc' ls hfits hchild (by omega) hwanted
  exact ⟨_, hleads, tick s', position, hscope, rfl, rfl⟩

/-- The value of an operand in tail position is the value of the form. -/
theorem simulates_tailOperand {i : Nat} {child : NodeId} (hwanted : t.wanted = some (i + 1))
    (hchild : (arena.operands node)[i]? = some child) (hforwards : t.forwards = true) :
    Simulates arena n (startPass arena node t s ls) (eval arena n s.scope child s.world)
      (Exits arena node s.scope ls) := by
  have heval := ih child _ _ _ _ (awaits_wanted hfits hrest hwanted hchild)
    (step_startPass_wanted hlinks hfits s hwanted hchild)
  have hbody : runningBody? (.call node (i + 1) (.form t) [.special t.form] :: ls) =
      runningBody? ls := by
    simp [runningBody?, Task.forwards, hforwards]
  cases houter : runningBody? ls with
  | none =>
    rw [exits_of_none (hbody.trans houter)] at heval
    rw [exits_of_none houter]
    refine heval.imp fun v w q hq => ?_
    obtain ⟨s', pc', hscope, rfl, rfl⟩ := hq
    rw [Arena.getElem?_operands] at hchild
    have hleads :=
      leads_of_forwards hlinks none s' pc' ls (v := v) hfits hchild (by omega) hwanted hforwards
    exact ⟨_, hleads, tick s', none, hscope, rfl, rfl⟩
  | some found =>
    rw [exits_of_some (hbody.trans houter)] at heval
    rw [exits_of_some houter]
    exact heval

end Passes

end StackScheme.Machine
