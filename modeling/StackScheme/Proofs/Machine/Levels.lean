import StackScheme.Machine.Step
import StackScheme.Proofs.Arena.Links

/-!
# Levels of the machine

The three stacks of the machine grow and shrink together.  A level is a frame
with all that belongs to it: the values above its base, and for a body its
continuation.  A list of levels, the innermost first, determines the stacks, so
that a state may be given as its levels and its other registers.

* Stacks.  `Stack.ofList` is the stack with the given items.
* Levels.  `Level` is a level, and `State.withLevels` is the state with the given
  levels.
* Stacks of levels.  `Closed` levels end with the whole expression, and
  `Closed.eq_of_stacks_eq` says that the stacks determine them.
* Tail calls.  `runningBody?` is the body that a call is a tail call of.
* Functions on levels.  One equation for each function of the machine says what
  it does to the levels.  Later proofs use the equations and no stacks.
-/

namespace StackScheme

/-! ## Stacks -/

namespace Stack

variable {α : Type}

/-- The stack with the given items, the top first. -/
def ofList (items : List α) : Stack α :=
  ⟨items, items.length, rfl⟩

@[simp] theorem items_ofList (items : List α) : (ofList items).items = items := rfl

@[simp] theorem size_ofList (items : List α) : (ofList items).size = items.length := rfl

@[simp] theorem push_ofList (items : List α) (a : α) :
    (ofList items).push a = ofList (a :: items) := rfl

@[simp] theorem pop?_ofList_cons (items : List α) (a : α) :
    (ofList (a :: items)).pop? = some (a, ofList items) := rfl

@[simp] theorem drop_ofList (items : List α) (n : Nat) :
    (ofList items).drop n = ofList (items.drop n) :=
  ext rfl

@[simp] theorem truncate_ofList (above below : List α) :
    (ofList (above ++ below)).truncate below.length = ofList below :=
  ext (by simp [truncate])

@[simp] theorem splitOff?_ofList (above below : List α) :
    (ofList (above ++ below)).splitOff? below.length = some (above.reverse, ofList below) := by
  simp [splitOff?]

end Stack

namespace Machine

/-! ## Levels -/

/-- A frame with the values above its base.  A body has its continuation too. -/
inductive Level where
  /-- The whole expression. -/
  | top (values : List Value)
  /-- One expression of a body. -/
  | body (k : Continuation) (values : List Value)
  /-- A combination. -/
  | call (node : NodeId) (position : Nat) (task : Task) (values : List Value)

namespace Level

/-- The values above the base, the newest first. -/
def values : Level → List Value
  | top vs => vs
  | body _ vs => vs
  | call _ _ _ vs => vs

/-- The frame of a level with the given base. -/
def frame (base : Nat) : Level → Frame
  | top _ => .topLevel
  | body _ _ => .body base
  | call node position task _ => .call { node, base, position, task }

/-- The continuation of a body. -/
def continuation? : Level → Option Continuation
  | body k _ => some k
  | _ => none

end Level

/-- The operand stack of a list of levels. -/
def operandsOf (levels : List Level) : List Value :=
  levels.flatMap Level.values

/-- The frame stack of a list of levels. -/
def framesOf : List Level → List Frame
  | [] => []
  | l :: ls => l.frame (operandsOf ls).length :: framesOf ls

/-- The continuation stack of a list of levels. -/
def continuationsOf (levels : List Level) : List Continuation :=
  levels.filterMap Level.continuation?

/-- The state with the given levels, whose innermost level is at `pc`. -/
def State.withLevels (s : State) (pc : Option NodeId) (levels : List Level) : State :=
  { s with
    pc
    operands := .ofList (operandsOf levels)
    frames := .ofList (framesOf levels)
    continuations := .ofList (continuationsOf levels) }

@[simp] theorem operandsOf_cons (l : Level) (ls : List Level) :
    operandsOf (l :: ls) = l.values ++ operandsOf ls := rfl

/-- The values of the innermost level are those above its base. -/
theorem splitOff?_operandsOf (l : Level) (ls : List Level) :
    (Stack.ofList (operandsOf (l :: ls))).splitOff? (operandsOf ls).length =
      some (l.values.reverse, .ofList (operandsOf ls)) :=
  Stack.splitOff?_ofList l.values (operandsOf ls)

@[simp] theorem framesOf_cons (l : Level) (ls : List Level) :
    framesOf (l :: ls) = l.frame (operandsOf ls).length :: framesOf ls := rfl

theorem length_framesOf (ls : List Level) : (framesOf ls).length = ls.length := by
  induction ls with
  | nil => rfl
  | cons l ls ih => rw [framesOf_cons, List.length_cons, List.length_cons, ih]

/-- The frames of outer levels are the lower ones. -/
theorem exists_framesOf_append (inner ls : List Level) :
    ∃ above, framesOf (inner ++ ls) = above ++ framesOf ls := by
  induction inner with
  | nil => exact ⟨[], rfl⟩
  | cons l inner ih =>
    obtain ⟨above, habove⟩ := ih
    exact ⟨l.frame _ :: above, by rw [List.cons_append, framesOf_cons, habove, List.cons_append]⟩

@[simp] theorem continuationsOf_body (k : Continuation) (vs : List Value) (ls : List Level) :
    continuationsOf (.body k vs :: ls) = k :: continuationsOf ls := rfl

@[simp] theorem continuationsOf_call (node : NodeId) (position : Nat) (task : Task)
    (vs : List Value) (ls : List Level) :
    continuationsOf (.call node position task vs :: ls) = continuationsOf ls := rfl

@[simp] theorem continuationsOf_top (vs : List Value) (ls : List Level) :
    continuationsOf (.top vs :: ls) = continuationsOf ls := rfl

theorem tick_withLevels (s : State) (pc : Option NodeId) (levels : List Level) :
    tick (s.withLevels pc levels) = (tick s).withLevels pc levels := rfl

theorem initial_eq_withLevels (store : Store) (sink : Sink) (root : NodeId) :
    State.initial store sink root =
      (State.initial store sink root).withLevels (some root) [.top []] := rfl

/-! ## Stacks of levels -/

/-- The whole expression is the outermost level, and no other one. -/
def Closed : List Level → Prop
  | [.top _] => True
  | .body _ _ :: ls => Closed ls
  | .call _ _ _ _ :: ls => Closed ls
  | _ => False

/-- The bases of the frames say which values belong to which level. -/
theorem Closed.eq_of_stacks_eq {ls ls' : List Level} (h : Closed ls')
    (hframes : framesOf ls = framesOf ls') (hoperands : operandsOf ls = operandsOf ls')
    (hcontinuations : continuationsOf ls = continuationsOf ls') : ls = ls' := by
  induction ls' generalizing ls with
  | nil => exact h.elim
  | cons l' ls' ih =>
    rcases ls with _ | ⟨l, ls⟩
    · cases hframes
    simp only [framesOf_cons, List.cons.injEq] at hframes
    obtain ⟨hframe, hrest⟩ := hframes
    -- Equal bases cut the operand stacks at the same height.
    have hcut : (operandsOf ls).length = (operandsOf ls').length →
        l.values = l'.values ∧ operandsOf ls = operandsOf ls' := fun hlen =>
      List.append_inj' hoperands hlen
    cases l' with
    | top vs' =>
      cases l with
      | top vs =>
        obtain rfl : ls' = [] := by
          cases ls' with
          | nil => rfl
          | cons _ _ => exact h.elim
        obtain rfl : ls = [] := by
          cases ls with
          | nil => rfl
          | cons _ _ => cases hrest
        obtain ⟨rfl, -⟩ := hcut rfl
        rfl
      | _ => cases hframe
    | body k' vs' =>
      cases l with
      | body k vs =>
        simp only [Level.frame, Frame.body.injEq] at hframe
        obtain ⟨rfl, hvalues⟩ := hcut hframe
        simp only [continuationsOf_body, List.cons.injEq] at hcontinuations
        rw [ih h hrest hvalues hcontinuations.2, hcontinuations.1]
        rfl
      | _ => cases hframe
    | call node' position' task' vs' =>
      cases l with
      | call node position task vs =>
        simp only [Level.frame, Frame.call.injEq, CallFrame.mk.injEq] at hframe
        obtain ⟨rfl, hbase, rfl, rfl⟩ := hframe
        obtain ⟨rfl, hvalues⟩ := hcut hbase
        rw [ih h hrest hvalues hcontinuations]
        rfl
      | _ => cases hframe

/-- A state determines the place that it is at and its levels. -/
theorem Closed.withLevels_inj {s s' : State} {pc pc' : Option NodeId} {ls ls' : List Level}
    (h : Closed ls') (heq : s.withLevels pc ls = s'.withLevels pc' ls') :
    pc = pc' ∧ ls = ls' :=
  ⟨congrArg State.pc heq, h.eq_of_stacks_eq (congrArg (·.frames.items) heq)
    (congrArg (·.operands.items) heq) (congrArg (·.continuations.items) heq)⟩

/-! ## Tail calls -/

/-- The body that a call on these levels is a tail call of, with the levels
around that body. -/
def runningBody? : List Level → Option (Continuation × List Level)
  | .call _ _ task _ :: ls => if task.forwards then runningBody? ls else none
  | .body k _ :: ls => if k.remaining = [] then some (k, ls) else none
  | _ => none

theorem inTailPosition_withLevels (s : State) (pc : Option NodeId) (ls : List Level) :
    (s.withLevels pc ls).inTailPosition = (runningBody? ls).isSome := by
  have hreach : ∀ ls : List Level, (s.withLevels pc ls).inTailPosition =
      (continuationsOf ls).head?.any fun k => k.remaining.isEmpty && reachBody (framesOf ls) := by
    intro ls
    rw [State.inTailPosition, Stack.top?]
    dsimp only [State.withLevels]
    rw [Stack.items_ofList, Stack.items_ofList]
    cases (continuationsOf ls).head? <;> rfl
  induction ls with
  | nil => rfl
  | cons l ls ih =>
    rw [hreach] at ih ⊢
    cases l with
    | top vs =>
      simp only [framesOf_cons, Level.frame, reachBody, runningBody?]
      cases (continuationsOf (.top vs :: ls)).head? <;> simp
    | body k vs =>
      by_cases hk : k.remaining = [] <;> simp [Level.frame, reachBody, runningBody?, hk]
    | call node position task vs =>
      simp only [continuationsOf_call, framesOf_cons, Level.frame, reachBody, runningBody?]
      by_cases hf : task.forwards = true
      · simpa [hf] using ih
      · cases (continuationsOf ls).head? <;> simp [hf]

/-- What the stacks are cut down to by a tail call. -/
theorem unwind_of_runningBody? {ls outer : List Level} {k : Continuation}
    (h : runningBody? ls = some (k, outer)) :
    ∃ vs, Level.body k vs ∈ ls ∧ continuationsOf ls = k :: continuationsOf outer ∧
      (framesOf ls).drop (forwardingCount (framesOf ls)) = framesOf (.body k vs :: outer) ∧
      unwind (.ofList (operandsOf ls)) (forwardingCount (framesOf ls)) (framesOf ls) =
        .ofList (operandsOf (.body k vs :: outer)) := by
  induction ls with
  | nil => simp [runningBody?] at h
  | cons l ls ih =>
    cases l with
    | top vs => simp [runningBody?] at h
    | body k' vs =>
      simp only [runningBody?, Option.ite_none_right_eq_some, Option.some.injEq,
        Prod.mk.injEq] at h
      obtain ⟨-, rfl, rfl⟩ := h
      exact ⟨vs, List.mem_cons_self, rfl, rfl, rfl⟩
    | call node position task vs =>
      simp only [runningBody?, Option.ite_none_right_eq_some] at h
      obtain ⟨hforwards, h⟩ := h
      obtain ⟨vs', hmem, hcont, hdrop, hunwind⟩ := ih h
      refine ⟨vs', List.mem_cons_of_mem _ hmem, hcont, ?_, ?_⟩
      · simpa [Level.frame, forwardingCount, hforwards] using hdrop
      · simpa [Level.frame, Level.values, forwardingCount, hforwards, unwind] using hunwind

/-- A tail call leaves the levels around the running body and puts the new body
in its place. -/
theorem tailCall_withLevels {ls outer : List Level} {k : Continuation}
    (h : runningBody? ls = some (k, outer)) (hbody : ∀ vs, Level.body k vs ∈ ls → vs = [])
    (c : Closure) (args : List Value) (s : State) (pc : Option NodeId) :
    tailCall c args (s.withLevels pc ls) =
      .running ({ s with
          scope := s.store.nextScope
          store := s.store.extend c.scope (c.parameters.zip args) }.withLevels
        (some c.first) (.body { k with remaining := c.rest } [] :: outer)) := by
  obtain ⟨vs, hmem, hcont, hdrop, hunwind⟩ := unwind_of_runningBody? h
  obtain rfl := hbody vs hmem
  simp only [tailCall, State.withLevels, hcont, Stack.pop?_ofList_cons, Stack.items_ofList,
    Stack.drop_ofList, hdrop, hunwind, Stack.push_ofList]
  rfl

theorem nestedCall_withLevels (node : NodeId) (c : Closure) (args : List Value) (s : State)
    (pc : Option NodeId) (ls : List Level) :
    ∃ stats, nestedCall node c args (s.withLevels pc ls) =
      .running ({ s with
          scope := s.store.nextScope
          store := s.store.extend c.scope (c.parameters.zip args)
          stats }.withLevels
        (some c.first)
        (.body { callerScope := s.scope, returnNode := node, remaining := c.rest } [] :: ls)) :=
  ⟨_, rfl⟩

/-! ## Functions on levels -/

section Equations

variable (arena : Arena) (limit : Option Nat) (s : State) (pc : Option NodeId) (ls : List Level)

theorem deliver_top (node : NodeId) (v : Value) (vs : List Value) :
    deliver arena node v (s.withLevels pc (.top vs :: ls)) =
      .running (s.withLevels none (.top (v :: vs) :: ls)) := rfl

theorem deliver_body (node : NodeId) (v : Value) (k : Continuation) (vs : List Value) :
    deliver arena node v (s.withLevels pc (.body k vs :: ls)) =
      .running (s.withLevels none (.body k (v :: vs) :: ls)) := rfl

/-- The value of a child goes to its combination, which moves on. -/
theorem deliver_call {node parent : NodeId} {n : Node} {v : Value} {position : Nat} {task : Task}
    {vs : List Value} (hnode : arena.node? node = some n)
    (hv : position ≠ 0 ∨ ∀ form, v ≠ .special form) :
    deliver arena node v (s.withLevels pc (.call parent position task vs :: ls)) =
      .running (s.withLevels n.next (.call parent (position + 1) task (v :: vs) :: ls)) := by
  obtain ⟨shape, next⟩ := n
  simp only [deliver, State.withLevels, framesOf_cons, Level.frame, Stack.pop?_ofList_cons, hnode]
  split
  · simp at hv
  · rfl

/-- A special form in the place of the operator is prepared. -/
theorem deliver_special {node parent : NodeId} {n : Node} {form : SpecialForm} {task : Task}
    {vs : List Value} (hnode : arena.node? node = some n) :
    deliver arena node (.special form) (s.withLevels pc (.call parent 0 task vs :: ls)) =
      match prepare arena parent form with
      | .error e => (s.withLevels pc (.call parent 0 task vs :: ls)).fail e
      | .ok t =>
        .running (s.withLevels n.next (.call parent 1 (.form t) (.special form :: vs) :: ls)) := by
  obtain ⟨shape, next⟩ := n
  simp only [deliver, State.withLevels, framesOf_cons, Level.frame, Stack.pop?_ofList_cons, hnode]
  cases prepare arena parent form <;> rfl

/-- A compound opens a new level. -/
theorem enter_compound {node operator : NodeId} {n : Node} (hnode : arena.node? node = some n)
    (hshape : n.shape = .compound operator) :
    enter arena limit node (s.withLevels pc ls) =
      match (s.withLevels pc ls).reachedLimit? limit with
      | some l => (s.withLevels pc ls).fail (.tooDeep l)
      | none => .running (s.withLevels (some operator) (.call node 0 .call [] :: ls)) := by
  obtain ⟨shape, next⟩ := n
  subst hshape
  simp only [enter, hnode]
  cases (s.withLevels pc ls).reachedLimit? limit <;> rfl

/-- The end of an expression of a body is the start of the next one, or the
value of the call. -/
theorem reduce_body (k : Continuation) (v : Value) :
    reduce arena limit (s.withLevels pc (.body k [v] :: ls)) =
      match k.remaining with
      | next :: remaining =>
        .running (s.withLevels (some next) (.body { k with remaining } [] :: ls))
      | [] =>
        deliver arena k.returnNode v ({ s with scope := k.callerScope }.withLevels pc ls) := by
  simp only [reduce, leaveBody, State.withLevels, framesOf_cons, operandsOf_cons,
    continuationsOf_body, Level.frame, Level.values, List.singleton_append,
    Stack.pop?_ofList_cons, Stack.size_ofList, if_true]
  rfl

/-- The end of a combination applies its operator. -/
theorem reduce_call (node : NodeId) (position : Nat) (task : Task) (vs : List Value) :
    reduce arena limit (s.withLevels pc (.call node position task vs :: ls)) =
      dispatch arena limit { node, base := (operandsOf ls).length, position, task } vs.reverse
        (s.withLevels pc ls) := by
  simp [reduce, State.withLevels, Level.frame, Level.values]

theorem callForm_form (node : NodeId) (base position : Nat) (t : FormTask) (form : SpecialForm)
    (values : List Value) :
    callForm arena { node, base, position, task := .form t } form values s =
      match perform arena node t values with
      | .error e => s.fail e
      | .ok next => performStep arena { node, base, position, task := .form t } form next s := rfl

/-- A special form goes through its operands once more. -/
theorem performStep_again (node : NodeId) (position : Nat) (task : Task) (form : SpecialForm)
    (t : FormTask) :
    performStep arena { node, base := (operandsOf ls).length, position, task } form (.again t)
        (s.withLevels pc ls) =
      .running (s.withLevels (arena.operands node).head?
        (.call node 1 (.form t) [.special form] :: ls)) := rfl

end Equations

end Machine

end StackScheme
