import StackScheme.Builtin
import StackScheme.Machine.Form

/-!
# Steps of the machine

`step` either evaluates the node that the machine is at, or ends the innermost
frame when there is no node left in it.

* `deliver` stores the value of a node and moves on to the next sibling.
* `enter` evaluates a node: an atom at once, a compound by a new frame.
* `apply` enters the body of a procedure.  A tail call reuses the continuation
  that is there and drops the frames above its body.
* `dispatch` applies an operator to its operands, and `reduce` ends a frame.
* `run` repeats `step`.  It takes the number of steps it may make, and
  `run_of_le` says that a greater number changes no outcome.
-/

namespace StackScheme.Machine

/-! ## Values of nodes -/

/-- Stores the value of `node`, which may turn out to be the special form that
the innermost combination is about. -/
def deliver (arena : Arena) (node : NodeId) (value : Value) (s : State) : Progress :=
  match s.frames.pop? with
  | some (.call f, frames) =>
    match arena.node? node with
    | none => s.crash .danglingNode
    | some { next, .. } =>
      match f.position, value with
      | 0, .special form =>
        match prepare arena f.node form with
        | .error e => s.fail e
        | .ok t =>
          .running { s with
            operands := s.operands.push value
            frames := frames.push (.call { f with position := 1, task := .form t })
            pc := next }
      | position, value =>
        .running { s with
          operands := s.operands.push value
          frames := frames.push (.call { f with position := position + 1 })
          pc := next }
  | _ => .running { s with operands := s.operands.push value, pc := none }

/-- Starts to evaluate `node`. -/
def enter (arena : Arena) (limit : Option Nat) (node : NodeId) (s : State) : Progress :=
  match arena.node? node with
  | none => s.crash .danglingNode
  | some { shape := .atom (.symbol name), .. } =>
    match s.store.lookup? s.scope name with
    | some value => deliver arena node value s
    | none => s.fail (.unbound name)
  | some { shape := .atom a, .. } => deliver arena node (.ofAtom node a) s
  | some { shape := .empty, .. } => deliver arena node .unspecified s
  | some { shape := .compound operator, .. } =>
    match s.reachedLimit? limit with
    | some l => s.fail (.tooDeep l)
    | none =>
      .running { s with
        frames := s.frames.push (.call { node, base := s.operands.size })
        pc := some operator }

/-! ## Procedures -/

/-- Enters a procedure in tail position: the continuation on top keeps the
caller and gets the new body, and the frames above the running body go. -/
def tailCall (c : Closure) (args : List Value) (s : State) : Progress :=
  match s.continuations.pop? with
  | none => s.crash .noContinuation
  | some (k, continuations) =>
    let count := forwardingCount s.frames.items
    .running { s with
      pc := some c.first
      operands := unwind s.operands count s.frames.items
      frames := s.frames.drop count
      continuations := continuations.push { k with remaining := c.rest }
      scope := s.store.nextScope
      store := s.store.extend c.scope (c.parameters.zip args) }

/-- Enters a procedure that returns to the combination at `node`. -/
def nestedCall (node : NodeId) (c : Closure) (args : List Value) (s : State) : Progress :=
  .running { s with
    pc := some c.first
    frames := s.frames.push (.body s.operands.size)
    continuations := s.continuations.push
      { callerScope := s.scope, returnNode := node, remaining := c.rest }
    scope := s.store.nextScope
    store := s.store.extend c.scope (c.parameters.zip args)
    stats := { s.stats with
      peakContinuations := max s.stats.peakContinuations (s.continuations.size + 1) } }

/-- Applies a procedure for the combination at `node`. -/
def apply (limit : Option Nat) (node : NodeId) (c : Closure) (args : List Value) (s : State) :
    Progress :=
  if args.length ≠ c.parameters.length then
    s.fail (.arity c.text (.exactly c.parameters.length) args.length)
  else if s.inTailPosition then tailCall c args s
  else
    match s.reachedLimit? limit with
    | some l => s.fail (.tooDeep l)
    | none => nestedCall node c args s

/-! ## Builtins and special forms -/

/-- Writes a text for the combination at `node`. -/
def writeText (arena : Arena) (node : NodeId) (text : String) (s : State) : Progress :=
  match s.sink.write text with
  | (none, sink) => deliver arena node .unspecified { s with sink }
  | (some reason, sink) => { s with sink }.fail (.output reason)

/-- Applies a builtin for the combination at `node`. -/
def callBuiltin (arena : Arena) (node : NodeId) (b : Builtin) (args : List Value) (s : State) :
    Progress :=
  match b.call args with
  | .error e => s.fail e
  | .ok (.value v) => deliver arena node v s
  | .ok (.output text) => writeText arena node text s

/-- The closure that is made next in the current scope. -/
def newClosure (s : State) (name : Option String) (parameters : List String) (first : NodeId)
    (rest : List NodeId) : Closure :=
  { serial := s.store.closures, name, parameters, first, rest, scope := s.scope }

/-- Does what the special form at the frame `f` asks for. -/
def performStep (arena : Arena) (f : CallFrame) (form : SpecialForm) (next : FormStep)
    (s : State) : Progress :=
  match next with
  | .value v => deliver arena f.node v s
  | .bind name v =>
    deliver arena f.node .unspecified { s with store := s.store.bind s.scope name v }
  | .assign name v =>
    match s.store.holder? s.scope name with
    | some holder =>
      deliver arena f.node .unspecified { s with store := s.store.bind holder name v }
    | none => s.fail (.unbound name)
  | .lambda parameters first rest =>
    let c := newClosure s none parameters first rest
    deliver arena f.node (.closure c) { s with store := s.store.newSerial }
  | .procedure name parameters first rest =>
    let c := newClosure s (some name) parameters first rest
    deliver arena f.node .unspecified
      { s with store := s.store.newSerial.bind s.scope name (.closure c) }
  | .again t =>
    .running { s with
      operands := s.operands.push (.special form)
      frames := s.frames.push (.call { f with position := 1, task := .form t })
      pc := (arena.operands f.node).head? }

/-- Ends a pass of a special form. -/
def callForm (arena : Arena) (f : CallFrame) (form : SpecialForm) (values : List Value)
    (s : State) : Progress :=
  match f.task with
  | .call => s.crash .unpreparedForm
  | .form t =>
    match perform arena f.node t values with
    | .error e => s.fail e
    | .ok next => performStep arena f form next s

/-! ## Ends of frames -/

/-- Applies the operator of the combination `f` to its operands. -/
def dispatch (arena : Arena) (limit : Option Nat) (f : CallFrame) (values : List Value)
    (s : State) : Progress :=
  match values with
  | [] => s.crash .noOperator
  | .builtin b :: args => callBuiltin arena f.node b args s
  | .special form :: args => callForm arena f form args s
  | .closure c :: args => apply limit f.node c args s
  | operator :: _ => s.fail (.notApplicable operator (arena.render f.node))

/-- Goes on after one expression of a body, with the next one or with the
caller. -/
def leaveBody (arena : Arena) (value : Value) (s : State) : Progress :=
  match s.continuations.pop? with
  | none => s.crash .noContinuation
  | some (k, continuations) =>
    match k.remaining with
    | next :: remaining =>
      .running { s with
        pc := some next
        frames := s.frames.push (.body s.operands.size)
        continuations := continuations.push { k with remaining } }
    | [] => deliver arena k.returnNode value { s with scope := k.callerScope, continuations }

/-- Ends the innermost frame. -/
def reduce (arena : Arena) (limit : Option Nat) (s : State) : Progress :=
  match s.frames.pop? with
  | none => s.crash .noFrame
  | some (.topLevel, frames) =>
    match s.operands.pop? with
    | none => s.crash .noValue
    | some (value, operands) => .halted (.ok value) { s with frames, operands }
  | some (.body base, frames) =>
    match s.operands.pop? with
    | none => s.crash .noValue
    | some (value, operands) =>
      if operands.size = base then leaveBody arena value { s with frames, operands }
      else s.crash .unevenBody
  | some (.call f, frames) =>
    match s.operands.splitOff? f.base with
    | none => s.crash .lowOperands
    | some (values, operands) => dispatch arena limit f values { s with frames, operands }

/-! ## Steps -/

/-- Goes on from `pc` at `position` past the children that are passed over. -/
def skip (arena : Arena) (task : Task) : (fuel : Nat) → (pc : Option NodeId) →
    (position : Nat) → Except Fault (Option NodeId × Nat)
  | fuel + 1, some node, position =>
    if task.skips position then
      match arena.node? node with
      | none => .error .danglingNode
      | some { next, .. } => skip arena task fuel next (position + 1)
    else .ok (some node, position)
  | _, pc, position => .ok (pc, position)

/-- Passes over the children that the innermost combination does not want. -/
def skipUnwanted (arena : Arena) (s : State) : Except Fault State :=
  match s.frames.pop? with
  | some (.call f, frames) =>
    match f.task with
    | .call => .ok s
    | .form t =>
      match skip arena (.form t) (t.operandCount + 1) s.pc f.position with
      | .ok (pc, position) =>
        .ok { s with pc, frames := frames.push (.call { f with position }) }
      | .error fault => .error fault
  | _ => .ok s

/-- The state with one more step counted. -/
def tick (s : State) : State :=
  { s with stats := { s.stats with steps := s.stats.steps + 1 } }

/-- One step of the machine. -/
def step (arena : Arena) (limit : Option Nat) (s : State) : Progress :=
  let s := tick s
  match skipUnwanted arena s with
  | .error fault => s.crash fault
  | .ok s =>
    match s.pc with
    | some node => enter arena limit node s
    | none => reduce arena limit s

/-- Runs the machine for at most `fuel` steps.  There is no outcome if the
machine is still running then. -/
def run (arena : Arena) (limit : Option Nat) : (fuel : Nat) → State →
    Option (Except Error Value × State)
  | 0, _ => none
  | fuel + 1, s =>
    match step arena limit s with
    | .running s => run arena limit fuel s
    | .halted outcome s => some (outcome, s)

/-- More fuel does not change an outcome. -/
theorem run_of_le {arena : Arena} {limit : Option Nat} {n m : Nat} {s : State}
    {r : Except Error Value × State} (hle : n ≤ m) (hrun : run arena limit n s = some r) :
    run arena limit m s = some r := by
  induction n generalizing m s with
  | zero => simp [run] at hrun
  | succ n ih =>
    cases m with
    | zero => omega
    | succ m =>
      simp only [run] at hrun ⊢
      cases hstep : step arena limit s with
      | running t =>
        simp only [hstep] at hrun ⊢
        exact ih (by omega) hrun
      | halted outcome t =>
        simp only [hstep] at hrun ⊢
        exact hrun

end StackScheme.Machine
