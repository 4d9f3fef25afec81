import StackScheme.Error
import StackScheme.Sink
import StackScheme.Stack
import StackScheme.Store

/-!
# Registers of the machine

The machine evaluates an expression without recursion.  What a recursive
evaluator would keep on the host stack is kept in three stacks: values that
wait for the rest of their combination, frames that say what is being
evaluated, and continuations of the procedures that are running.

* Frames.  A `CallFrame` is a combination part way through.  Its `Task` says
  whether its operator is an ordinary value or a special form, and a special
  form evaluates at most one operand in each pass.
* `Continuation` is the caller's state, saved while a procedure runs.
* `State` has all registers, and `Progress` is what one step leads to.
-/

namespace StackScheme

namespace Machine

/-! ## Frames -/

/-- A special form part way through. -/
structure FormTask where
  form : SpecialForm
  /-- `if` counts its passes from 0: the condition, then the branch.  `and` and
  `or` hold the position of the operand that is being evaluated, and 0 if there
  are no operands. -/
  pass : Nat
  /-- The position of the only operand that is evaluated in this pass.  The
  operator is at position 0 and the operands follow it. -/
  wanted : Option Nat
  operandCount : Nat
  deriving DecidableEq, Repr

namespace FormTask

/-- Whether the child at a position is passed over. -/
def skips (t : FormTask) (position : Nat) : Bool :=
  1 ≤ position && position ≤ t.operandCount && t.wanted != some position

/-- Whether the value of the operand that is being evaluated becomes the value
of the form, so that a call in it is a tail call. -/
def forwards (t : FormTask) : Bool :=
  match t.form with
  | .ifForm => t.pass == 1
  | .andForm | .orForm => 0 < t.pass && t.pass == t.operandCount
  | _ => false

end FormTask

/-- What is done with a combination. -/
inductive Task where
  /-- All children are evaluated, and the operator is applied. -/
  | call
  /-- The operator is a special form. -/
  | form (t : FormTask)
  deriving DecidableEq, Repr

namespace Task

/-- Whether the child at a position is passed over. -/
def skips : Task → Nat → Bool
  | call, _ => false
  | form t, position => t.skips position

/-- Whether a call in the child that is being evaluated is a tail call. -/
def forwards : Task → Bool
  | call => false
  | form t => t.forwards

end Task

/-- A combination part way through.  Its values lie on the operand stack above
`base`. -/
structure CallFrame where
  node : NodeId
  base : Nat
  /-- The position of the child that is evaluated next. -/
  position : Nat := 0
  task : Task := .call
  deriving DecidableEq, Repr

/-- What is being evaluated. -/
inductive Frame where
  /-- The whole expression. -/
  | topLevel
  /-- A combination. -/
  | call (f : CallFrame)
  /-- One expression of the body of a procedure. -/
  | body (base : Nat)
  deriving DecidableEq, Repr

/-- Whether a call is a tail call, judged by the frames that are left when its
own frame is gone: up to the body that is running, every frame must pass on
the value it gets. -/
def reachBody : List Frame → Bool
  | .call f :: frames => f.task.forwards && reachBody frames
  | .body _ :: _ => true
  | _ => false

/-- The number of upper frames that pass on the value they get. -/
def forwardingCount : List Frame → Nat
  | .call f :: frames => if f.task.forwards then forwardingCount frames + 1 else 0
  | _ => 0

/-- The operand stack without the values of the upper `count` frames. -/
def unwind (operands : Stack Value) : (count : Nat) → List Frame → Stack Value
  | count + 1, .call f :: frames => unwind (operands.truncate f.base) count frames
  | _, _ => operands

/-! ## Continuations -/

/-- The caller of a procedure that is running. -/
structure Continuation where
  callerScope : ScopeId
  /-- The combination that the value of the procedure is the value of. -/
  returnNode : NodeId
  /-- The expressions of the body after the one that is being evaluated. -/
  remaining : List NodeId
  deriving DecidableEq, Repr

/-! ## The state -/

/-- Counters of one evaluation. -/
structure Stats where
  steps : Nat := 0
  /-- The greatest number of continuations at one time. -/
  peakContinuations : Nat := 0
  deriving DecidableEq, Repr

/-- The registers. -/
structure State where
  /-- The node that is evaluated next; none at the end of a frame. -/
  pc : Option NodeId
  operands : Stack Value := .empty
  frames : Stack Frame
  scope : ScopeId := Store.globalScope
  continuations : Stack Continuation := .empty
  store : Store
  sink : Sink
  stats : Stats := {}

/-- What a step leads to: another state, or the outcome of the evaluation. -/
inductive Progress where
  | running (s : State)
  | halted (outcome : Except Error Value) (s : State)

namespace State

/-- The state in which the evaluation of an expression starts. -/
def initial (store : Store) (sink : Sink) (root : NodeId) : State where
  pc := some root
  frames := Stack.empty.push .topLevel
  store
  sink

/-- Ends the evaluation with an error. -/
def fail (s : State) (e : Error) : Progress :=
  .halted (.error e) s

/-- Ends the evaluation because of a fault. -/
def crash (s : State) (fault : Fault) : Progress :=
  .halted (.error (.internal fault)) s

/-- The number of frames and continuations. -/
def depth (s : State) : Nat :=
  s.frames.size + s.continuations.size

/-- The limit, if there is one and the depth has reached it. -/
def reachedLimit? (s : State) (limit : Option Nat) : Option Nat :=
  limit.filter fun l => l ≤ s.depth

/-- Whether a call whose frame is gone is in tail position: a procedure is
running, the call is in the last expression of its body, and the frames in
between pass on the value they get. -/
def inTailPosition (s : State) : Bool :=
  match s.continuations.top? with
  | none => false
  | some k => k.remaining.isEmpty && reachBody s.frames.items

end State

end Machine

end StackScheme
