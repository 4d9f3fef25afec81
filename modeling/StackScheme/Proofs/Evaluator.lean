import StackScheme.Machine.Step

/-!
# The recursive evaluator

The meaning of expressions, without a machine.  An expression is evaluated in a
scope by evaluating its parts, and all that evaluation changes is the store and
the sink.

* Effects.  An `Effect` gets a world and ends with a value or an error in another
  world.  One that runs out of fuel does not end.
* Parts.  `evalAll` evaluates operands, `evalBody` a body, and `evalUntil` the
  operands of `and` and `or`.
* Combinations.  `evalForm` is what a special form does with its operands, and
  `apply` what a procedure does with its arguments.
* `eval` is the evaluator.  Its fuel bounds how deep evaluations are nested.
-/

namespace StackScheme

/-- All that an evaluation may change. -/
structure World where
  store : Store
  sink : Sink

/-! ## Effects -/

/-- What an evaluation does to a world.  There is no outcome if it does not end. -/
def Effect (α : Type) : Type :=
  World → Option (Except Error α × World)

namespace Effect

instance : Monad Effect where
  pure a := fun w => some (.ok a, w)
  bind x f := fun w =>
    match x w with
    | none => none
    | some (.error e, w) => some (.error e, w)
    | some (.ok a, w) => f a w

/-- Ends with an error. -/
def fail {α : Type} (e : Error) : Effect α :=
  fun w => some (.error e, w)

/-- Does not end. -/
def diverge {α : Type} : Effect α :=
  fun _ => none

/-- Reads the store. -/
def store : Effect Store :=
  fun w => some (.ok w.store, w)

/-- Changes the store. -/
def setStore (store : Store) : Effect Unit :=
  fun w => some (.ok (), { w with store })

/-- Asks the sink to take a text. -/
def write (text : String) : Effect Unit :=
  fun w =>
    match w.sink.write text with
    | (none, sink) => some (.ok (), { w with sink })
    | (some reason, sink) => some (.error (.output reason), { w with sink })

end Effect

namespace Evaluator

open Effect

/-! ## Names -/

/-- The value of a name. -/
def lookup (scope : ScopeId) (name : String) : Effect Value := do
  match (← store).lookup? scope name with
  | some v => pure v
  | none => fail (.unbound name)

/-- Binds a name in a scope. -/
def define (scope : ScopeId) (name : String) (v : Value) : Effect Value := do
  setStore ((← store).bind scope name v)
  pure .unspecified

/-- Changes the nearest binding of a name. -/
def assign (scope : ScopeId) (name : String) (v : Value) : Effect Value := do
  match (← store).holder? scope name with
  | some holder => define holder name v
  | none => fail (.unbound name)

/-- Makes a procedure. -/
def close (scope : ScopeId) (name : Option String) (parameters : List String) (first : NodeId)
    (rest : List NodeId) : Effect Value := do
  let store ← store
  setStore store.newSerial
  pure (.closure { serial := store.closures, name, parameters, first, rest, scope })

/-! ## Parts -/

section Parts

variable (eval : NodeId → Effect Value)

/-- The values of expressions, from left to right. -/
def evalAll : List NodeId → Effect (List Value)
  | [] => pure []
  | node :: nodes => do
    let v ← eval node
    let vs ← evalAll nodes
    pure (v :: vs)

/-- The value of the last expression of a body. -/
def evalBody : (first : NodeId) → (rest : List NodeId) → Effect Value
  | node, [] => eval node
  | node, next :: rest => do
    let _ ← eval node
    evalBody next rest

/-- The value of the first expression that decides, or of the last one.  There
may be no expression at all. -/
def evalUntil (decides : Value → Bool) (none : Value) : List NodeId → Effect Value
  | [] => pure none
  | [node] => eval node
  | node :: next :: rest => do
    let v ← eval node
    if decides v then pure v else evalUntil decides none (next :: rest)

end Parts

/-! ## Combinations -/

section Combinations

variable (arena : Arena)

/-- The error for a special form of the wrong shape. -/
def malformed (node : NodeId) : Effect Value :=
  fail (.malformed (arena.render node))

/-- The parameters that a list of names stands for.  An atom is no list. -/
def formals? (id : NodeId) : Option (List String) :=
  match arena.node? id with
  | some { shape := .atom _, .. } => none
  | _ => Machine.parameters? arena (arena.children id)

/-- `(if condition consequent)` and `(if condition consequent alternative)`. -/
def evalIf (eval : NodeId → Effect Value) (node : NodeId) : Effect Value :=
  match arena.operands node with
  | [condition, consequent] => do
    if (← eval condition).isTruthy then eval consequent else pure .unspecified
  | [condition, consequent, alternative] => do
    if (← eval condition).isTruthy then eval consequent else eval alternative
  | _ => malformed arena node

/-- `(lambda (name …) expression …)`. -/
def evalLambda (scope : ScopeId) (node : NodeId) : Effect Value :=
  match arena.operands node with
  | formals :: first :: rest =>
    match formals? arena formals with
    | some parameters => close scope none parameters first rest
    | none => malformed arena node
  | _ => malformed arena node

/-- `(define name expression)` and `(define (name name …) expression …)`. -/
def evalDefine (eval : NodeId → Effect Value) (scope : ScopeId) (node : NodeId) :
    Effect Value :=
  match arena.operands node with
  | target :: first :: rest =>
    match arena.symbol? target with
    | some name =>
      if rest = [] then do define scope name (← eval first) else malformed arena node
    | none =>
      match arena.children target with
      | [] => malformed arena node
      | nameNode :: formals =>
        match arena.symbol? nameNode, Machine.parameters? arena formals with
        | some name, some parameters => do
          define scope name (← close scope (some name) parameters first rest)
        | _, _ => malformed arena node
  | _ => malformed arena node

/-- `(set! name expression)`. -/
def evalSet (eval : NodeId → Effect Value) (scope : ScopeId) (node : NodeId) :
    Effect Value :=
  match arena.operands node with
  | [target, expression] =>
    match arena.symbol? target with
    | some name => do assign scope name (← eval expression)
    | none => malformed arena node
  | _ => malformed arena node

/-- `(quote datum)`. -/
def evalQuote (node : NodeId) : Effect Value :=
  match arena.operands node with
  | [datum] =>
    match arena.node? datum with
    | some { shape := .atom a, .. } => pure (.ofAtom datum a)
    | some { shape := .compound _, .. } => fail (.quotedList (arena.render node))
    | _ => pure .unspecified
  | _ => malformed arena node

/-- A special form decides which of its operands are evaluated. -/
def evalForm (eval : NodeId → Effect Value) (scope : ScopeId) (node : NodeId) :
    SpecialForm → Effect Value
  | .ifForm => evalIf arena eval node
  | .lambdaForm => evalLambda arena scope node
  | .defineForm => evalDefine arena eval scope node
  | .setForm => evalSet arena eval scope node
  | .quoteForm => evalQuote arena node
  | .andForm => evalUntil eval (fun v => !v.isTruthy) (.boolean true) (arena.operands node)
  | .orForm => evalUntil eval Value.isTruthy (.boolean false) (arena.operands node)

/-- A builtin gives a value or writes a text. -/
def applyBuiltin (b : Builtin) (args : List Value) : Effect Value :=
  match b.call args with
  | .error e => fail e
  | .ok (.value v) => pure v
  | .ok (.output text) => do
    write text
    pure .unspecified

/-- A procedure evaluates its body in a new scope inside of the one in which it
was made. -/
def applyClosure (eval : ScopeId → NodeId → Effect Value) (c : Closure)
    (args : List Value) : Effect Value :=
  if args.length ≠ c.parameters.length then
    fail (.arity c.text (.exactly c.parameters.length) args.length)
  else do
    let store ← store
    setStore (store.extend c.scope (c.parameters.zip args))
    evalBody (eval store.nextScope) c.first c.rest

/-- Applies the operator of the combination at `node` to its arguments. -/
def apply (eval : ScopeId → NodeId → Effect Value) (node : NodeId) (operator : Value)
    (args : List Value) : Effect Value :=
  match operator with
  | .builtin b => applyBuiltin b args
  | .closure c => applyClosure eval c args
  | v => fail (.notApplicable v (arena.render node))

/-- What the value of the operator is used for.  Unless it is a special form, all
operands are evaluated. -/
def evalRest (eval : ScopeId → NodeId → Effect Value) (scope : ScopeId) (node : NodeId) :
    (operator : Value) → Effect Value
  | .special form => evalForm arena (eval scope) scope node form
  | operator => do
    let args ← evalAll (eval scope) (arena.operands node)
    apply arena eval node operator args

theorem evalRest_of_ne_special (eval : ScopeId → NodeId → Effect Value) (scope : ScopeId)
    (node : NodeId) {operator : Value} (h : ∀ form, operator ≠ .special form) :
    evalRest arena eval scope node operator = (do
      let args ← evalAll (eval scope) (arena.operands node)
      apply arena eval node operator args) := by
  unfold evalRest
  split
  · exact absurd rfl (h _)
  · rfl

/-- The operator is evaluated first. -/
def evalCombination (eval : ScopeId → NodeId → Effect Value) (scope : ScopeId)
    (node operator : NodeId) : Effect Value := do
  evalRest arena eval scope node (← eval scope operator)

/-! ## The evaluator -/

/-- The value of the expression at `node`, given how its parts are evaluated. -/
def evalNode (eval : ScopeId → NodeId → Effect Value) (scope : ScopeId) (node : NodeId) :
    Effect Value :=
  match arena.node? node with
  | none => fail (.internal .danglingNode)
  | some { shape := .atom (.symbol name), .. } => lookup scope name
  | some { shape := .atom a, .. } => pure (.ofAtom node a)
  | some { shape := .empty, .. } => pure .unspecified
  | some { shape := .compound operator, .. } => evalCombination arena eval scope node operator

/-- The value of the expression at `node`. -/
def eval : (fuel : Nat) → ScopeId → NodeId → Effect Value
  | 0, _, _ => diverge
  | fuel + 1, scope, node => evalNode arena (eval fuel) scope node

end Combinations

end Evaluator

end StackScheme
