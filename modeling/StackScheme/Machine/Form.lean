import StackScheme.Machine.State

/-!
# Special forms

A special form is prepared as soon as its operator is known: `prepare` checks
its shape and says which operand is evaluated first.  After each pass, `perform`
says what comes next.  Neither of them changes anything; what a form asks for is
a `FormStep`.
-/

namespace StackScheme.Machine

/-- What a special form asks for after a pass. -/
inductive FormStep where
  /-- The form has this value. -/
  | value (v : Value)
  /-- A name is bound in the current scope. -/
  | bind (name : String) (v : Value)
  /-- The nearest binding of a name is changed. -/
  | assign (name : String) (v : Value)
  /-- A procedure without a name is made. -/
  | lambda (parameters : List String) (first : NodeId) (rest : List NodeId)
  /-- A procedure is made and bound to its name in the current scope. -/
  | procedure (name : String) (parameters : List String) (first : NodeId) (rest : List NodeId)
  /-- The operands are gone through once more. -/
  | again (t : FormTask)

/-- The error for the form at `node`. -/
def malformed {α : Type} (arena : Arena) (node : NodeId) : Except Error α :=
  .error (.malformed (arena.render node))

/-- The names of parameter nodes, if all of them are symbols and no name is
there twice. -/
def parameters? (arena : Arena) (ids : List NodeId) : Option (List String) :=
  match ids.mapM arena.symbol? with
  | some names => if names.Nodup then some names else none
  | none => none

/-! ## Preparing -/

/-- The task of a form whose operands are at hand. -/
def firstPass (form : SpecialForm) (operands : List NodeId) (pass : Nat) (wanted : Option Nat) :
    Except Error FormTask :=
  .ok { form, pass, wanted, operandCount := operands.length }

/-- Checks the shape of the form at `node`, before any operand is evaluated. -/
def prepare (arena : Arena) (node : NodeId) (form : SpecialForm) : Except Error FormTask :=
  let operands := arena.operands node
  match form with
  | .ifForm =>
    if operands.length = 2 ∨ operands.length = 3 then firstPass form operands 0 (some 1)
    else malformed arena node
  | .lambdaForm =>
    if 2 ≤ operands.length then firstPass form operands 0 none else malformed arena node
  | .defineForm =>
    match operands.head?.bind arena.node? with
    | some { shape := .atom (.symbol _), .. } =>
      if operands.length = 2 then firstPass form operands 0 (some 2) else malformed arena node
    | some { shape := .compound _, .. } =>
      if 2 ≤ operands.length then firstPass form operands 0 none else malformed arena node
    | _ => malformed arena node
  | .setForm =>
    if operands.length = 2 ∧ (operands.head?.bind arena.symbol?).isSome then
      firstPass form operands 0 (some 2)
    else malformed arena node
  | .quoteForm =>
    if operands.length = 1 then firstPass form operands 0 none else malformed arena node
  | .andForm | .orForm =>
    if operands.isEmpty then firstPass form operands 0 none
    else firstPass form operands 1 (some 1)

/-! ## Performing -/

/-- The value of a pass.  A pass that evaluates nothing has no specified
value. -/
def passValue (values : List Value) : Value :=
  values.head?.getD .unspecified

/-- `if` after a pass: the condition chooses the branch, and the value of the
branch is the value of the form. -/
def performIf (t : FormTask) (value : Value) : FormStep :=
  if t.pass = 0 then
    let chosen := if value.isTruthy then 2 else 3
    .again { t with pass := 1, wanted := if chosen ≤ t.operandCount then some chosen else none }
  else .value value

/-- `and` and `or` after a pass: the first operand that decides gives the value,
and otherwise the last one does. -/
def performSequence (t : FormTask) (value : Value) : FormStep :=
  if t.pass = 0 then .value (.boolean (t.form = .andForm))
  else
    let decided := if t.form = .andForm then !value.isTruthy else value.isTruthy
    if decided ∨ t.pass = t.operandCount then .value value
    else .again { t with pass := t.pass + 1, wanted := some (t.pass + 1) }

/-- `lambda`: the first operand lists the parameters and the others are the
body. -/
def performLambda (arena : Arena) (node : NodeId) : Except Error FormStep :=
  match arena.operands node with
  | formals :: first :: rest =>
    match arena.node? formals with
    | none => .error (.internal .danglingNode)
    | some { shape := .atom _, .. } => malformed arena node
    | some _ =>
      match parameters? arena (arena.children formals) with
      | some names => .ok (.lambda names first rest)
      | none => malformed arena node
  | _ => .error (.internal .unpreparedForm)

/-- `define`: binds a name to a value, or to a procedure whose signature is the
first operand. -/
def performDefine (arena : Arena) (node : NodeId) (value : Value) : Except Error FormStep :=
  match arena.operands node with
  | target :: first :: rest =>
    match arena.symbol? target with
    | some name => .ok (.bind name value)
    | none =>
      match arena.children target with
      | [] => malformed arena node
      | nameNode :: formals =>
        match arena.symbol? nameNode, parameters? arena formals with
        | some name, some names => .ok (.procedure name names first rest)
        | _, _ => malformed arena node
  | _ => .error (.internal .unpreparedForm)

/-- `set!`: changes the value of a name. -/
def performSet (arena : Arena) (node : NodeId) (value : Value) : Except Error FormStep :=
  match (arena.operands node).head?.bind arena.symbol? with
  | some name => .ok (.assign name value)
  | none => .error (.internal .unpreparedForm)

/-- `quote`: the operand itself.  The empty list has no specified value, and
other lists cannot be quoted. -/
def performQuote (arena : Arena) (node : NodeId) : Except Error FormStep :=
  match arena.operands node with
  | datum :: _ =>
    match arena.node? datum with
    | none => .error (.internal .danglingNode)
    | some { shape := .atom a, .. } => .ok (.value (.ofAtom datum a))
    | some { shape := .empty, .. } => .ok (.value .unspecified)
    | some { shape := .compound _, .. } => .error (.quotedList (arena.render node))
  | [] => .error (.internal .unpreparedForm)

/-- What the form at `node` asks for after a pass that evaluated `values`. -/
def perform (arena : Arena) (node : NodeId) (t : FormTask) (values : List Value) :
    Except Error FormStep :=
  match t.form with
  | .ifForm => .ok (performIf t (passValue values))
  | .lambdaForm => performLambda arena node
  | .defineForm => performDefine arena node (passValue values)
  | .setForm => performSet arena node (passValue values)
  | .quoteForm => performQuote arena node
  | .andForm | .orForm => .ok (performSequence t (passValue values))

end StackScheme.Machine
