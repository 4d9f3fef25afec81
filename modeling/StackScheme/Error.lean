import StackScheme.Value

/-!
# Errors

The causes for which an expression has no value.  `Error.kind` names the kind
of a cause and `Error.message` says what happened.
-/

namespace StackScheme

/-- How many arguments a procedure takes. -/
inductive Arity where
  | exactly (n : Nat)
  | atLeast (n : Nat)
  deriving DecidableEq, Repr

namespace Arity

/-- Whether so many arguments are accepted. -/
def admits : Arity → Nat → Bool
  | exactly n, received => received == n
  | atLeast n, received => n ≤ received

/-- The number of arguments in words. -/
def text : Arity → String
  | exactly n => Decimal.ofNat n
  | atLeast n => "at least " ++ Decimal.ofNat n

end Arity

/-- The kinds of operands that a builtin may insist on. -/
inductive OperandKind where
  | numbers
  | integers
  | strings
  deriving DecidableEq, Repr

/-- The kind of operands in words. -/
def OperandKind.text : OperandKind → String
  | numbers => "numbers"
  | integers => "integers"
  | strings => "strings"

/-- An integer operation whose result needs more than 64 bits. -/
inductive Overflow where
  /-- One step of a longer computation. -/
  | step (left : Int64) (sign : String) (right : Int64)
  /-- A whole operation. -/
  | operation (b : Builtin)
  deriving DecidableEq

/-- The operation in words. -/
def Overflow.text : Overflow → String
  | step left sign right =>
    Numeral.integerText left ++ " " ++ sign ++ " " ++ Numeral.integerText right
  | operation b => b.name

/-- A state that the machine cannot go on from.  No program leads to one. -/
inductive Fault where
  /-- A node lies outside of the arena. -/
  | danglingNode
  /-- A value is needed and the operand stack is empty. -/
  | noValue
  /-- The frame stack is empty. -/
  | noFrame
  /-- A body runs without a continuation. -/
  | noContinuation
  /-- The body of a procedure left more or less than one value. -/
  | unevenBody
  /-- The operand stack is lower than the base of a frame. -/
  | lowOperands
  /-- A frame ends without an operator. -/
  | noOperator
  /-- A special form was not prepared, or lacks an operand that it checked. -/
  | unpreparedForm
  deriving DecidableEq, Repr

/-- The fault in words. -/
def Fault.text : Fault → String
  | danglingNode => "a node lies outside of the arena"
  | noValue => "the operand stack is empty"
  | noFrame => "the frame stack is empty"
  | noContinuation => "a body runs without a continuation"
  | unevenBody => "a body left more or less than one value"
  | lowOperands => "the operand stack is lower than a frame"
  | noOperator => "a frame ends without an operator"
  | unpreparedForm => "a special form was not prepared"

/-- Why an expression has no value. -/
inductive Error where
  /-- The text cannot be read. -/
  | unreadable (cause : SyntaxError)
  /-- A name is not bound. -/
  | unbound (name : String)
  /-- A procedure gets the wrong number of arguments. -/
  | arity (callee : String) (expected : Arity) (received : Nat)
  /-- A special form has the wrong shape. -/
  | malformed (form : String)
  /-- A list is quoted. -/
  | quotedList (form : String)
  | divisionByZero
  /-- A builtin gets an operand of the wrong kind. -/
  | wrongOperand (b : Builtin) (expected : OperandKind) (got : Value)
  /-- The operator of a combination is no procedure. -/
  | notApplicable (operator : Value) (combination : String)
  /-- An integer needs more than 64 bits. -/
  | overflow (what : Overflow)
  /-- The evaluation is nested too deeply. -/
  | tooDeep (limit : Nat)
  /-- The sink refuses a write or a flush. -/
  | output (reason : String)
  /-- The machine is in a state that it cannot go on from. -/
  | internal (fault : Fault)

namespace Error

/-- The name of the kind of an error. -/
def kind : Error → String
  | unreadable _ => "SyntaxError"
  | unbound _ => "UnboundIdentifier"
  | arity .. => "ArityMismatch"
  | malformed _ | quotedList _ => "MalformedSpecialForm"
  | divisionByZero => "DivisionByZero"
  | wrongOperand .. | notApplicable .. => "TypeMismatch"
  | overflow _ => "NumericOverflow"
  | tooDeep _ => "StackOverflow"
  | output _ => "Output"
  | internal _ => "Internal"

/-- The error in words. -/
def message : Error → String
  | unreadable cause => "syntax error: " ++ cause.message
  | unbound name => "unbound identifier: " ++ name
  | arity callee expected received =>
    "wrong number of arguments to " ++ callee ++ ": expected " ++ expected.text ++
      ", got " ++ Decimal.ofNat received
  | malformed form => "malformed special form: " ++ form
  | quotedList form =>
    "malformed special form: quoted lists are not supported: " ++ form
  | divisionByZero => "division by zero"
  | wrongOperand b expected got =>
    "type mismatch: " ++ b.name ++ " expects " ++ expected.text ++ ", got " ++
      got.typeName ++ " " ++ got.text
  | notApplicable operator combination =>
    "type mismatch: cannot apply " ++ operator.text ++ " in " ++ combination
  | overflow what => "integer overflow in " ++ what.text
  | tooDeep limit =>
    "evaluation exceeded the maximum depth of " ++ Decimal.ofNat limit
  | output reason => "output error: " ++ reason
  | internal fault => "internal error: " ++ fault.text

end Error

end StackScheme
