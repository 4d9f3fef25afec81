import StackScheme.Arena

/-!
# Values

What expressions evaluate to.

* Operators of the language.  `SpecialForm` are the operators that decide which
  of their operands are evaluated; `Builtin` are the procedures that are there
  from the start.
* `Closure` is a procedure made by a program.  A closure has an identity of its
  own, and so has each string literal.
* `Value` is the value of an expression, and `Value.text` its text.
-/

namespace StackScheme

/-! ## Operators of the language -/

/-- The operators that get their operands unevaluated. -/
inductive SpecialForm where
  | ifForm
  | lambdaForm
  | defineForm
  | setForm
  | quoteForm
  | andForm
  | orForm
  deriving DecidableEq, Repr

namespace SpecialForm

/-- The name under which a form is bound at the start. -/
def name : SpecialForm → String
  | ifForm => "if"
  | lambdaForm => "lambda"
  | defineForm => "define"
  | setForm => "set!"
  | quoteForm => "quote"
  | andForm => "and"
  | orForm => "or"

/-- All special forms. -/
def all : List SpecialForm :=
  [ifForm, lambdaForm, defineForm, setForm, quoteForm, andForm, orForm]

end SpecialForm

/-- The ways to compare two things that are ordered. -/
inductive Comparison where
  | less
  | lessEq
  | greater
  | greaterEq
  | equal
  deriving DecidableEq, Repr

namespace Comparison

/-- The sign of a comparison. -/
def sign : Comparison → String
  | less => "<"
  | lessEq => "<="
  | greater => ">"
  | greaterEq => ">="
  | equal => "="

/-- All comparisons. -/
def all : List Comparison :=
  [less, lessEq, greater, greaterEq, equal]

/-- Whether a comparison holds of two things in the given order. -/
def accepts : Comparison → Ordering → Bool
  | less, o => o == .lt
  | lessEq, o => o != .gt
  | greater, o => o == .gt
  | greaterEq, o => o != .lt
  | equal, o => o == .eq

end Comparison

/-- The procedures that are there from the start. -/
inductive Builtin where
  | add
  | subtract
  | multiply
  | divide
  | compare (c : Comparison)
  | abs
  | quotient
  | remainder
  | modulo
  | gcd
  | lcm
  | isExact
  | isInexact
  | not
  | isNumber
  | isInteger
  | isBoolean
  | isString
  | isSymbol
  | isProcedure
  | isEqv
  | isEq
  | isEqual
  | compareStrings (c : Comparison)
  | display
  | newline
  deriving DecidableEq, Repr

namespace Builtin

/-- The name under which a builtin is bound at the start. -/
def name : Builtin → String
  | add => "+"
  | subtract => "-"
  | multiply => "*"
  | divide => "/"
  | compare c => c.sign
  | abs => "abs"
  | quotient => "quotient"
  | remainder => "remainder"
  | modulo => "modulo"
  | gcd => "gcd"
  | lcm => "lcm"
  | isExact => "exact?"
  | isInexact => "inexact?"
  | not => "not"
  | isNumber => "number?"
  | isInteger => "integer?"
  | isBoolean => "boolean?"
  | isString => "string?"
  | isSymbol => "symbol?"
  | isProcedure => "procedure?"
  | isEqv => "eqv?"
  | isEq => "eq?"
  | isEqual => "equal?"
  | compareStrings c => "string" ++ c.sign ++ "?"
  | display => "display"
  | newline => "newline"

/-- All builtins. -/
def all : List Builtin :=
  [add, subtract, multiply, divide] ++ Comparison.all.map compare ++
    [abs, quotient, remainder, modulo, gcd, lcm, isExact, isInexact, not, isNumber,
      isInteger, isBoolean, isString, isSymbol, isProcedure, isEqv, isEq, isEqual] ++
    Comparison.all.map compareStrings ++ [display, newline]

end Builtin

/-! ## Closures -/

/-- The place of a scope in its store. -/
abbrev ScopeId := Nat

/-- A procedure made by a program.  Its body has at least one expression. -/
structure Closure where
  /-- The number of closures that were made before this one. -/
  serial : Nat
  /-- The name that the procedure was defined under. -/
  name : Option String
  parameters : List String
  /-- The first expression of the body. -/
  first : NodeId
  /-- The other expressions of the body. -/
  rest : List NodeId
  /-- The scope in which the procedure was made. -/
  scope : ScopeId
  deriving DecidableEq, Repr

namespace Closure

/-- The expressions of the body. -/
def body (c : Closure) : List NodeId :=
  c.first :: c.rest

/-- The text of a closure. -/
def text (c : Closure) : String :=
  match c.name with
  | some name => "#<procedure " ++ name ++ ">"
  | none => "#<procedure>"

end Closure

/-! ## Values -/

/-- The value of an expression. -/
inductive Value where
  | integer (n : Int64)
  | float (x : Float)
  | boolean (b : Bool)
  /-- The string of the literal at `literal`.  Each literal is one object. -/
  | string (contents : String) (literal : NodeId)
  | symbol (name : String)
  | unspecified
  | closure (c : Closure)
  | builtin (b : Builtin)
  | special (form : SpecialForm)

namespace Value

/-- The value that an atom stands for when it is not looked up.  `id` is the
node of the atom. -/
def ofAtom (id : NodeId) : Atom → Value
  | .integer n => integer n
  | .float x => float x
  | .boolean b => boolean b
  | .string contents => string contents id
  | .symbol name => symbol name

/-- Only `#f` is false. -/
def isTruthy : Value → Bool
  | boolean false => false
  | _ => true

/-- The type of a value in words. -/
def typeName : Value → String
  | integer _ => "integer"
  | float _ => "float"
  | boolean _ => "boolean"
  | string _ _ => "string"
  | symbol _ => "symbol"
  | unspecified => "unspecified"
  | closure _ | builtin _ => "procedure"
  | special _ => "special form"

/-- The text of a value.  A string is shown by its bare contents. -/
def text : Value → String
  | integer n => Numeral.integerText n
  | float x => Numeral.floatText x
  | boolean b => if b then "#t" else "#f"
  | string contents _ => contents
  | symbol name => name
  | unspecified => "#<unspecified>"
  | closure c => c.text
  | builtin b => "#<builtin " ++ b.name ++ ">"
  | special form => "#<special-form " ++ form.name ++ ">"

end Value

end StackScheme
