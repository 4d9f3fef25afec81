import StackScheme.Error

/-!
# Builtin procedures

What a builtin does with its arguments.  A builtin changes nothing by itself:
it replies with a value, or with a text that is to be written.

* Checking.  The number of arguments is checked first, then the kind of each
  argument from left to right, and only then is anything computed.
* Numbers.  A computation on integers is exact or an overflow.  As soon as one
  operand is a floating point number, the step is done on floating point
  numbers.
* Equivalence.  `isEqv` compares strings and closures by identity, and
  `isEqual` compares strings by their contents.
* `Builtin.call` is the whole of a builtin.
-/

namespace StackScheme

/-! ## Numbers -/

/-- A number of the language. -/
inductive Number where
  | integer (n : Int64)
  | float (x : Float)

namespace Number

/-- The number as a value. -/
def value : Number → Value
  | integer n => .integer n
  | float x => .float x

/-- The floating point number nearest to a number. -/
def toFloat : Number → Float
  | integer n => Binary64.ofInt n.toInt
  | float x => x

/-- Whether a number is zero, of either sign. -/
def isZero : Number → Bool
  | integer n => n.toInt == 0
  | float x => x == 0.0

/-- One step of an arithmetic operation: exact on two integers, on floating
point numbers otherwise. -/
def combine (sign : String) (exact : Int → Int → Int) (inexact : Float → Float → Float)
    (a b : Number) : Except Error Number :=
  match a, b with
  | integer m, integer n =>
    match toInt64? (exact m.toInt n.toInt) with
    | some r => .ok (integer r)
    | none => .error (.overflow (.step m sign n))
  | a, b => .ok (float (inexact a.toFloat b.toFloat))

/-- One addition. -/
def add : Number → Number → Except Error Number :=
  combine "+" (· + ·) (· + ·)

/-- One subtraction. -/
def subtract : Number → Number → Except Error Number :=
  combine "-" (· - ·) (· - ·)

/-- One multiplication. -/
def multiply : Number → Number → Except Error Number :=
  combine "*" (· * ·) (· * ·)

/-- One division.  Integers that divide evenly give an integer, all other
numbers a floating point number. -/
def divide (a b : Number) : Except Error Number :=
  if b.isZero then .error .divisionByZero
  else
    match a, b with
    | integer m, integer n =>
      if m.toInt.tmod n.toInt = 0 then
        match toInt64? (m.toInt.tdiv n.toInt) with
        | some r => .ok (integer r)
        | none => .error (.overflow (.step m "/" n))
      else .ok (float (a.toFloat / b.toFloat))
    | a, b => .ok (float (a.toFloat / b.toFloat))

/-- Applies an operation from left to right, up to the first error. -/
def fold (op : Number → Number → Except Error Number) (acc : Number) :
    List Number → Except Error Number
  | [] => .ok acc
  | x :: xs =>
    match op acc x with
    | .ok acc => fold op acc xs
    | .error e => .error e

/-- The operation applied to a list of numbers: to `unit` and the number if
there is one number, and from the first number on otherwise. -/
def foldFromFirst (op : Number → Number → Except Error Number) (unit : Number) :
    List Number → Except Error Number
  | [] => .ok unit
  | [x] => op unit x
  | x :: xs => fold op x xs

/-- The order of two numbers.  Nothing is in order with a number that is not
one. -/
def order? (a b : Number) : Option Ordering :=
  match a, b with
  | integer m, integer n => some (compare m.toInt n.toInt)
  | a, b =>
    let x := a.toFloat
    let y := b.toFloat
    if x < y then some .lt
    else if y < x then some .gt
    else if x == y then some .eq
    else none

end Number

/-! ## Integers -/

/-- The quotient of two integers toward zero. -/
def Integer.quotient? (a b : Int64) : Option Int64 :=
  toInt64? (a.toInt.tdiv b.toInt)

/-- What is left by the quotient toward zero.  It exists where that quotient
does. -/
def Integer.remainder? (a b : Int64) : Option Int64 :=
  (Integer.quotient? a b).bind fun _ => toInt64? (a.toInt.tmod b.toInt)

/-- The remainder moved by the divisor where the signs of the two differ, which
gives it the sign of the divisor.  It exists where the quotient toward zero
does. -/
def Integer.modulo? (a b : Int64) : Option Int64 :=
  (Integer.remainder? a b).map fun r =>
    if r.toInt ≠ 0 ∧ (r.toInt < 0 ↔ ¬ b.toInt < 0) then r + b else r

/-- Euclid's algorithm: the greatest common divisor of two words without
sign. -/
def Integer.euclid (a b : Nat) : Nat :=
  if b = 0 then a else Integer.euclid b (a % b)
termination_by b
decreasing_by exact Nat.mod_lt a (Nat.pos_of_ne_zero ‹¬b = 0›)

/-- The greatest common divisor of magnitudes. -/
def Integer.gcd (ns : List Nat) : Nat :=
  ns.foldl Integer.euclid 0

/-- One step of a least common multiple, on words of 64 bits without sign. -/
def Integer.lcmStep? (acc n : Nat) : Option Nat :=
  if acc = 0 ∨ n = 0 then some 0
  else
    let multiple := acc / Integer.euclid acc n * n
    if multiple < UInt64.size then some multiple else none

/-- The least common multiple of magnitudes, up to the first step that does not
fit. -/
def Integer.lcm? (acc : Nat) : List Nat → Option Nat
  | [] => some acc
  | n :: ns => (Integer.lcmStep? acc n).bind fun acc => Integer.lcm? acc ns

/-! ## Equivalence -/

/-- Whether two values are the same thing. -/
def Value.isEqv : Value → Value → Bool
  | .integer m, .integer n => m == n
  | .float x, .float y => x == y
  | .boolean a, .boolean b => a == b
  | .symbol a, .symbol b => a == b
  | .string _ a, .string _ b => a == b
  | .unspecified, .unspecified => true
  | .closure c, .closure d => c.serial == d.serial
  | .builtin a, .builtin b => a == b
  | .special a, .special b => a == b
  | _, _ => false

/-- Whether two values are the same thing or strings with the same contents. -/
def Value.isEqual : Value → Value → Bool
  | .string a _, .string b _ => a == b
  | a, b => a.isEqv b

/-- The order of two texts by their characters. -/
def textOrder (a b : String) : Ordering :=
  if a < b then .lt else if a = b then .eq else .gt

namespace Builtin

/-! ## Checking -/

/-- How many arguments a builtin takes. -/
def arity : Builtin → Arity
  | add | multiply | gcd | lcm => .atLeast 0
  | subtract | divide => .atLeast 1
  | compare _ | compareStrings _ | quotient | remainder | modulo => .exactly 2
  | isEqv | isEq | isEqual => .exactly 2
  | newline => .exactly 0
  | abs | isExact | isInexact | not | isNumber | isInteger | isBoolean | isString
  | isSymbol | isProcedure | display => .exactly 1

/-- The argument as a number. -/
def number (b : Builtin) : Value → Except Error Number
  | .integer n => .ok (.integer n)
  | .float x => .ok (.float x)
  | v => .error (.wrongOperand b .numbers v)

/-- The argument as an integer. -/
def integer (b : Builtin) : Value → Except Error Int64
  | .integer n => .ok n
  | v => .error (.wrongOperand b .integers v)

/-- The argument as a text. -/
def string (b : Builtin) : Value → Except Error String
  | .string contents _ => .ok contents
  | v => .error (.wrongOperand b .strings v)

/-- Checks all arguments from left to right. -/
def checkAll {α : Type} (check : Value → Except Error α) : List Value → Except Error (List α)
  | [] => .ok []
  | v :: vs =>
    match check v with
    | .error e => .error e
    | .ok a =>
      match checkAll check vs with
      | .error e => .error e
      | .ok as => .ok (a :: as)

/-! ## Calling -/

/-- What a builtin asks for. -/
inductive Reply where
  /-- The call has this value. -/
  | value (v : Value)
  /-- This text is to be written, and the call has no specified value. -/
  | output (text : String)

/-- An arithmetic operation on all arguments. -/
def arithmetic (b : Builtin) (compute : List Number → Except Error Number) (args : List Value) :
    Except Error Reply :=
  match checkAll b.number args with
  | .error e => .error e
  | .ok xs => (compute xs).map fun x => .value x.value

/-- A division of two integers. -/
def integerDivision (b : Builtin) (divide : Int64 → Int64 → Option Int64) (args : List Value) :
    Except Error Reply :=
  match checkAll b.integer args with
  | .ok [m, n] =>
    if n.toInt = 0 then .error .divisionByZero
    else
      match divide m n with
      | some r => .ok (.value (.integer r))
      | none => .error (.overflow (.operation b))
  | .ok ns => .error (.arity b.name b.arity ns.length)
  | .error e => .error e

/-- An operation on the magnitudes of all arguments. -/
def onMagnitudes (b : Builtin) (compute : List Nat → Option Nat) (args : List Value) :
    Except Error Reply :=
  match checkAll b.integer args with
  | .error e => .error e
  | .ok ns =>
    match (compute (ns.map (·.toInt.natAbs))).bind fun n => toInt64? n with
    | some r => .ok (.value (.integer r))
    | none => .error (.overflow (.operation b))

/-- A test of one argument. -/
def predicate (b : Builtin) (test : Value → Bool) : List Value → Except Error Reply
  | [v] => .ok (.value (.boolean (test v)))
  | args => .error (.arity b.name b.arity args.length)

/-- A test of two arguments. -/
def relation (b : Builtin) (test : Value → Value → Bool) : List Value → Except Error Reply
  | [v, w] => .ok (.value (.boolean (test v w)))
  | args => .error (.arity b.name b.arity args.length)

/-- A comparison of two arguments after both are checked. -/
def comparison {α : Type} (b : Builtin) (check : Value → Except Error α) (test : α → α → Bool)
    (args : List Value) : Except Error Reply :=
  match checkAll check args with
  | .ok [x, y] => .ok (.value (.boolean (test x y)))
  | .ok xs => .error (.arity b.name b.arity xs.length)
  | .error e => .error e

/-- An operation on one number. -/
def onNumber (b : Builtin) (compute : Number → Except Error Value) (args : List Value) :
    Except Error Reply :=
  match checkAll b.number args with
  | .ok [x] => (compute x).map .value
  | .ok xs => .error (.arity b.name b.arity xs.length)
  | .error e => .error e

/-- The magnitude of a number. -/
def magnitude : Number → Except Error Value
  | .integer n =>
    match toInt64? n.toInt.natAbs with
    | some r => .ok (.integer r)
    | none => .error (.overflow (.operation abs))
  | .float x => .ok (.float x.abs)

/-- A builtin applied to as many arguments as it takes. -/
def compute (b : Builtin) (args : List Value) : Except Error Reply :=
  match b with
  | add => b.arithmetic (Number.fold Number.add (.integer 0)) args
  | multiply => b.arithmetic (Number.fold Number.multiply (.integer 1)) args
  | subtract => b.arithmetic (Number.foldFromFirst Number.subtract (.integer 0)) args
  | divide => b.arithmetic (Number.foldFromFirst Number.divide (.integer 1)) args
  | compare c =>
    b.comparison b.number (fun x y => (x.order? y).any c.accepts) args
  | abs => b.onNumber magnitude args
  | quotient => b.integerDivision Integer.quotient? args
  | remainder => b.integerDivision Integer.remainder? args
  | modulo => b.integerDivision Integer.modulo? args
  | gcd => b.onMagnitudes (fun ns => some (Integer.gcd ns)) args
  | lcm => b.onMagnitudes (Integer.lcm? 1) args
  | isExact =>
    b.onNumber (fun x => .ok (.boolean (match x with | .integer _ => true | _ => false))) args
  | isInexact =>
    b.onNumber (fun x => .ok (.boolean (match x with | .float _ => true | _ => false))) args
  | not => b.predicate (fun v => !v.isTruthy) args
  | isNumber =>
    b.predicate (fun v => match v with | .integer _ | .float _ => true | _ => false) args
  | isInteger =>
    b.predicate (fun v => match v with
      | .integer _ => true
      | .float x => Binary64.isWhole x
      | _ => false) args
  | isBoolean => b.predicate (fun v => match v with | .boolean _ => true | _ => false) args
  | isString => b.predicate (fun v => match v with | .string _ _ => true | _ => false) args
  | isSymbol => b.predicate (fun v => match v with | .symbol _ => true | _ => false) args
  | isProcedure =>
    b.predicate (fun v => match v with | .closure _ | .builtin _ => true | _ => false) args
  | isEqv | isEq => b.relation Value.isEqv args
  | isEqual => b.relation Value.isEqual args
  | compareStrings c => b.comparison b.string (fun x y => c.accepts (textOrder x y)) args
  | display =>
    match args with
    | [v] => .ok (.output v.text)
    | _ => .error (.arity b.name b.arity args.length)
  | newline => .ok (.output "\n")

/-- A builtin applied to arguments. -/
def call (b : Builtin) (args : List Value) : Except Error Reply :=
  if b.arity.admits args.length then b.compute args
  else .error (.arity b.name b.arity args.length)

end Builtin

end StackScheme
