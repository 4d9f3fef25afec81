import StackScheme.Binary64
import StackScheme.Decimal.Layout

/-!
# Numerals

The text of integers and floating point numbers, and how it is read.

* Integers.  `toInt64?` is the 64-bit integer of that value, if there is one.
  `integer?` reads an optional sign and digits.
* Floating point numbers.  `decimal?` reads an optional sign, digits with an
  optional point and an optional power of ten, and gives the nearest number.
* `floatText` writes a floating point number.  It always has a point, so that
  it reads back as a floating point number, and never a power of ten.
-/

namespace StackScheme

/-- The 64-bit integer with value `n`, if there is one. -/
def toInt64? (n : Int) : Option Int64 :=
  let word := Int64.ofInt n
  if word.toInt = n then some word else none

/-- The 64-bit integer that is found has the value that was asked for. -/
theorem toInt64?_eq_some_iff {n : Int} {word : Int64} :
    toInt64? n = some word ↔ word.toInt = n := by
  simp only [toInt64?, Option.ite_none_right_eq_some, Option.some.injEq]
  constructor
  · rintro ⟨h, rfl⟩
    exact h
  · rintro rfl
    simp

namespace Numeral

/-! ## Integers -/

/-- The integer that an optional sign and one or more digits denote. -/
def integer? (cs : List Char) : Option Int :=
  let (negative, ds) := Decimal.splitSign cs
  if !ds.isEmpty && ds.all Char.isDigit then
    let n : Int := Decimal.ofDigits ds
    some (if negative then -n else n)
  else none

/-- The text of an integer. -/
def integerText (n : Int64) : String :=
  Decimal.ofInt n.toInt

/-! ## Floating point numbers -/

/-- The floating point number nearest to `± coefficient · 10 ^ exponent`.  The
first two tests settle numbers that are far out of range without computing
their power of ten. -/
def nearest (negative : Bool) (coefficient : Nat) (exponent : Int) : Float :=
  let size : Int := (Decimal.digits coefficient).length + exponent
  if coefficient = 0 ∨ size < -330 then Binary64.ofRatio negative 0 1
  else if 310 < size then Binary64.ofRatio negative (tenTo 310) 1
  else match exponent with
    | .ofNat e => Binary64.ofRatio negative (coefficient * tenTo e) 1
    | .negSucc e => Binary64.ofRatio negative coefficient (tenTo (e + 1))

/-- The power of ten at the end of a numeral: nothing, or `e` or `E` and an
integer. -/
def power? : List Char → Option Int
  | [] => some 0
  | c :: cs => if c = 'e' ∨ c = 'E' then integer? cs else none

/-- The number that a decimal numeral denotes.  There must be a digit on at
least one side of the point. -/
def decimal? (cs : List Char) : Option Float :=
  let (negative, cs) := Decimal.splitSign cs
  let (whole, cs) := cs.span Char.isDigit
  let (fraction, cs) := match cs with
    | '.' :: cs => cs.span Char.isDigit
    | cs => ([], cs)
  if whole.isEmpty && fraction.isEmpty then none
  else (power? cs).map fun power =>
    nearest negative (Decimal.ofDigits (whole ++ fraction)) (power - fraction.length)

/-- The text of a floating point number.  A whole number shows all its digits
and `.0`; any other number shows the fewest digits that read back, the larger
of two equally near decimals being taken. -/
def floatText (x : Float) : String :=
  match Binary64.ofFloat x with
  | .nan => "NaN"
  | .infinite negative => if negative then "-inf" else "inf"
  | .finite negative significand exponent =>
    let magnitude := match Binary64.wholePart? significand exponent with
      | some n => Decimal.ofNat n ++ ".0"
      | none => (Decimal.shortest .up significand exponent).positional
    if negative then "-" ++ magnitude else magnitude

end Numeral

end StackScheme
