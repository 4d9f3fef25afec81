import StackScheme.Power

/-!
# Binary floating point numbers of 64 bits

A finite number is `± significand · 2 ^ exponent`, with a significand below
`2 ^ 53` and an exponent of at least `-1074`.  This module takes a `Float`
apart and rounds an exact ratio to the nearest number of the format; both work
on natural numbers and on the bit pattern, so they say exactly what happens.

* Taking apart.  `Binary64.ofFloat` reads the three fields of the bit pattern.
* Whole numbers.  `wholePart?` is the magnitude of a number that has no
  fractional part.
* Rounding.  `nearestBits` is the bit pattern of the number nearest to a
  ratio, with a half going to the even neighbour, and `ofRatio` adds the sign.
-/

namespace StackScheme

/-- A floating point number by its parts.  The value of `finite` is
`significand · 2 ^ exponent`, negated if `negative` holds. -/
inductive Binary64 where
  | finite (negative : Bool) (significand : Nat) (exponent : Int)
  | infinite (negative : Bool)
  | nan
  deriving DecidableEq, Repr

namespace Binary64

/-! ## Taking apart -/

/-- The parts of the number with the given bit pattern: one sign bit, eleven
bits of exponent, fifty-two bits of fraction. -/
def ofBits (bits : Nat) : Binary64 :=
  let fraction : Nat := bits % twoTo 52
  let field : Nat := bits / twoTo 52 % twoTo 11
  let negative := decide (bits / twoTo 63 % 2 = 1)
  if field = 2047 then
    if fraction = 0 then .infinite negative else .nan
  else if field = 0 then .finite negative fraction (-1074)
  else .finite negative (twoTo 52 + fraction) ((field : Int) - 1075)

/-- The parts of `x`. -/
def ofFloat (x : Float) : Binary64 :=
  ofBits x.toBits.toNat

/-! ## Whole numbers -/

/-- The number `significand · 2 ^ exponent`, if it is whole. -/
def wholePart? (significand : Nat) (exponent : Int) : Option Nat :=
  match exponent with
  | .ofNat e => some (significand * twoTo e)
  | .negSucc e =>
    if significand % twoTo (e + 1) = 0 then some (significand / twoTo (e + 1)) else none

/-- Whether `x` is finite and has no fractional part. -/
def isWhole (x : Float) : Bool :=
  match ofFloat x with
  | .finite _ significand exponent => (wholePart? significand exponent).isSome
  | _ => false

/-! ## Rounding -/

/-- The quotient `num / den` rounded to the nearest whole number, a half going
to the even one. -/
def roundHalfEven (num den : Nat) : Nat :=
  let quotient := num / den
  let twice := 2 * (num % den)
  if twice < den then quotient
  else if den < twice then quotient + 1
  else quotient + quotient % 2

/-- The greatest `k` with `2 ^ k ≤ num / den`, for positive `num` and `den`. -/
def floorLog2 (num den : Nat) : Int :=
  let k : Int := (num.log2 : Int) - den.log2
  let fits : Bool :=
    match k with
    | .ofNat e => den * twoTo e ≤ num
    | .negSucc e => den ≤ num * twoTo (e + 1)
  if fits then k else k - 1

/-- The bit pattern of infinity, which is also the least pattern that is too
large for a finite magnitude. -/
def infinityBits : Nat := 2047 * twoTo 52

/-- The bit pattern of the number nearest to `num / den`.

The unit in the last place is `2 ^ q`.  A pattern is `(q + 1074) · 2 ^ 52` plus
the significand, for normal and for subnormal numbers alike, and a significand
that rounds up to `2 ^ 53` carries into the exponent by itself. -/
def nearestBits (num den : Nat) : Nat :=
  if num = 0 then 0
  else
    let q : Int := max (floorLog2 num den - 52) (-1074)
    let significand :=
      match q with
      | .ofNat e => roundHalfEven num (den * twoTo e)
      | .negSucc e => roundHalfEven (num * twoTo (e + 1)) den
    min infinityBits ((q + 1074).toNat * twoTo 52 + significand)

/-- The floating point number nearest to `num / den`, negated on demand. -/
def ofRatio (negative : Bool) (num den : Nat) : Float :=
  Float.ofBits (UInt64.ofNat (nearestBits num den + if negative then twoTo 63 else 0))

/-- The floating point number nearest to an integer. -/
def ofInt (n : Int) : Float :=
  ofRatio (decide (n < 0)) n.natAbs 1

end Binary64

end StackScheme
