import StackScheme.Decimal
import StackScheme.Power

/-!
# Shortest decimals

A binary fraction `m · 2 ^ q` is written with the fewest decimal digits that
still read back as the same floating point number.  A decimal reads back when
it lies in the interval of the numbers that round to `m · 2 ^ q`; the ends of
the interval count when `m` is even, because a half rounds to even.

For one digit, two digits and so on, the two neighbours of the value on that
decimal grid are tried, in exact arithmetic on natural numbers.  The first grid
with a neighbour in the interval wins; of two such neighbours the nearer one is
taken, and `Tie` decides between two that are equally near.

* `Interval` holds the value and the two ends of its interval, scaled so that
  all three are natural numbers over one denominator.
* `candidate?` tries one grid and `shortest` tries them in turn.
-/

namespace StackScheme.Decimal

/-- Which of two equally near decimals is taken: the larger one, or the one
with the even last digit. -/
inductive Tie where
  | up
  | even
  deriving DecidableEq, Repr

/-- The decimal number `coefficient · 10 ^ exponent`. -/
structure Scaled where
  coefficient : Nat
  exponent : Int
  deriving DecidableEq, Repr

/-- A value between the two ends of its rounding interval.  The three numbers
are `low / unit`, `value / unit` and `high / unit`. -/
structure Interval where
  low : Nat
  value : Nat
  high : Nat
  unit : Nat
  /-- Whether the two ends belong to the interval. -/
  closed : Bool

namespace Interval

/-- The rounding interval of `m · 2 ^ q`.  The gap to the number below is half
as wide when `m` is the least normal significand. -/
def ofBinary (m : Nat) (q : Int) : Interval :=
  let narrow := m = twoTo 52 ∧ q ≠ -1074
  let scale := match q with | .ofNat e => twoTo e | .negSucc _ => 1
  let unit := match q with | .ofNat _ => 4 | .negSucc e => 4 * twoTo (e + 1)
  { low := (4 * m - if narrow then 1 else 2) * scale
    value := 4 * m * scale
    high := (4 * m + 2) * scale
    unit
    closed := m % 2 == 0 }

/-- The same interval in units of `10 ^ e`. -/
def inUnits (i : Interval) (e : Int) : Interval :=
  match e with
  | .ofNat e => { i with unit := i.unit * tenTo e }
  | .negSucc e =>
    let scale := tenTo (e + 1)
    { i with low := i.low * scale, value := i.value * scale, high := i.high * scale }

/-- Whether the whole number `n` lies in the interval. -/
def contains (i : Interval) (n : Nat) : Bool :=
  if i.closed then i.low ≤ n * i.unit && n * i.unit ≤ i.high
  else i.low < n * i.unit && n * i.unit < i.high

/-- The greatest `k` with `10 ^ k ≤ value / unit`, for a positive value. -/
def floorLog10 (i : Interval) : Int :=
  if i.unit ≤ i.value then ((digits (i.value / i.unit)).length : Int) - 1
  else -((digits ((i.unit - 1) / i.value)).length : Int)

/-- The whole number in the interval that is next to the value, if one of its
two neighbours is in the interval. -/
def candidate? (tie : Tie) (i : Interval) : Option Nat :=
  let below := i.value / i.unit
  let twice := 2 * (i.value % i.unit)
  match i.contains below, i.contains (below + 1) with
  | false, false => none
  | true, false => some below
  | false, true => some (below + 1)
  | true, true =>
    if twice < i.unit then some below
    else if i.unit < twice then some (below + 1)
    else match tie with
      | .up => some (below + 1)
      | .even => some (below + below % 2)

end Interval

/-- The first hit on the grids of `count`, `count + 1`, … digits, for a value
that is at least `10 ^ k`.  A hit that is a power of ten is written with one
digit.  `fuel` counts the grids to try. -/
def shortestFrom (tie : Tie) (i : Interval) (k : Int) : (fuel count : Nat) → Option Scaled
  | 0, _ => none
  | fuel + 1, count =>
    let e := k + 1 - count
    match (i.inUnits e).candidate? tie with
    | some n => some (if n = tenTo count then ⟨1, e + count⟩ else ⟨n, e⟩)
    | none => shortestFrom tie i k fuel (count + 1)

/-- The shortest decimal that reads back as `m · 2 ^ q`, for positive `m`.
Seventeen digits always suffice. -/
def shortest (tie : Tie) (m : Nat) (q : Int) : Scaled :=
  let i := Interval.ofBinary m q
  (shortestFrom tie i i.floorLog10 17 1).getD ⟨m, q⟩

end StackScheme.Decimal
