import StackScheme.Decimal.Shortest

/-!
# Layout of decimal numbers

Two ways to write `coefficient · 10 ^ exponent`: `positional`, which keeps at
least one digit on each side of the point, and `scientific`, which puts the
point after the first digit and states the power of ten.
-/

namespace StackScheme.Decimal.Scaled

/-- The power of ten of the first digit. -/
def magnitude (d : Scaled) : Int :=
  d.exponent + (digits d.coefficient).length - 1

/-- The number without a power of ten, such as `120.0`, `1.25` or `0.001`. -/
def positional (d : Scaled) : String :=
  let ds := digits d.coefficient
  match d.exponent with
  | .ofNat e => String.ofList (ds ++ List.replicate e '0' ++ ['.', '0'])
  | .negSucc e =>
    let places := e + 1
    if places < ds.length then
      String.ofList (ds.take (ds.length - places) ++ '.' :: ds.drop (ds.length - places))
    else String.ofList ('0' :: '.' :: List.replicate (places - ds.length) '0' ++ ds)

/-- The number with a power of ten, such as `1e+16` or `1.23e-7`.  The sign of
the power is always written. -/
def scientific (d : Scaled) : String :=
  let ds := digits d.coefficient
  let significand := match ds with
    | [] => []
    | [c] => [c]
    | c :: rest => c :: '.' :: rest
  let power := match d.magnitude with
    | .ofNat e => '+' :: digits e
    | .negSucc e => '-' :: digits (e + 1)
  String.ofList (significand ++ 'e' :: power)

end StackScheme.Decimal.Scaled
