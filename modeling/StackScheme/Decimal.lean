/-!
# Decimal text of whole numbers

Whole numbers are written in base ten without leading zeros, and a negative
number has a minus sign in front.

* Digits.  `digits` writes a natural number and `ofDigits` reads one;
  `ofDigits_digits` says that reading undoes writing.
* Signs.  `ofInt` is the text of an integer.  `splitSign` takes one leading
  sign off a text.
-/

namespace StackScheme.Decimal

/-! ## Digits -/

/-- The decimal digits of `n`, the most significant first. -/
def digits (n : Nat) : List Char :=
  Nat.toDigits 10 n

/-- The number that a run of decimal digits denotes.  The empty run denotes
zero. -/
def ofDigits (ds : List Char) : Nat :=
  Nat.ofDigitChars 10 ds 0

@[simp] theorem ofDigits_digits (n : Nat) : ofDigits (digits n) = n :=
  Nat.ofDigitChars_ten_toDigits

theorem digits_ne_nil (n : Nat) : digits n ≠ [] :=
  Nat.toDigits_ne_nil

theorem isDigit_of_mem_digits {n : Nat} {c : Char} (h : c ∈ digits n) :
    c.isDigit = true :=
  Nat.isDigit_of_mem_toDigits (by decide) (by decide) h

/-- The text of a natural number. -/
def ofNat (n : Nat) : String :=
  String.ofList (digits n)

/-! ## Signs -/

/-- The characters of an integer: its digits, after a minus sign if it is
negative. -/
def signedDigits : Int → List Char
  | .ofNat n => digits n
  | .negSucc n => '-' :: digits (n + 1)

/-- The text of an integer. -/
def ofInt (n : Int) : String :=
  String.ofList (signedDigits n)

/-- Takes one leading sign off, and says whether it was a minus sign. -/
def splitSign : List Char → Bool × List Char
  | '-' :: cs => (true, cs)
  | '+' :: cs => (false, cs)
  | cs => (false, cs)

end StackScheme.Decimal
