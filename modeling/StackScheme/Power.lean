/-!
# Powers of two and ten

The two bases that number formats are about.
-/

namespace StackScheme

/-- Two to the power of `n`. -/
abbrev twoTo (n : Nat) : Nat :=
  Nat.pow 2 n

/-- Ten to the power of `n`. -/
abbrev tenTo (n : Nat) : Nat :=
  Nat.pow 10 n

end StackScheme
