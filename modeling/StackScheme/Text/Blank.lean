/-!
# Blank characters

Two classes of blanks that differ.  `isBlank` is the White_Space property of
the Unicode character database: no such character is part of a word.
`isSeparator` is the class of the five blanks that may stand between tokens.
A blank that is no separator belongs to no token at all.

`isBlank_of_isSeparator` orders the two classes.
-/

namespace StackScheme.Text

/-- The characters with the property White_Space. -/
def isBlank (c : Char) : Bool :=
  let n := c.toNat
  (0x9 ≤ n && n ≤ 0xD) || n == 0x20 || n == 0x85 || n == 0xA0 || n == 0x1680 ||
    (0x2000 ≤ n && n ≤ 0x200A) || n == 0x2028 || n == 0x2029 || n == 0x202F ||
    n == 0x205F || n == 0x3000

/-- The blanks that divide tokens: space, tab, carriage return, line feed and
form feed. -/
def isSeparator (c : Char) : Bool :=
  c == ' ' || c == '\t' || c == '\r' || c == '\n' || c == '\x0c'

theorem isBlank_of_isSeparator {c : Char} (h : isSeparator c = true) :
    isBlank c = true := by
  simp only [isSeparator, Bool.or_eq_true, beq_iff_eq] at h
  rcases h with (((rfl | rfl) | rfl) | rfl) | rfl <;> decide

end StackScheme.Text
