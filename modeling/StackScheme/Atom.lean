import StackScheme.Numeral
import StackScheme.Text.Alphanumeric
import StackScheme.Token

/-!
# Atoms

The leaves of an expression: numbers, booleans, strings and symbols.

* Words.  `Atom.ofWord` says which atom a word is.  A word that is a numeral is
  accepted only in the form in which its value is printed, so that each number
  has one spelling.
* Writing.  `Atom.token` is the token of an atom and `Atom.text` its text.
-/

namespace StackScheme

/-- A leaf of an expression. -/
inductive Atom where
  | integer (n : Int64)
  | float (x : Float)
  | boolean (b : Bool)
  | string (contents : String)
  | symbol (name : String)

namespace Atom

/-! ## Writing -/

/-- The token that an atom is read from. -/
def token : Atom → Token
  | integer n => .word (Numeral.integerText n)
  | float x => .word (Numeral.floatText x)
  | boolean b => .word (if b then "#t" else "#f")
  | string contents => .string contents
  | symbol name => .word name

/-- The text of an atom. -/
def text (a : Atom) : String :=
  a.token.text

/-! ## Words -/

/-- Whether a word has a digit and is made of digits, signs, points and
exponent marks. -/
def looksNumeric (cs : List Char) : Bool :=
  cs.any Char.isDigit &&
    cs.all fun c => c.isDigit || c == '+' || c == '-' || c == '.' || c == 'e' || c == 'E'

/-- The punctuation that names may hold. -/
def isNamePunctuation (c : Char) : Bool :=
  "!$%&*+-./:<=>?@^_~".toList.contains c

/-- Whether a word is a name: letters, numeric characters and punctuation, the
first of them no decimal digit. -/
def isIdentifier (cs : List Char) : Bool :=
  match cs with
  | [] => false
  | c :: _ => !c.isDigit && cs.all fun c => isNamePunctuation c || Text.isAlphanumeric c

/-- Accepts a numeral if it is the printed form of its value. -/
def canonical (word : String) (a : Atom) : Except SyntaxError Atom :=
  if a.text = word then .ok a else .error (.nonCanonicalNumeral word a.text)

/-- The number that a word is, if it is a numeral. -/
def numeral? (word : String) : Option (Except SyntaxError Atom) :=
  if looksNumeric word.toList then
    match Numeral.integer? word.toList with
    | some n =>
      match toInt64? n with
      | some n => some (canonical word (.integer n))
      | none => some (.error (.integerOutOfRange word))
    | none => (Numeral.decimal? word.toList).map fun x => canonical word (.float x)
  else none

/-- The boolean or the symbol that a word is. -/
def nonNumeral (word : String) : Except SyntaxError Atom :=
  if word = "#t" then .ok (.boolean true)
  else if word = "#f" then .ok (.boolean false)
  else if isIdentifier word.toList then .ok (.symbol word)
  else .error (.invalidIdentifier word)

/-- The atom that a word is. -/
def ofWord (word : String) : Except SyntaxError Atom :=
  (numeral? word).getD (nonNumeral word)

end Atom

end StackScheme
