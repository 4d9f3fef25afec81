/-!
# Errors of reading

The causes for which a text is refused before anything in it is evaluated, and
the wording of each.
-/

namespace StackScheme

/-- Why a text cannot be read. -/
inductive SyntaxError where
  /-- Some characters belong to no token. -/
  | unexpectedInput (text : String)
  /-- A string literal holds a backslash before `c`, which has no meaning. -/
  | illegalEscape (c : Char)
  /-- An integer numeral needs more than 64 bits. -/
  | integerOutOfRange (word : String)
  /-- A numeral is not in the form in which its value is printed. -/
  | nonCanonicalNumeral (word canonical : String)
  /-- A word is neither a numeral nor a boolean nor a name. -/
  | invalidIdentifier (word : String)
  /-- A closing parenthesis stands where an expression must start. -/
  | unexpectedClose
  /-- A run of tokens is not one expression. -/
  | unbalanced
  /-- The text ends inside an expression. -/
  | incomplete
  /-- Tokens follow the one expression that was asked for. -/
  | trailingInput
  deriving DecidableEq, Repr

namespace SyntaxError

/-- The cause in words. -/
def message : SyntaxError → String
  | unexpectedInput text => "unexpected input \"" ++ text ++ "\""
  | illegalEscape c => "illegal escape sequence \\" ++ String.singleton c
  | integerOutOfRange word => "integer literal " ++ word ++ " is out of range"
  | nonCanonicalNumeral word canonical =>
    "numeral " ++ word ++ " must be written as " ++ canonical
  | invalidIdentifier word => "\"" ++ word ++ "\" is not a valid identifier"
  | unexpectedClose => "unexpected \")\""
  | unbalanced => "unbalanced expression"
  | incomplete => "incomplete expression"
  | trailingInput => "trailing input after expression"

end SyntaxError

end StackScheme
