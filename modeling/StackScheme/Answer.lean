import StackScheme.Value

/-!
# Answers

What is left of a value outside of the machine, where the identity of strings
and procedures means nothing.  `Value.answer` forgets the identities, and
`Value.text_answer` says that the text stays.
-/

namespace StackScheme

/-- What a caller is told about a value. -/
inductive Answer where
  | integer (n : Int64)
  | float (x : Float)
  | boolean (b : Bool)
  | string (contents : String)
  | symbol (name : String)
  | unspecified
  /-- Closures, builtins and special forms, by their text. -/
  | procedure (text : String)

namespace Answer

/-- The type of an answer in words. -/
def typeName : Answer → String
  | integer _ => "integer"
  | float _ => "float"
  | boolean _ => "boolean"
  | string _ => "string"
  | symbol _ => "symbol"
  | unspecified => "unspecified"
  | procedure _ => "procedure"

/-- The text of an answer. -/
def text : Answer → String
  | integer n => Numeral.integerText n
  | float x => Numeral.floatText x
  | boolean b => if b then "#t" else "#f"
  | string contents => contents
  | symbol name => name
  | unspecified => "#<unspecified>"
  | procedure text => text

end Answer

/-- What a caller is told about a value. -/
def Value.answer : Value → Answer
  | .integer n => .integer n
  | .float x => .float x
  | .boolean b => .boolean b
  | .string contents _ => .string contents
  | .symbol name => .symbol name
  | .unspecified => .unspecified
  | v => .procedure v.text

/-- Leaving the machine does not change the text of a value. -/
theorem Value.text_answer (v : Value) : v.answer.text = v.text := by
  cases v <;> rfl

end StackScheme
