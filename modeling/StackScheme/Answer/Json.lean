import StackScheme.Answer

/-!
# Answers as JSON

An answer is written as a JSON object with its type and its value, without
blanks.

* Strings.  `jsonString` escapes the double quote, the backslash and the
  control characters, and nothing else.
* Numbers.  `jsonFloat` writes the fewest digits that read back, without a power
  of ten for magnitudes from `10 ^ -5` up to `10 ^ 16`.  JSON has no numbers
  that are infinite or undefined, so these become `null`.
* `Answer.json` is the whole object.
-/

namespace StackScheme.Answer

/-! ## Strings -/

/-- One character of a JSON string. -/
def jsonEscape (c : Char) : List Char :=
  if c = '"' then ['\\', '"']
  else if c = '\\' then ['\\', '\\']
  else if c = '\x08' then ['\\', 'b']
  else if c = '\x0c' then ['\\', 'f']
  else if c = '\n' then ['\\', 'n']
  else if c = '\r' then ['\\', 'r']
  else if c = '\t' then ['\\', 't']
  else if c.toNat < 0x20 then
    ['\\', 'u', '0', '0', Nat.digitChar (c.toNat / 16), Nat.digitChar (c.toNat % 16)]
  else [c]

/-- A text as a JSON string. -/
def jsonString (text : String) : String :=
  String.ofList ('"' :: text.toList.flatMap jsonEscape ++ ['"'])

/-! ## Numbers -/

/-- The magnitude `significand · 2 ^ exponent` as a JSON number.  Of two equally
near decimals the one with the even last digit is taken. -/
def jsonMagnitude (significand : Nat) (exponent : Int) : String :=
  if significand = 0 then "0.0"
  else
    let d := Decimal.shortest .even significand exponent
    if -5 ≤ d.magnitude ∧ d.magnitude < 16 then d.positional else d.scientific

/-- A floating point number in JSON. -/
def jsonFloat (x : Float) : String :=
  match Binary64.ofFloat x with
  | .nan | .infinite _ => "null"
  | .finite negative significand exponent =>
    if negative then "-" ++ jsonMagnitude significand exponent
    else jsonMagnitude significand exponent

/-! ## Objects -/

/-- The value of an answer in JSON, if it has one. -/
def jsonValue? : Answer → Option String
  | integer n => some (Numeral.integerText n)
  | float x => some (jsonFloat x)
  | boolean b => some (if b then "true" else "false")
  | string contents => some (jsonString contents)
  | symbol name => some (jsonString name)
  | unspecified => none
  | procedure text => some (jsonString text)

/-- An answer as a JSON object. -/
def json (a : Answer) : String :=
  let type := "\x7b\"type\":" ++ jsonString a.typeName
  match a.jsonValue? with
  | some value => type ++ ",\"value\":" ++ value ++ "\x7d"
  | none => type ++ "\x7d"

end StackScheme.Answer
