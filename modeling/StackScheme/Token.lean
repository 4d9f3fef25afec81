import StackScheme.SyntaxError
import StackScheme.Text.Blank

/-!
# Tokens

A text is a sequence of parentheses, string literals and words, with separators
and comments between them.  A comment starts at a semicolon and ends before the
next line feed.  A word is a longest run of characters that are neither blank
nor a parenthesis, a double quote or a semicolon.  A string literal stands
between double quotes on one line; a backslash in it takes the next character
with it.

* Tokens.  `Token.text` writes one token and `Token.unlex` writes a list of
  them, with a blank wherever two tokens need one.
* The lexer.  `Lexer` is a machine that is given one character at a time:
  `Lexer.advance` is its step and `Lexer.finish` ends the text.
* `Token.lex` runs the machine over a whole text.
-/

namespace StackScheme

/-- The smallest piece of a text that means something. -/
inductive Token where
  | opening
  | closing
  /-- A word, as it is written. -/
  | word (text : String)
  /-- A string literal, by its contents. -/
  | string (contents : String)
  deriving DecidableEq, Repr

namespace Token

/-! ## Writing -/

/-- One character of a string literal, as it is written between the quotes. -/
def escape (c : Char) : List Char :=
  if c = '"' then ['\\', '"']
  else if c = '\\' then ['\\', '\\']
  else if c = '\n' then ['\\', 'n']
  else if c = '\t' then ['\\', 't']
  else [c]

/-- The character that a backslash followed by `c` stands for. -/
def unescape? (c : Char) : Option Char :=
  if c = '"' then some '"'
  else if c = '\\' then some '\\'
  else if c = 'n' then some '\n'
  else if c = 't' then some '\t'
  else none

/-- Writing a character as an escape and reading the escape gives it back; all
other characters stand for themselves. -/
theorem escape_cases (c : Char) :
    (∃ d, escape c = ['\\', d] ∧ unescape? d = some c) ∨
      (escape c = [c] ∧ c ≠ '"' ∧ c ≠ '\\' ∧ c ≠ '\n') := by
  unfold escape
  split
  · exact Or.inl ⟨'"', rfl, by simp_all [unescape?]⟩
  split
  · exact Or.inl ⟨'\\', rfl, by simp_all [unescape?]⟩
  split
  · exact Or.inl ⟨'n', rfl, by simp_all [unescape?]⟩
  split
  · exact Or.inl ⟨'t', rfl, by simp_all [unescape?]⟩
  · exact Or.inr ⟨rfl, by assumption, by assumption, by assumption⟩

/-- A string literal with the given contents. -/
def quoted (contents : String) : String :=
  String.ofList ('"' :: contents.toList.flatMap escape ++ ['"'])

/-- The text of one token. -/
def text : Token → String
  | opening => "("
  | closing => ")"
  | word w => w
  | string contents => quoted contents

/-- Whether a blank is written between two neighbouring tokens: everywhere but
after an opening and before a closing parenthesis. -/
def spaced : Token → Token → Bool
  | opening, _ => false
  | _, closing => false
  | _, _ => true

/-- Adds the text of a token to what is written so far. -/
def write (written : String) (previous? : Option Token) (t : Token) : String :=
  match previous? with
  | none => written ++ t.text
  | some previous =>
    if previous.spaced t then written ++ " " ++ t.text else written ++ t.text

/-- Writes a list of tokens after what is written so far. -/
def writeAll (written : String) (previous? : Option Token) : List Token → String
  | [] => written
  | t :: ts => writeAll (write written previous? t) (some t) ts

/-- The text of a list of tokens. -/
def unlex (ts : List Token) : String :=
  writeAll "" none ts

end Token

/-! ## The lexer -/

/-- What the lexer is in the middle of.  Characters taken so far are held with
the newest first. -/
inductive Lexer.Mode where
  /-- Between two tokens. -/
  | between
  /-- Inside a comment. -/
  | comment
  /-- Inside a word. -/
  | word (taken : List Char)
  /-- Inside a string literal: the characters since the opening quote, and the
  contents they stand for or the first illegal escape among them. -/
  | string (taken : List Char) (contents : Except Char (List Char))
  /-- Inside a string literal, right after a backslash. -/
  | escape (taken : List Char) (contents : Except Char (List Char))

/-- The state of the lexer: its mode, and the tokens that are complete, the
newest first. -/
structure Lexer where
  mode : Lexer.Mode := .between
  tokens : List Token := []

namespace Lexer

/-- The characters that words are made of. -/
def isWordChar (c : Char) : Bool :=
  !Text.isBlank c && c != '(' && c != ')' && c != '"' && c != ';'

/-- The error for a string literal whose closing quote cannot be reached.  It
shows the opening quote and the complete items after it. -/
def unterminated (taken : List Char) : SyntaxError :=
  .unexpectedInput (String.ofList ('"' :: taken.reverse))

/-- The contents of a string literal after one more escape. -/
def addEscape (contents : Except Char (List Char)) (c : Char) : Except Char (List Char) :=
  match contents with
  | .error first => .error first
  | .ok cs =>
    match Token.unescape? c with
    | some d => .ok (d :: cs)
    | none => .error c

/-- A character between two tokens. -/
def start (tokens : List Token) (c : Char) : Except SyntaxError Lexer :=
  if Text.isSeparator c then .ok ⟨.between, tokens⟩
  else if c = ';' then .ok ⟨.comment, tokens⟩
  else if c = '(' then .ok ⟨.between, .opening :: tokens⟩
  else if c = ')' then .ok ⟨.between, .closing :: tokens⟩
  else if c = '"' then .ok ⟨.string [] (.ok []), tokens⟩
  else if Text.isBlank c then .error (.unexpectedInput (String.singleton c))
  else .ok ⟨.word [c], tokens⟩

/-- The word that ends after the characters `taken`. -/
def endWord (taken : List Char) : Token :=
  .word (String.ofList taken.reverse)

/-- The step of the lexer. -/
def advance (l : Lexer) (c : Char) : Except SyntaxError Lexer :=
  match l.mode with
  | .between => start l.tokens c
  | .comment => .ok ⟨if c = '\n' then .between else .comment, l.tokens⟩
  | .word taken =>
    if isWordChar c then .ok ⟨.word (c :: taken), l.tokens⟩
    else start (endWord taken :: l.tokens) c
  | .string taken contents =>
    if c = '"' then
      match contents with
      | .ok cs => .ok ⟨.between, .string (String.ofList cs.reverse) :: l.tokens⟩
      | .error first => .error (.illegalEscape first)
    else if c = '\\' then .ok ⟨.escape taken contents, l.tokens⟩
    else if c = '\n' then .error (unterminated taken)
    else .ok ⟨.string (c :: taken) (contents.map (c :: ·)), l.tokens⟩
  | .escape taken contents =>
    if c = '\n' then .error (unterminated taken)
    else .ok ⟨.string (c :: '\\' :: taken) (addEscape contents c), l.tokens⟩

/-- The tokens of the text that ends here. -/
def finish (l : Lexer) : Except SyntaxError (List Token) :=
  match l.mode with
  | .between | .comment => .ok l.tokens.reverse
  | .word taken => .ok (endWord taken :: l.tokens).reverse
  | .string taken _ | .escape taken _ => .error (unterminated taken)

/-- The state of the lexer after more characters. -/
def advanceAll (l : Lexer) : List Char → Except SyntaxError Lexer
  | [] => .ok l
  | c :: cs =>
    match l.advance c with
    | .ok l => l.advanceAll cs
    | .error e => .error e

/-- The lexer may be given a text in parts. -/
theorem advanceAll_append (l : Lexer) (cs ds : List Char) :
    l.advanceAll (cs ++ ds) = (l.advanceAll cs).bind fun l => l.advanceAll ds := by
  induction cs generalizing l with
  | nil => rfl
  | cons c cs ih =>
    simp only [List.cons_append, advanceAll]
    cases l.advance c with
    | ok l => exact ih l
    | error e => rfl

end Lexer

/-- The tokens of a text, or the error of the leftmost piece that is none. -/
def Token.lex (text : String) : Except SyntaxError (List Token) :=
  match ({} : Lexer).advanceAll text.toList with
  | .ok l => l.finish
  | .error e => .error e

end StackScheme
