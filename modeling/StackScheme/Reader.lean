import StackScheme.Arena

/-!
# The reader

Tokens wait in a queue until they form a complete expression, which is then
built into an arena.

* Complete expressions.  `Token.splitExpression` cuts a list of tokens after
  the first expression in it, by counting parentheses.
* Building.  `Arena.build` turns the tokens of one expression into nodes.
* The reader.  `Reader.feed` adds the tokens of a text, `Reader.read` takes out
  one expression and `Reader.clear` drops what waits.
* `parse` reads a text that holds one expression and nothing else.
-/

namespace StackScheme

namespace Token

/-! ## Complete expressions -/

/-- The number of open lists after a token, if there are `depth` before it. -/
def nest (depth : Nat) : Token → Nat
  | opening => depth + 1
  | closing => depth - 1
  | _ => depth

/-- Cuts after the first token that leaves no list open.  `taken` holds the
tokens before the rest, the newest first. -/
def splitAtBalance (depth : Nat) (taken : List Token) :
    List Token → Option (List Token × List Token)
  | [] => none
  | t :: ts =>
    let inside := t.nest depth
    if inside = 0 then some ((t :: taken).reverse, ts)
    else splitAtBalance inside (t :: taken) ts

/-- The first expression of a list of tokens that does not start with a closing
parenthesis, and the tokens after it.  There is none if the list ends first. -/
def splitExpression (ts : List Token) : Option (List Token × List Token) :=
  splitAtBalance 0 [] ts

end Token

namespace Arena

/-! ## Building -/

/-- Adds an item to the innermost open list. -/
def addItem (id : NodeId) : List (List NodeId) → List (List NodeId)
  | items :: outer => (id :: items) :: outer
  | [] => [[id]]

/-- Builds the rest of an expression.  `levels` holds the items of the lists
that are open, the innermost list and the newest item first; the last level is
the place of the root.  A word that is no atom ends the building, and the nodes
that were added before it stay. -/
def buildFrom (arena : Arena) (levels : List (List NodeId)) :
    List Token → Except SyntaxError NodeId × Arena
  | [] =>
    match levels with
    | [[root]] => (.ok root, arena)
    | _ => (.error .unbalanced, arena)
  | .opening :: ts => arena.buildFrom ([] :: levels) ts
  | .closing :: ts =>
    match levels with
    | items :: outer :: levels =>
      let (id, arena) := arena.combine items.reverse
      arena.buildFrom ((id :: outer) :: levels) ts
    | _ => (.error .unbalanced, arena)
  | .word w :: ts =>
    match Atom.ofWord w with
    | .ok a =>
      let (id, arena) := arena.push (.atom a)
      arena.buildFrom (addItem id levels) ts
    | .error e => (.error e, arena)
  | .string contents :: ts =>
    let (id, arena) := arena.push (.atom (.string contents))
    arena.buildFrom (addItem id levels) ts

/-- Builds the expression that a list of tokens is, and names its root. -/
def build (arena : Arena) (ts : List Token) : Except SyntaxError NodeId × Arena :=
  arena.buildFrom [[]] ts

end Arena

/-! ## The reader -/

/-- Tokens that wait for the end of their expression. -/
structure Reader where
  pending : List Token := []
  deriving DecidableEq, Repr

namespace Reader

/-- Whether some tokens wait. -/
def isPending (reader : Reader) : Bool :=
  !reader.pending.isEmpty

/-- Adds the tokens of a text.  A text that has an error adds nothing. -/
def feed (reader : Reader) (text : String) : Except SyntaxError Reader :=
  match Token.lex text with
  | .ok ts => .ok ⟨reader.pending ++ ts⟩
  | .error e => .error e

/-- Drops all tokens that wait. -/
def clear (_ : Reader) : Reader :=
  {}

/-- What a reading gives. -/
structure Reading where
  /-- The root of the expression, or nothing if more tokens are needed. -/
  root : Except SyntaxError (Option NodeId)
  reader : Reader
  arena : Arena

/-- Takes the first expression out of the queue and builds it.  A closing
parenthesis at the start is taken out alone and is an error.  An incomplete
expression stays where it is. -/
def read (reader : Reader) (arena : Arena) : Reading :=
  match reader.pending with
  | [] => ⟨.ok none, reader, arena⟩
  | .closing :: rest => ⟨.error .unexpectedClose, ⟨rest⟩, arena⟩
  | ts =>
    match Token.splitExpression ts with
    | none => ⟨.ok none, reader, arena⟩
    | some (expression, rest) =>
      let (root, arena) := arena.build expression
      ⟨root.map some, ⟨rest⟩, arena⟩

end Reader

/-! ## One expression -/

/-- Reads a text that holds exactly one expression. -/
def parse (text : String) : Except SyntaxError (NodeId × Arena) :=
  match ({} : Reader).feed text with
  | .error e => .error e
  | .ok reader =>
    let reading := reader.read {}
    match reading.root with
    | .error e => .error e
    | .ok none => .error .incomplete
    | .ok (some root) =>
      if reading.reader.isPending then .error .trailingInput
      else .ok (root, reading.arena)

end StackScheme
