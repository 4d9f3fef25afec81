import StackScheme.Arena

/-!
# Outlines of expressions

An outline lists the nodes of an expression in preorder: a node, then its
operator, then its operands.  Each row has the depth of the node, what kind of
node it is and a short text.
-/

namespace StackScheme

/-- The kind of an atom in words. -/
def Atom.kind : Atom → String
  | integer _ => "integer"
  | float _ => "float"
  | boolean _ => "boolean"
  | string _ => "string"
  | symbol _ => "symbol"

namespace Arena

/-- One node of an outline. -/
structure Row where
  /-- How many compounds the node is inside of. -/
  depth : Nat
  kind : String
  text : String
  deriving DecidableEq, Repr

/-- The row of an atom.  A string is shown by its bare contents. -/
def Row.ofAtom (depth : Nat) (a : Atom) : Row where
  depth
  kind := a.kind
  text := match a with
    | .string contents => contents
    | a => a.text

/-- The rows of the rest of a walk at the given depth, after the rows in
`done`, which has the newest first. -/
def rows (depth : Nat) (done : List Row) : List Piece → List Row
  | [] => done.reverse
  | .atom a :: rest => rows depth (.ofAtom depth a :: done) rest
  | .empty :: rest => rows depth (⟨depth, "empty", ""⟩ :: done) rest
  | .enter operands :: rest =>
    rows (depth + 1) (⟨depth, "compound", Decimal.ofNat operands⟩ :: done) rest
  | .leave :: rest => rows (depth - 1) done rest

/-- The outline of the expression at `id`. -/
def outline (arena : Arena) (id : NodeId) : List Row :=
  rows 0 [] (arena.pieces id)

end Arena

end StackScheme
