import StackScheme.Atom

/-!
# The arena of expressions

All expressions that are read live in one arena, which only grows.  A node is
an atom, an empty list or a compound; a compound points to its operator, and
each child points to the sibling after it.  An expression is named by the index
of its root, so that a procedure can keep naming its body for as long as the
arena lives.

* Growth.  `push` adds one node, and `combine` links the items of a list and
  adds the node for the list.
* Reading.  `node?`, `next?`, `children`, `operands` and `symbol?` look at the
  nodes.
* Walking.  `pieces` lists an expression from left to right.  It keeps the work
  that is left in a list, so that nesting may be of any depth.
* Writing.  `tokens` are the tokens of an expression and `render` is its text.
-/

namespace StackScheme

/-- The place of a node in its arena. -/
abbrev NodeId := Nat

/-- What a node is. -/
inductive Shape where
  | atom (a : Atom)
  /-- A list with at least one item.  Its operator is the first item, and the
  operands follow it along the sibling links. -/
  | compound (operator : NodeId)
  /-- The list without items. -/
  | empty

/-- A node, and its next sibling in the list that it is an item of. -/
structure Node where
  shape : Shape
  next : Option NodeId := none

/-- The nodes of all expressions read so far. -/
structure Arena where
  nodes : Array Node := #[]

namespace Arena

/-- The number of nodes. -/
def size (arena : Arena) : Nat :=
  arena.nodes.size

/-! ## Growth -/

/-- Adds a node without siblings. -/
def push (arena : Arena) (shape : Shape) : NodeId × Arena :=
  (arena.nodes.size, ⟨arena.nodes.push { shape }⟩)

/-- Makes `next` the sibling after `id`. -/
def link (arena : Arena) (id next : NodeId) : Arena :=
  ⟨arena.nodes.modify id fun node => { node with next := some next }⟩

/-- Makes each item the sibling after the one before it. -/
def linkAll (arena : Arena) : List NodeId → Arena
  | id :: next :: rest => (arena.link id next).linkAll (next :: rest)
  | _ => arena

/-- Adds the node of a list with the given items. -/
def combine (arena : Arena) (items : List NodeId) : NodeId × Arena :=
  match items with
  | [] => arena.push .empty
  | operator :: _ => (arena.linkAll items).push (.compound operator)

/-! ## Reading -/

/-- The node at `id`. -/
def node? (arena : Arena) (id : NodeId) : Option Node :=
  arena.nodes[id]?

/-- The sibling after `id`. -/
def next? (arena : Arena) (id : NodeId) : Option NodeId :=
  (arena.node? id).bind Node.next

/-- At most `fuel` nodes along the sibling links. -/
def siblings (arena : Arena) : (fuel : Nat) → Option NodeId → List NodeId
  | fuel + 1, some id => id :: arena.siblings fuel (arena.next? id)
  | _, _ => []

/-- The operator and the operands of a compound; nothing for other nodes.  A
chain of siblings never meets a node twice, so the size of the arena bounds its
length. -/
def children (arena : Arena) (id : NodeId) : List NodeId :=
  match arena.node? id with
  | some { shape := .compound operator, .. } => arena.siblings arena.size (some operator)
  | _ => []

/-- The items of a compound after its operator. -/
def operands (arena : Arena) (id : NodeId) : List NodeId :=
  (arena.children id).tail

/-- The name of a symbol node. -/
def symbol? (arena : Arena) (id : NodeId) : Option String :=
  match arena.node? id with
  | some { shape := .atom (.symbol name), .. } => some name
  | _ => none

/-! ## Walking -/

/-- One stop of a walk over an expression from left to right. -/
inductive Piece where
  | atom (a : Atom)
  | empty
  /-- The start of a compound with so many operands. -/
  | enter (operands : Nat)
  /-- The end of a compound. -/
  | leave

/-- Walks through the nodes in `work`, where `none` is the end of a compound.
`done` holds the stops made so far, the newest first. -/
def walk (arena : Arena) : (fuel : Nat) → (work : List (Option NodeId)) →
    (done : List Piece) → List Piece
  | fuel + 1, none :: work, done => arena.walk fuel work (.leave :: done)
  | fuel + 1, some id :: work, done =>
    match arena.node? id with
    | some { shape := .atom a, .. } => arena.walk fuel work (.atom a :: done)
    | some { shape := .empty, .. } => arena.walk fuel work (.empty :: done)
    | some { shape := .compound _, .. } =>
      let children := arena.children id
      arena.walk fuel (children.map some ++ none :: work)
        (.enter (children.length - 1) :: done)
    | none => arena.walk fuel work done
  | _, _, done => done.reverse

/-- The stops of a walk over the expression at `id`.  The walk starts and ends
each node of the arena at most once, which bounds its length. -/
def pieces (arena : Arena) (id : NodeId) : List Piece :=
  arena.walk (2 * arena.size + 1) [some id] []

/-! ## Writing -/

/-- The tokens at one stop. -/
def Piece.tokens : Piece → List Token
  | .atom a => [a.token]
  | .empty => [.opening, .closing]
  | .enter _ => [.opening]
  | .leave => [.closing]

/-- The tokens of the expression at `id`. -/
def tokens (arena : Arena) (id : NodeId) : List Token :=
  (arena.pieces id).flatMap Piece.tokens

/-- The text of the expression at `id`. -/
def render (arena : Arena) (id : NodeId) : String :=
  Token.unlex (arena.tokens id)

end Arena

end StackScheme
