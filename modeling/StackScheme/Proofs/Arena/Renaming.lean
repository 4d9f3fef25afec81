import StackScheme.Proofs.Arena.Links
import StackScheme.Proofs.Reader.Grammar

/-!
# Renaming nodes

Trees that stand in the middle of an arena move the trees behind them to other places.
What the nodes stand for stays the same.

* Places.  `shift` makes room at a place.
* Nodes.  `map_rename_forest` says that the nodes of trees at another place are the same
  nodes with other names.
* Arenas.  `Arena.Renames` says that an arena has the nodes of another one under new
  names.  `renames_insert` is the arena with more trees in the middle, and
  `renames_self` says that names behind the end of an arena may be changed at will.
* Links.  One lemma for each function that looks at the nodes says that it does not
  depend on the names.
* Reading.  `Reader.read_insert` reads an expression with more trees in the middle.
-/

namespace StackScheme

open SExpr

/-! ## Places -/

/-- The new place of a node if `d` nodes are put in at `lo`. -/
def shift (lo d id : Nat) : Nat :=
  if id < lo then id else id + d

theorem shift_of_lt {lo id : Nat} (h : id < lo) (d : Nat) : shift lo d id = id :=
  if_pos h

theorem shift_of_le {lo id : Nat} (h : lo ≤ id) (d : Nat) : shift lo d id = id + d :=
  if_neg (Nat.not_lt.2 h)

theorem shift_injective (lo d : Nat) : Function.Injective (shift lo d) := by
  intro a b h
  unfold shift at h
  split at h
  · split at h <;> omega
  · split at h <;> omega

/-- Making room twice at a place is making room once. -/
theorem shift_shift (lo d e id : Nat) :
    shift (lo + d) e (shift lo d id) = shift lo (d + e) id := by
  by_cases h : id < lo
  · have hlt : id < lo + d := by omega
    rw [shift_of_lt h, shift_of_lt h, shift_of_lt hlt]
  · have hle : lo ≤ id := by omega
    have hle' : lo + d ≤ id + d := by omega
    rw [shift_of_le hle, shift_of_le hle, shift_of_le hle', Nat.add_assoc]

/-! ## Nodes -/

/-- The shape with its operator under a new name. -/
def Shape.rename (ρ : NodeId → NodeId) : Shape → Shape
  | .atom a => .atom a
  | .compound operator => .compound (ρ operator)
  | .empty => .empty

/-- The node with its links under new names. -/
def Node.rename (ρ : NodeId → NodeId) (node : Node) : Node where
  shape := node.shape.rename ρ
  next := node.next.map ρ

namespace SExpr

variable {ρ : NodeId → NodeId} {d : Nat}

/-- The new names are the places `d` nodes further on, for so many nodes from `lo` on. -/
def Moves (ρ : NodeId → NodeId) (d lo n : Nat) : Prop :=
  ∀ id : Nat, lo ≤ id → id < lo + n → ρ id = id + d

theorem Moves.mono {lo n lo' n' : Nat} (h : Moves ρ d lo n) (hlo : lo ≤ lo')
    (hn : lo' + n' ≤ lo + n) : Moves ρ d lo' n' := by
  intro id hle hlt
  exact h id (by omega) (by omega)

theorem rename_shape (t : SExpr) {lo : Nat} (h : Moves ρ d lo t.beneath) :
    (shape lo t).rename ρ = shape (lo + d) t := by
  match t with
  | .atom a => rfl
  | .list [] => rfl
  | .list (t :: ts) =>
    rw [beneath, count] at h
    have hroot := h (lo + t.beneath) (by omega) (by omega)
    rw [shape, shape, Shape.rename, hroot, Nat.add_right_comm]

theorem map_firstRoot? (ts : List SExpr) {lo : Nat} (h : Moves ρ d lo (count ts)) :
    (firstRoot? lo ts).map ρ = firstRoot? (lo + d) ts := by
  cases ts with
  | nil => rfl
  | cons t ts =>
    rw [count] at h
    have hroot := h (lo + t.beneath) (by omega) (by omega)
    rw [firstRoot?, firstRoot?, Option.map_some, hroot, Nat.add_right_comm]

mutual

theorem map_rename_innerNodes (t : SExpr) {lo : Nat} (h : Moves ρ d lo t.beneath) :
    (innerNodes lo t).map (Node.rename ρ) = innerNodes (lo + d) t := by
  cases t with
  | atom a => rfl
  | list items =>
    rw [beneath] at h
    rw [innerNodes, innerNodes]
    exact map_rename_linked items h

theorem map_rename_linked (ts : List SExpr) {lo : Nat} (h : Moves ρ d lo (count ts)) :
    (linked lo ts).map (Node.rename ρ) = linked (lo + d) ts := by
  cases ts with
  | nil => rfl
  | cons t ts =>
    rw [count] at h
    have ht : Moves ρ d lo t.beneath := h.mono (by omega) (by omega)
    have hts : Moves ρ d (lo + t.beneath + 1) (count ts) := h.mono (by omega) (by omega)
    have hplace : lo + d + t.beneath + 1 = lo + t.beneath + 1 + d := by omega
    rw [linked, linked, List.map_append, List.map_cons, map_rename_innerNodes t ht, Node.rename,
      rename_shape t ht, map_firstRoot? ts hts, map_rename_linked ts hts, hplace]

end

/-- The nodes of trees that start somewhere else. -/
theorem map_rename_forest (ts : List SExpr) {lo : Nat} (h : Moves ρ d lo (count ts)) :
    (forest lo ts).map (Node.rename ρ) = forest (lo + d) ts := by
  induction ts generalizing lo with
  | nil => rfl
  | cons t ts ih =>
    rw [count] at h
    have ht : Moves ρ d lo t.beneath := h.mono (by omega) (by omega)
    have hts : Moves ρ d (lo + t.beneath + 1) (count ts) := h.mono (by omega) (by omega)
    have hplace : lo + d + t.beneath + 1 = lo + t.beneath + 1 + d := by omega
    rw [forest, forest, List.map_append, List.map_cons, map_rename_innerNodes t ht, Node.rename,
      rename_shape t ht, Option.map_none, ih hts, hplace]

end SExpr

/-! ## Arenas -/

namespace Arena

/-- The second arena has the nodes of the first one under new names, and maybe others.
Both come from reading. -/
structure Renames (ρ : NodeId → NodeId) (arena arena' : Arena) : Prop where
  injective : Function.Injective ρ
  node (id : NodeId) : arena'.node? (ρ id) = (arena.node? id).map (Node.rename ρ)
  size_le : arena.size ≤ arena'.size
  forest : ∃ trees, arena = ofForest trees
  forest' : ∃ trees, arena' = ofForest trees

/-- The nodes of an arena, if the trees `us` behind `ts` are moved. -/
theorem node?_shift {ts us : List SExpr} {d : Nat} {arena : Arena}
    (hlow : ∀ id : Nat, id < count ts → arena.node? id = (forest 0 ts)[id]?)
    (hhigh : ∀ i : Nat, arena.node? (count ts + i + d) = (forest (count ts + d) us)[i]?)
    (id : Nat) :
    arena.node? (shift (count ts) d id) =
      ((ofForest (ts ++ us)).node? id).map (Node.rename (shift (count ts) d)) := by
  have hts : Moves (shift (count ts) d) 0 0 (count ts) := by
    intro id _ hlt
    exact shift_of_lt (by omega) d
  have hus : Moves (shift (count ts) d) d (count ts) (count us) := by
    intro id hle _
    exact shift_of_le hle d
  have hnodes : ((forest 0 (ts ++ us)).map (Node.rename (shift (count ts) d))) =
      forest 0 ts ++ forest (count ts + d) us := by
    rw [forest_append, List.map_append, map_rename_forest ts hts, Nat.zero_add (count ts),
      map_rename_forest us hus]
  have hlen := length_forest 0 ts
  rw [ofForest, node?_ofNodes, ← List.getElem?_map, hnodes]
  by_cases h : id < count ts
  · rw [shift_of_lt h, hlow id h, List.getElem?_append_left (by omega)]
  · have hid : id + d = count ts + (id - count ts) + d := by omega
    rw [shift_of_le (by omega), hid, hhigh, List.getElem?_append_right (by omega), hlen]

/-- More trees may stand in the middle. -/
theorem renames_insert (ts new us : List SExpr) :
    Renames (shift (count ts) (count new)) (ofForest (ts ++ us)) (ofForest (ts ++ new ++ us)) := by
  have hnodes : forest 0 (ts ++ new ++ us) =
      forest 0 ts ++ (forest (count ts) new ++ forest (count ts + count new) us) := by
    rw [List.append_assoc, forest_append, forest_append, Nat.zero_add]
  have hts := length_forest 0 ts
  have hnew := length_forest (count ts) new
  refine ⟨shift_injective _ _, fun id => ?_, ?_, ⟨_, rfl⟩, ⟨_, rfl⟩⟩
  · refine node?_shift (fun id hid => ?_) (fun i => ?_) id
    · rw [ofForest, node?_ofNodes, hnodes, List.getElem?_append_left (by omega)]
    · rw [ofForest, node?_ofNodes, hnodes, List.getElem?_append_right (by omega),
        List.getElem?_append_right (by omega)]
      congr 1
      omega
  · rw [size_ofForest, size_ofForest, count_append, count_append, count_append]
    omega

/-- Behind the end of an arena there is nothing to move. -/
theorem renames_self (ts : List SExpr) (d : Nat) :
    Renames (shift (ofForest ts).size d) (ofForest ts) (ofForest ts) := by
  rw [size_ofForest]
  refine ⟨shift_injective _ _, fun id => ?_, Nat.le_refl _, ⟨_, rfl⟩, ⟨_, rfl⟩⟩
  have hnode := @node?_shift ts [] d (ofForest ts)
  rw [List.append_nil] at hnode
  refine hnode (fun id _ => node?_ofNodes _ id) (fun i => ?_) id
  have hlen := length_forest 0 ts
  rw [ofForest, node?_ofNodes, List.getElem?_eq_none (by omega)]
  rfl

/-! ## Trees -/

/-- Each node of an arena that comes from reading is the root of a tree, for which the
arena has room. -/
theorem exists_holds {arena : Arena} (h : ∃ trees, arena = ofForest trees) {id : Nat}
    (hid : id < arena.size) : ∃ t, arena.Holds t id ∧ t.beneath < arena.size := by
  obtain ⟨trees, rfl⟩ := h
  obtain ⟨before, after, next, lo, t, hlo, rfl, hnodes⟩ := exists_ofForest_eq_nodesAround hid
  refine ⟨t, ?_, by omega⟩
  rw [hnodes]
  exact holds_innerNodes before after next lo hlo t

/-! ## Links -/

namespace Renames

variable {ρ : NodeId → NodeId} {arena arena' : Arena}

section Links

variable (h : Renames ρ arena arena')

include h

theorem wellLinked : arena.WellLinked := by
  obtain ⟨trees, rfl⟩ := h.forest
  exact wellLinked_ofForest trees

theorem wellLinked' : arena'.WellLinked := by
  obtain ⟨trees, rfl⟩ := h.forest'
  exact wellLinked_ofForest trees

theorem next? (id : NodeId) : arena'.next? (ρ id) = (arena.next? id).map ρ := by
  rw [Arena.next?, Arena.next?, h.node]
  cases arena.node? id <;> rfl

theorem symbol? (id : NodeId) : arena'.symbol? (ρ id) = arena.symbol? id := by
  rw [Arena.symbol?, Arena.symbol?, h.node]
  rcases arena.node? id with _ | ⟨shape, next⟩
  · rfl
  cases shape with
  | atom a => cases a <;> rfl
  | compound operator => rfl
  | empty => rfl

theorem children (id : NodeId) : arena'.children (ρ id) = (arena.children id).map ρ := by
  have hnode := h.node id
  rcases hn : arena.node? id with _ | ⟨shape, next⟩
  · rw [hn] at hnode
    rw [Arena.children, Arena.children, hn, hnode]
    rfl
  rw [hn] at hnode
  cases shape with
  | atom a =>
    rw [Arena.children, Arena.children, hn, hnode]
    rfl
  | empty =>
    rw [Arena.children, Arena.children, hn, hnode]
    rfl
  | compound operator =>
    -- Both lists start at the operator and go on along the siblings.
    apply List.ext_getElem?
    intro i
    rw [List.getElem?_map]
    induction i with
    | zero =>
      rw [getElem?_children_zero hn rfl, getElem?_children_zero hnode rfl]
      rfl
    | succ i ih =>
      cases hchild : (arena.children id)[i]? with
      | some child =>
        rw [hchild] at ih
        rw [getElem?_children_succ h.wellLinked hchild, getElem?_children_succ h.wellLinked' ih,
          h.next?]
      | none =>
        rw [hchild, Option.map_none, List.getElem?_eq_none_iff] at ih
        rw [List.getElem?_eq_none_iff] at hchild
        rw [List.getElem?_eq_none (by omega), List.getElem?_eq_none (by omega)]
        rfl

theorem operands (id : NodeId) : arena'.operands (ρ id) = (arena.operands id).map ρ := by
  rw [Arena.operands, Arena.operands, h.children, List.map_tail]

end Links

mutual

theorem holds (h : Renames ρ arena arena') (t : SExpr) {id : NodeId} (ht : arena.Holds t id) :
    arena'.Holds t (ρ id) := by
  cases t with
  | atom a =>
    rw [Holds] at ht ⊢
    obtain ⟨next, hnode⟩ := ht
    refine ⟨next.map ρ, ?_⟩
    rw [h.node, hnode]
    rfl
  | list items =>
    cases items with
    | nil =>
      rw [Holds] at ht ⊢
      obtain ⟨⟨next, hnode⟩, hitems⟩ := ht
      rw [h.children]
      refine ⟨⟨next.map ρ, ?_⟩, holdsAll h [] hitems⟩
      rw [h.node, hnode]
      rfl
    | cons t ts =>
      rw [Holds] at ht ⊢
      obtain ⟨⟨operator, next, hnode⟩, hitems⟩ := ht
      rw [h.children]
      refine ⟨⟨ρ operator, next.map ρ, ?_⟩, holdsAll h (t :: ts) hitems⟩
      rw [h.node, hnode]
      rfl

theorem holdsAll (h : Renames ρ arena arena') (ts : List SExpr) {ids : List NodeId}
    (hts : arena.HoldsAll ts ids) : arena'.HoldsAll ts (ids.map ρ) := by
  cases ts with
  | nil =>
    rw [HoldsAll] at hts ⊢
    rw [hts]
    rfl
  | cons t ts =>
    rw [HoldsAll] at hts ⊢
    obtain ⟨id, rest, rfl, ht, hrest⟩ := hts
    exact ⟨ρ id, rest.map ρ, rfl, holds h t ht, holdsAll h ts hrest⟩

end

/-- A node is printed as before. -/
theorem render (h : Renames ρ arena arena') (id : NodeId) :
    arena'.render (ρ id) = arena.render id := by
  cases hn : arena.node? id with
  | some node =>
    obtain ⟨t, ht, hroom⟩ := exists_holds h.forest (lt_size_of_node?_eq_some hn)
    have hroom' := Nat.lt_of_lt_of_le hroom h.size_le
    rw [render_of_holds ht hroom, render_of_holds (h.holds t ht) hroom']
  | none =>
    have hn' : arena'.node? (ρ id) = none := by rw [h.node, hn, Option.map_none]
    have hnothing : ∀ (a : Arena) (id : NodeId), a.node? id = none → a.pieces id = [] := by
      intro a id hnone
      rw [pieces, walk, hnone]
      exact walk_nil a _ []
    rw [Arena.render, Arena.render, tokens, tokens, hnothing arena' _ hn', hnothing arena _ hn]

end Renames

end Arena

/-! ## Reading -/

namespace Reader

/-- With more trees in the middle of the arena, the same is read and put behind the trees
that are there. -/
theorem read_insert (reader : Reader) (ts new us : List SExpr) :
    ∃ more,
      (reader.read (Arena.ofForest (ts ++ us))).arena = Arena.ofForest (ts ++ (us ++ more)) ∧
      reader.read (Arena.ofForest (ts ++ new ++ us)) =
        ⟨(reader.read (Arena.ofForest (ts ++ us))).root.map
            (Option.map (shift (count ts) (count new))),
          (reader.read (Arena.ofForest (ts ++ us))).reader,
          Arena.ofForest (ts ++ new ++ (us ++ more))⟩ := by
  rcases reader.read_cases with hwaits | ⟨rest, hclosing⟩ | ⟨p, rest, hopen, hsplit⟩
  · refine ⟨[], ?_, ?_⟩
    · rw [hwaits, List.append_nil]
    · rw [hwaits, hwaits, List.append_nil]
      rfl
  · refine ⟨[], ?_, ?_⟩
    · rw [read_closing hclosing, List.append_nil]
    · rw [read_closing hclosing, read_closing hclosing, List.append_nil]
      rfl
  · refine ⟨(grow p).2, ?_, ?_⟩
    · rw [read_ofForest _ hopen hsplit, List.append_assoc]
    · rw [read_ofForest _ hopen hsplit, read_ofForest _ hopen hsplit,
        ← List.append_assoc _ us (grow p).2]
      cases (grow p).1 with
      | error e => rfl
      | ok t =>
        -- The root lies behind the trees in front of the new ones.
        have hle : count ts ≤ count (ts ++ us) + t.beneath := by
          rw [count_append]
          omega
        have hroot : count (ts ++ new ++ us) + t.beneath =
            shift (count ts) (count new) (count (ts ++ us) + t.beneath) := by
          rw [shift_of_le hle, count_append, count_append, count_append]
          omega
        dsimp only [Except.map, Option.map_some]
        rw [hroot]

end Reader

end StackScheme
