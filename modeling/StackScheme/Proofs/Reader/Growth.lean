import StackScheme.Proofs.Arena.Parents
import StackScheme.Proofs.Reader.RoundTrip

/-!
# Growth of the arena

Calls of a reader add nodes behind the nodes that are there and change none of them, even
where they fail.  What an expression is and how it is printed is settled when it is read.

* More trees.  `node?_append`, `children_append` and `pieces_append` look at an arena with
  more trees behind its own.  `Arena.Extends` is an arena with more nodes, and
  `Grown.extends_read` says that reading leads to one.
* Roots.  `next?_eq_none_of_mem_roots` says that a tree that stands alone has no sibling.
* Calls.  `Reader.Calls` is what calls on an arena lead to, by one reader or by several.
  `Calls.exists_eq_ofForest` says that they add trees and give their roots.
* `Reader.arena_settled` is the result.
-/

namespace StackScheme

open SExpr

/-! ## More trees -/

namespace Arena

theorem node?_append (trees new : List SExpr) {id : Nat} (h : id < (ofForest trees).size) :
    (ofForest (trees ++ new)).node? id = (ofForest trees).node? id := by
  have hlen := length_forest 0 trees
  rw [size_ofForest] at h
  rw [ofForest, ofForest, node?_ofNodes, node?_ofNodes, forest_append,
    List.getElem?_append_left (by omega)]

/-- The nodes of an arena keep their names if trees are added behind them. -/
theorem renames_append (trees new : List SExpr) :
    Renames (shift (count trees) (count new)) (ofForest trees) (ofForest (trees ++ new)) := by
  have hrenames := renames_insert trees new []
  rwa [List.append_nil, List.append_nil] at hrenames

theorem children_append (trees new : List SExpr) {id : Nat} (h : id < (ofForest trees).size) :
    (ofForest (trees ++ new)).children id = (ofForest trees).children id := by
  have hlinks := wellLinked_ofForest trees
  have hrenames := renames_append trees new
  have hkept : ∀ child : Nat, child < (ofForest trees).size →
      shift (count trees) (count new) child = child := by
    intro child hlt
    rw [size_ofForest] at hlt
    exact shift_of_lt hlt _
  have hchildren := hrenames.children id
  rw [hkept id h] at hchildren
  calc (ofForest (trees ++ new)).children id
      = ((ofForest trees).children id).map (shift (count trees) (count new)) := hchildren
    _ = ((ofForest trees).children id).map fun child => child :=
      List.map_congr_left fun child hchild => hkept child (lt_size_of_mem_children hlinks hchild)
    _ = (ofForest trees).children id := List.map_id' _

/-- All nodes of an arena are in another one, with the same children. -/
structure Extends (arena arena' : Arena) : Prop where
  size_le : arena.size ≤ arena'.size
  node? {id : Nat} (h : id < arena.size) : arena'.node? id = arena.node? id
  children {id : Nat} (h : id < arena.size) : arena'.children id = arena.children id

theorem Extends.refl (arena : Arena) : arena.Extends arena :=
  ⟨Nat.le_refl _, fun _ => rfl, fun _ => rfl⟩

/-- Reading leaves the nodes of an arena as they are. -/
theorem Grown.extends_read {arena : Arena} (h : arena.Grown) (reader : Reader) :
    arena.Extends (reader.read arena).arena := by
  have hsize := h.size_le_read reader
  obtain ⟨trees, rfl⟩ := h.exists_eq_ofForest
  obtain ⟨new, hnew⟩ := reader.exists_read_arena_eq trees
  rw [hnew] at hsize ⊢
  exact ⟨hsize, node?_append trees new, children_append trees new⟩

/-- A walk over an expression makes the same stops. -/
theorem pieces_append (trees new : List SExpr) {id : Nat} (h : id < (ofForest trees).size) :
    (ofForest (trees ++ new)).pieces id = (ofForest trees).pieces id := by
  have hrenames := renames_append trees new
  obtain ⟨t, ht, hroom⟩ := exists_holds ⟨trees, rfl⟩ h
  have ht' := hrenames.holds t ht
  rw [size_ofForest] at h
  rw [shift_of_lt h] at ht'
  rw [pieces_of_holds ht hroom,
    pieces_of_holds ht' (Nat.lt_of_lt_of_le hroom hrenames.size_le)]

/-- Each root of a forest ends one of its trees. -/
theorem exists_of_mem_roots {lo id : Nat} {ts : List SExpr} (h : id ∈ roots lo ts) :
    ∃ before t after, ts = before ++ t :: after ∧ id = lo + count before + t.beneath := by
  induction ts generalizing lo with
  | nil => cases h
  | cons t ts ih =>
    rw [roots, List.mem_cons] at h
    rcases h with rfl | h
    · exact ⟨[], t, ts, rfl, by rw [count, Nat.add_zero]⟩
    · obtain ⟨before, u, after, rfl, hid⟩ := ih h
      refine ⟨t :: before, u, after, rfl, ?_⟩
      rw [count]
      omega

/-- The root of a tree that stands alone is in the arena and has no sibling. -/
theorem next?_eq_none_of_mem_roots {trees : List SExpr} {root : Nat}
    (h : root ∈ roots 0 trees) :
    root < (ofForest trees).size ∧ (ofForest trees).next? root = none := by
  obtain ⟨before, t, after, rfl, hroot⟩ := exists_of_mem_roots h
  have hnode := node?_root (forest 0 before) (forest (count before + t.beneath + 1) after) none
    (count before) (length_forest 0 before) t
  rw [← forest_append_cons] at hnode
  rw [hroot, Nat.zero_add]
  exact ⟨lt_size_of_node?_eq_some hnode, next?_eq_of_node?_eq_some hnode⟩

end Arena

/-! ## Calls -/

namespace Reader

/-- What calls on an arena lead to: the reader of the last call, the arena, and the roots
that were given.  A text that has an error feeds nothing, and at any time the calls may go
on with another reader. -/
inductive Calls (start : Arena) : Reader → Arena → List NodeId → Prop
  | none (reader : Reader) : Calls start reader start []
  | feed {reader reader' : Reader} {arena : Arena} {roots : List NodeId} {text : String}
    (h : Calls start reader arena roots) (hfeed : reader.feed text = .ok reader') :
    Calls start reader' arena roots
  | read {reader : Reader} {arena : Arena} {roots : List NodeId}
    (h : Calls start reader arena roots) :
    Calls start (reader.read arena).reader (reader.read arena).arena
      (roots ++ (reader.read arena).roots)
  | clear {reader : Reader} {arena : Arena} {roots : List NodeId}
    (h : Calls start reader arena roots) : Calls start reader.clear arena roots
  | other {reader : Reader} {arena : Arena} {roots : List NodeId}
    (h : Calls start reader arena roots) (reader' : Reader) : Calls start reader' arena roots

/-- A reading adds trees, and the root that it gives is the root of one of them. -/
theorem exists_read_eq_ofForest (reader : Reader) (trees : List SExpr) :
    ∃ new, (reader.read (Arena.ofForest trees)).arena = Arena.ofForest (trees ++ new) ∧
      ∀ root ∈ (reader.read (Arena.ofForest trees)).roots,
        root ∈ SExpr.roots 0 (trees ++ new) := by
  cases hroot : (reader.read (Arena.ofForest trees)).root with
  | error e =>
    obtain ⟨new, hnew⟩ := reader.exists_read_arena_eq trees
    exact ⟨new, hnew, fun root h => by rw [Reading.roots, hroot] at h; cases h⟩
  | ok given =>
    cases given with
    | none =>
      obtain ⟨new, hnew⟩ := reader.exists_read_arena_eq trees
      exact ⟨new, hnew, fun root h => by rw [Reading.roots, hroot] at h; cases h⟩
    | some given =>
      obtain ⟨p, rest, t, -, -, -, rfl, hread⟩ := read_root_eq_some hroot
      refine ⟨[t], by rw [hread], fun root h => ?_⟩
      rw [Reading.roots, hroot, List.mem_singleton] at h
      rw [h, roots_append, Nat.zero_add]
      exact List.mem_append_right _ List.mem_cons_self

/-- Calls add trees behind those that are there, and give roots of trees. -/
theorem Calls.exists_eq_ofForest {trees : List SExpr} {reader : Reader} {arena : Arena}
    {roots : List NodeId} (h : Calls (Arena.ofForest trees) reader arena roots) :
    ∃ new, arena = Arena.ofForest (trees ++ new) ∧
      ∀ root ∈ roots, root ∈ SExpr.roots 0 (trees ++ new) := by
  induction h with
  | none reader => exact ⟨[], by rw [List.append_nil], fun root hroot => by cases hroot⟩
  | feed _ _ ih => exact ih
  | @read reader arena roots _ ih =>
    obtain ⟨new, rfl, hroots⟩ := ih
    obtain ⟨more, hmore, hgiven⟩ := reader.exists_read_eq_ofForest (trees ++ new)
    refine ⟨new ++ more, by rw [hmore, List.append_assoc], fun root hroot => ?_⟩
    rw [← List.append_assoc]
    rcases List.mem_append.1 hroot with hroot | hroot
    · rw [roots_append]
      exact List.mem_append_left _ (hroots root hroot)
    · exact hgiven root hroot
  | clear _ ih => exact ih
  | other _ _ ih => exact ih

/-- The arena of readers only grows.

Whatever calls were made, successful or not, the links of the arena make finite trees
without common nodes, and the roots that were given have no siblings.  Whatever calls
follow, each node keeps its shape, its sibling and its children, and each root its tree and
its text. -/
theorem arena_settled {reader : Reader} {arena : Arena} {roots : List NodeId}
    (h : Calls {} reader arena roots) :
    arena.WellFormed ∧ (∀ root ∈ roots, root < arena.size ∧ arena.next? root = none) ∧
      ∀ reader' arena' roots', Calls arena reader' arena' roots' →
        arena.size ≤ arena'.size ∧
        (∀ id < arena.size, arena'.node? id = arena.node? id ∧
          arena'.children id = arena.children id) ∧
        ∀ root ∈ roots, arena'.pieces root = arena.pieces root ∧
          arena'.render root = arena.render root ∧ arena'.outline root = arena.outline root := by
  have hcalls : Calls (Arena.ofForest []) reader arena roots := h
  obtain ⟨trees, rfl, hroots⟩ := hcalls.exists_eq_ofForest
  rw [List.nil_append] at hroots ⊢
  have hroot := fun root h => Arena.next?_eq_none_of_mem_roots (hroots root h)
  refine ⟨Arena.wellFormed_ofForest trees, hroot, fun reader' arena' roots' hcalls => ?_⟩
  obtain ⟨new, rfl, -⟩ := hcalls.exists_eq_ofForest
  refine ⟨(Arena.renames_append trees new).size_le, fun id hid => ?_, fun root h => ?_⟩
  · exact ⟨Arena.node?_append trees new hid, Arena.children_append trees new hid⟩
  · have hpieces := Arena.pieces_append trees new (hroot root h).1
    refine ⟨hpieces, ?_, ?_⟩
    · rw [Arena.render, Arena.render, Arena.tokens, Arena.tokens, hpieces]
    · rw [Arena.outline, Arena.outline, hpieces]

/-- An expression, and then one that fails behind its first node, which stays in the arena
when another reader reads the next expression. -/
theorem arena_settled_rejected :
    ∃ (reader reader' : Reader) (arena arena' : Arena), Calls {} reader arena [4] ∧
      arena.size = 6 ∧ Calls arena reader' arena' [8] ∧ arena'.size = 9 ∧
      arena.WellFormed ∧ arena.next? 4 = none ∧
      (∀ id < 6, arena'.node? id = arena.node? id) ∧ arena'.render 4 = arena.render 4 := by
  have hfeed : ({} : Reader).feed "(f (g) 1) (h +1 2)" =
      .ok ⟨[.opening, .word "f", .opening, .word "g", .closing, .word "1", .closing,
        .opening, .word "h", .word "+1", .word "2", .closing]⟩ := rfl
  have hmore : ({} : Reader).feed "(k f)" =
      .ok ⟨[.opening, .word "k", .word "f", .closing]⟩ := rfl
  have hstart : Calls {} {} {} [] := .none {}
  have hcalls := (hstart.feed hfeed).read.read
  obtain ⟨hwell, hroots, hlater⟩ := arena_settled hcalls
  have hcont := hlater _ _ _ ((Calls.none {}).feed hmore).read
  exact ⟨_, _, _, _, hcalls, rfl, ((Calls.none {}).feed hmore).read, rfl, hwell,
    (hroots 4 List.mem_cons_self).2, fun id hid => (hcont.2.1 id hid).1,
    (hcont.2.2 4 List.mem_cons_self).2.1⟩

end Reader

end StackScheme
