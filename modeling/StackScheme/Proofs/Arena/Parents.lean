import StackScheme.Proofs.Arena.Renaming

/-!
# Parents in the arena

A list is added right behind its last item.  So the children of a node come before it, the
last child is its neighbour, and a child has no second parent: the way along the siblings
leads to the same last child, and from there to the same node.

* Roots.  `exists_children_eq_roots` says that the children of a compound are the roots of
  trees that stand in front of it, one behind the other.
* Children.  `lt_of_mem_children` and `succ_eq_of_next?_eq_none` are what follows for one
  child, and `parent_unique` for two parents.
* `Arena.WellFormed` is all of it as one property of an arena, and `wellFormed_ofForest`
  says that reading provides it.
-/

namespace StackScheme

/-! ## Roots -/

namespace SExpr

theorem lt_of_mem_roots {lo id : Nat} {ts : List SExpr} (h : id ∈ roots lo ts) :
    id < lo + count ts := by
  induction ts generalizing lo with
  | nil => cases h
  | cons t ts ih =>
    rw [roots, List.mem_cons] at h
    rw [count]
    rcases h with rfl | h
    · omega
    · have hlt := ih h
      omega

/-- The root of the last tree is the last node of all. -/
theorem succ_eq_of_getLast?_roots {lo last : Nat} {ts : List SExpr}
    (h : (roots lo ts).getLast? = some last) : last + 1 = lo + count ts := by
  induction ts generalizing lo with
  | nil => cases h
  | cons t ts ih =>
    rw [roots] at h
    rw [count]
    cases ts with
    | nil =>
      obtain rfl : lo + t.beneath = last := by simpa [roots] using h
      rw [count]
      omega
    | cons u us =>
      rw [roots, List.getLast?_cons_cons] at h
      have hlast := ih h
      omega

end SExpr

namespace Arena

open SExpr

/-- The children of a compound are the roots of the trees right in front of it. -/
theorem exists_children_eq_roots (trees : List SExpr) {id child : Nat}
    (h : child ∈ (ofForest trees).children id) :
    ∃ lo ts, (ofForest trees).children id = roots lo ts ∧ id = lo + count ts := by
  have hid : id < (ofForest trees).size := by
    rw [children] at h
    split at h
    · exact lt_size_of_node?_eq_some ‹_›
    · cases h
  obtain ⟨before, after, next, lo, t, hlo, rfl, hnodes⟩ := exists_ofForest_eq_nodesAround hid
  rw [hnodes] at h ⊢
  cases t with
  | atom a =>
    have hroot := node?_root before after next lo hlo (.atom a)
    rw [children, nodesAround, hroot] at h
    cases h
  | list ts => exact ⟨lo, ts, children_root before after next lo hlo ts, rfl⟩

/-! ## Children -/

/-- A child comes before its parent. -/
theorem lt_of_mem_children {trees : List SExpr} {id child : Nat}
    (h : child ∈ (ofForest trees).children id) : child < id := by
  obtain ⟨lo, ts, hroots, rfl⟩ := exists_children_eq_roots trees h
  rw [hroots] at h
  exact lt_of_mem_roots h

/-- The child without a sibling after it stands right in front of its parent. -/
theorem succ_eq_of_next?_eq_none {trees : List SExpr} {id child : Nat}
    (h : child ∈ (ofForest trees).children id)
    (hnext : (ofForest trees).next? child = none) : child + 1 = id := by
  obtain ⟨lo, ts, hroots, rfl⟩ := exists_children_eq_roots trees h
  obtain ⟨i, hi⟩ := List.mem_iff_getElem?.1 h
  have hend := getElem?_children_succ (wellLinked_ofForest trees) hi
  rw [hnext, List.getElem?_eq_none_iff] at hend
  have hlt := (List.getElem?_eq_some_iff.1 hi).1
  have hlast : ((ofForest trees).children (lo + count ts)).getLast? = some child := by
    rw [List.getLast?_eq_getElem?, ← hi]
    congr 1
    omega
  rw [hroots] at hlast
  exact succ_eq_of_getLast?_roots hlast

/-- The sibling of a child is a child too. -/
theorem WellLinked.next_mem_children {arena : Arena} (hlinks : arena.WellLinked)
    {id child next : Nat} (h : child ∈ arena.children id)
    (hnext : arena.next? child = some next) : next ∈ arena.children id := by
  obtain ⟨i, hi⟩ := List.mem_iff_getElem?.1 h
  exact List.mem_of_getElem? ((getElem?_children_succ hlinks hi).trans hnext)

/-- Sibling links lead to later nodes, so that they end. -/
theorem WellLinked.wellFounded_next {arena : Arena} (hlinks : arena.WellLinked) :
    WellFounded fun next id : Nat => arena.next? id = some next := by
  refine Subrelation.wf (fun {next id} h => ?_) (measure fun id => arena.size - id).wf
  have hlt := hlinks.next?_gt h
  show arena.size - next < arena.size - id
  omega

/-- A node is the child of one node at most. -/
theorem parent_unique {trees : List SExpr} {child id id' : Nat}
    (h : child ∈ (ofForest trees).children id) (h' : child ∈ (ofForest trees).children id') :
    id = id' := by
  have hlinks := wellLinked_ofForest trees
  -- The induction goes along the siblings, up to the last child, which is next to both.
  induction child using hlinks.wellFounded_next.induction with
  | _ child ih =>
    cases hnext : (ofForest trees).next? child with
    | none =>
      have hlast := succ_eq_of_next?_eq_none h hnext
      exact hlast.symm.trans (succ_eq_of_next?_eq_none h' hnext)
    | some next =>
      exact ih next hnext (hlinks.next_mem_children h hnext) (hlinks.next_mem_children h' hnext)

/-- The links of an arena make finite trees that have no node in common.  The children of a
compound are its operator, and behind each child the sibling that it is linked to. -/
structure WellFormed (arena : Arena) : Prop where
  operator_lt_size {id operator : Nat} {next : Option NodeId}
    (h : arena.node? id = some ⟨.compound operator, next⟩) : operator < arena.size
  next_lt_size {id next : Nat} (h : arena.next? id = some next) : next < arena.size
  lt_next {id next : Nat} (h : arena.next? id = some next) : id < next
  child_zero {id operator : Nat} {next : Option NodeId}
    (h : arena.node? id = some ⟨.compound operator, next⟩) :
    (arena.children id)[0]? = some operator
  child_succ {id child i : Nat} (h : (arena.children id)[i]? = some child) :
    (arena.children id)[i + 1]? = arena.next? child
  child_lt {id child : Nat} (h : child ∈ arena.children id) : child < id
  parent_unique {child id id' : Nat} (h : child ∈ arena.children id)
    (h' : child ∈ arena.children id') : id = id'
  siblings_finite : WellFounded fun next id : Nat => arena.next? id = some next
  trees_finite : WellFounded fun child id : Nat => child ∈ arena.children id

theorem wellFormed_ofForest (trees : List SExpr) : (ofForest trees).WellFormed where
  operator_lt_size := fun {id operator next} h => by
    have hlt := (wellLinked_ofForest trees).operator_lt h rfl
    have hid := lt_size_of_node?_eq_some h
    omega
  next_lt_size := fun h => ((wellLinked_ofForest trees).next?_gt h).2
  lt_next := fun h => ((wellLinked_ofForest trees).next?_gt h).1
  child_zero := fun h => getElem?_children_zero h rfl
  child_succ := getElem?_children_succ (wellLinked_ofForest trees)
  child_lt := lt_of_mem_children
  parent_unique := parent_unique
  siblings_finite := (wellLinked_ofForest trees).wellFounded_next
  trees_finite := Subrelation.wf lt_of_mem_children Nat.lt_wfRel.wf

end Arena

end StackScheme
