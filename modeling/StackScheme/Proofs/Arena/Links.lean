import StackScheme.Proofs.Arena.Forest

/-!
# Links of the arena

In an arena that comes from reading, a sibling link leads to a later node and
an operator link to an earlier one, and all links stay inside of the arena.
Chains of siblings therefore end, and the children of a compound are the whole
chain that starts at its operator.

* `Arena.WellLinked` is the property, and `Arena.Grown.wellLinked` says that
  reading provides it.
* `getElem?_children_zero` and `getElem?_children_succ` are all that a walk over
  the children needs to know: where it starts, and where it goes next.
* `getElem?_children_inj` says that the walk meets no child twice, and
  `lt_size_of_mem_children` keeps it inside of the arena.
* Operands are the children after the operator.
-/

namespace StackScheme

/-- All links stay in the arena.  Siblings come later and operators earlier. -/
structure Arena.WellLinked (arena : Arena) : Prop where
  next_gt {id next : Nat} {node : Node} (h : arena.node? id = some node)
    (hnext : node.next = some next) : id < next ∧ next < arena.size
  operator_lt {id operator : Nat} {node : Node} (h : arena.node? id = some node)
    (hshape : node.shape = .compound operator) : operator < id

namespace SExpr

/-! ## Links of trees -/

/-- The links of nodes that start at `lo`: siblings come later and below `hi`,
and operators come earlier. -/
def LinksWithin (lo hi : Nat) (nodes : List Node) : Prop :=
  ∀ (i : Nat) (node : Node), nodes[i]? = some node →
    (∀ next : Nat, node.next = some next → lo + i < next ∧ next < hi) ∧
      ∀ operator : Nat, node.shape = .compound operator → operator < lo + i

theorem LinksWithin.nil (lo hi : Nat) : LinksWithin lo hi [] := by
  intro i node h
  simp at h

theorem LinksWithin.cons {lo hi : Nat} {node : Node} {after : List Node}
    (hnext : ∀ next : Nat, node.next = some next → lo < next ∧ next < hi)
    (hoperator : ∀ operator : Nat, node.shape = .compound operator → operator < lo)
    (hafter : LinksWithin (lo + 1) hi after) : LinksWithin lo hi (node :: after) := by
  intro i n h
  cases i with
  | zero =>
    simp only [List.getElem?_cons_zero, Option.some.injEq] at h
    subst h
    exact ⟨hnext, hoperator⟩
  | succ i =>
    rw [List.getElem?_cons_succ] at h
    obtain ⟨hn, ho⟩ := hafter i n h
    refine ⟨fun next hn' => ?_, fun operator ho' => ?_⟩
    · have := hn next hn'
      omega
    · have := ho operator ho'
      omega

theorem LinksWithin.mono {lo hi hi' : Nat} {nodes : List Node} (h : LinksWithin lo hi nodes)
    (hle : hi ≤ hi') : LinksWithin lo hi' nodes := by
  intro i node hi
  obtain ⟨hnext, hoperator⟩ := h i node hi
  refine ⟨fun next hn => ?_, hoperator⟩
  have := hnext next hn
  omega

theorem LinksWithin.append {lo hi : Nat} {before after : List Node}
    (hbefore : LinksWithin lo hi before) (hafter : LinksWithin (lo + before.length) hi after) :
    LinksWithin lo hi (before ++ after) := by
  intro i node h
  by_cases hi : i < before.length
  · rw [List.getElem?_append_left hi] at h
    exact hbefore i node h
  · rw [List.getElem?_append_right (by omega)] at h
    obtain ⟨hnext, hoperator⟩ := hafter _ node h
    refine ⟨fun next hn => ?_, fun operator ho => ?_⟩
    · have := hnext next hn
      omega
    · have := hoperator operator ho
      omega

/-- The root of a tree comes after its operator. -/
theorem operator_lt_root {lo operator : Nat} {t : SExpr} (h : shape lo t = .compound operator) :
    operator < lo + t.beneath := by
  cases t with
  | atom a => simp [shape] at h
  | list items =>
    cases items with
    | nil => simp [shape] at h
    | cons u us =>
      simp only [shape, Shape.compound.injEq] at h
      subst h
      simp only [beneath, count]
      omega

/-- The link from an item to the item after it stays within the list. -/
theorem firstRoot?_lt {lo next : Nat} {ts : List SExpr} (h : firstRoot? lo ts = some next) :
    lo ≤ next ∧ next < lo + count ts := by
  cases ts with
  | nil => simp [firstRoot?] at h
  | cons t ts =>
    simp only [firstRoot?, Option.some.injEq] at h
    subst h
    simp only [count]
    omega

mutual

theorem linksWithin_innerNodes (lo : Nat) (t : SExpr) :
    LinksWithin lo (lo + t.beneath) (innerNodes lo t) := by
  cases t with
  | atom a =>
    rw [innerNodes]
    exact .nil _ _
  | list items =>
    rw [innerNodes, beneath]
    exact linksWithin_linked lo items

theorem linksWithin_linked (lo : Nat) (ts : List SExpr) :
    LinksWithin lo (lo + count ts) (linked lo ts) := by
  cases ts with
  | nil =>
    rw [linked]
    exact .nil _ _
  | cons t ts =>
    have hinner := linksWithin_innerNodes lo t
    have hrest := linksWithin_linked (lo + t.beneath + 1) ts
    rw [linked, count]
    refine (hinner.mono (by omega)).append ?_
    rw [length_innerNodes]
    refine .cons (fun next hnext => ?_) (fun _ => operator_lt_root) (hrest.mono (by omega))
    have := firstRoot?_lt hnext
    omega

end

theorem linksWithin_forest (lo : Nat) (ts : List SExpr) :
    LinksWithin lo (lo + count ts) (forest lo ts) := by
  induction ts generalizing lo with
  | nil =>
    rw [forest]
    exact .nil _ _
  | cons t ts ih =>
    rw [forest, count]
    refine ((linksWithin_innerNodes lo t).mono (by omega)).append ?_
    rw [length_innerNodes]
    exact .cons (by simp) (fun _ => operator_lt_root) ((ih _).mono (by omega))

end SExpr

namespace Arena

theorem wellLinked_ofForest (trees : List SExpr) : (ofForest trees).WellLinked := by
  have hlinks := SExpr.linksWithin_forest 0 trees
  refine ⟨fun {id next node} h hnext => ?_, fun {id operator node} h hshape => ?_⟩
  · rw [ofForest, node?_ofNodes] at h
    have := (hlinks id node h).1 next hnext
    rw [size_ofForest]
    omega
  · rw [ofForest, node?_ofNodes] at h
    have := (hlinks id node h).2 operator hshape
    omega

/-- The links of an arena that comes from reading are well formed. -/
theorem Grown.wellLinked {arena : Arena} (h : arena.Grown) : arena.WellLinked := by
  obtain ⟨trees, rfl⟩ := h.exists_eq_ofForest
  exact wellLinked_ofForest trees

/-! ## Children -/

theorem lt_size_of_node?_eq_some {arena : Arena} {id : Nat} {node : Node}
    (h : arena.node? id = some node) : id < arena.size :=
  (Array.getElem?_eq_some_iff.1 h).1

theorem exists_node?_eq_some {arena : Arena} {id : Nat} (h : id < arena.size) :
    ∃ node, arena.node? id = some node :=
  ⟨_, Array.getElem?_eq_getElem h⟩

theorem next?_eq_of_node?_eq_some {arena : Arena} {id : Nat} {node : Node}
    (h : arena.node? id = some node) : arena.next? id = node.next := by
  rw [next?, h, Option.bind_some]

theorem WellLinked.next?_gt {arena : Arena} (hlinks : arena.WellLinked) {id next : Nat}
    (h : arena.next? id = some next) : id < next ∧ next < arena.size := by
  rw [next?, Option.bind_eq_some_iff] at h
  obtain ⟨node, hnode, hnext⟩ := h
  exact hlinks.next_gt hnode hnext

theorem getElem?_siblings_zero {arena : Arena} {fuel : Nat} {start : Option NodeId}
    (hfuel : ∀ id : Nat, start = some id → 0 < fuel) :
    (arena.siblings fuel start)[0]? = start := by
  cases start with
  | none => cases fuel <;> rfl
  | some id =>
    cases fuel with
    | zero => exact absurd (hfuel id rfl) (by omega)
    | succ fuel => rfl

/-- Each sibling link is followed as long as the fuel reaches the end of the
arena. -/
theorem getElem?_siblings_succ {arena : Arena} (hlinks : arena.WellLinked) {fuel i : Nat}
    {start : Option NodeId} {child : Nat}
    (hfuel : ∀ id : Nat, start = some id → arena.size ≤ fuel + id)
    (h : (arena.siblings fuel start)[i]? = some child) :
    (arena.siblings fuel start)[i + 1]? = arena.next? child := by
  induction fuel generalizing start i with
  | zero => simp [siblings] at h
  | succ fuel ih =>
    cases start with
    | none => simp [siblings] at h
    | some id =>
      have hle := hfuel id rfl
      have hnext : ∀ next : Nat, arena.next? id = some next →
          arena.size ≤ fuel + next ∧ 0 < fuel := by
        intro next hn
        have := hlinks.next?_gt hn
        omega
      rw [siblings, List.getElem?_cons_succ]
      cases i with
      | zero =>
        rw [siblings, List.getElem?_cons_zero, Option.some.injEq] at h
        subst h
        exact getElem?_siblings_zero fun next hn => (hnext next hn).2
      | succ i =>
        rw [siblings, List.getElem?_cons_succ] at h
        exact ih (fun next hn => (hnext next hn).1) h

theorem lt_size_of_mem_siblings {arena : Arena} (hlinks : arena.WellLinked) {fuel : Nat}
    {start : Option NodeId} {child : Nat}
    (hstart : ∀ id : Nat, start = some id → id < arena.size)
    (h : child ∈ arena.siblings fuel start) : child < arena.size := by
  induction fuel generalizing start with
  | zero => simp [siblings] at h
  | succ fuel ih =>
    cases start with
    | none => simp [siblings] at h
    | some id =>
      rw [siblings, List.mem_cons] at h
      rcases h with rfl | h
      · exact hstart _ rfl
      · exact ih (fun next hn => (hlinks.next?_gt hn).2) h

theorem exists_node?_of_symbol?_eq_some {arena : Arena} {id : Nat} {name : String}
    (h : arena.symbol? id = some name) :
    ∃ next, arena.node? id = some ⟨.atom (.symbol name), next⟩ := by
  rw [symbol?] at h
  split at h
  · rename_i name' next hnode
    obtain rfl := Option.some.inj h
    exact ⟨next, hnode⟩
  · cases h

theorem children_eq_siblings {arena : Arena} {id operator : Nat} {node : Node}
    (h : arena.node? id = some node) (hshape : node.shape = .compound operator) :
    arena.children id = arena.siblings arena.size (some operator) := by
  obtain ⟨shape, next⟩ := node
  subst hshape
  rw [children, h]

/-- The first child of a compound is its operator. -/
theorem getElem?_children_zero {arena : Arena} {id operator : Nat} {node : Node}
    (h : arena.node? id = some node) (hshape : node.shape = .compound operator) :
    (arena.children id)[0]? = some operator := by
  have hlt := lt_size_of_node?_eq_some h
  rw [children_eq_siblings h hshape]
  exact getElem?_siblings_zero fun _ _ => by omega

/-- Each child of a compound is followed by its sibling. -/
theorem getElem?_children_succ {arena : Arena} (hlinks : arena.WellLinked) {id child : Nat}
    {i : Nat} (h : (arena.children id)[i]? = some child) :
    (arena.children id)[i + 1]? = arena.next? child := by
  rw [children] at h ⊢
  split at h
  · exact getElem?_siblings_succ hlinks (fun _ _ => by omega) h
  · simp at h

/-- Later children have greater numbers. -/
theorem getElem?_children_lt {arena : Arena} (hlinks : arena.WellLinked) {id a b : Nat}
    {i j : Nat} (hi : (arena.children id)[i]? = some a) (hj : (arena.children id)[j]? = some b)
    (hlt : i < j) : a < b := by
  induction j generalizing b with
  | zero => omega
  | succ j ih =>
    have hlen := (List.getElem?_eq_some_iff.1 hj).1
    have hc := List.getElem?_eq_getElem (Nat.lt_of_succ_lt hlen)
    generalize (arena.children id)[j] = c at hc
    have hcb : c < b := by
      rw [getElem?_children_succ hlinks hc] at hj
      exact (hlinks.next?_gt hj).1
    by_cases heq : i = j
    · subst heq
      rw [hi, Option.some.injEq] at hc
      exact hc ▸ hcb
    · exact Nat.lt_trans (ih hc (by omega)) hcb

/-- A child has one position. -/
theorem getElem?_children_inj {arena : Arena} (hlinks : arena.WellLinked) {id child : Nat}
    {i j : Nat} (hi : (arena.children id)[i]? = some child)
    (hj : (arena.children id)[j]? = some child) : i = j := by
  rcases Nat.lt_trichotomy i j with hlt | heq | hlt
  · exact absurd (getElem?_children_lt hlinks hi hj hlt) (Nat.lt_irrefl _)
  · exact heq
  · exact absurd (getElem?_children_lt hlinks hj hi hlt) (Nat.lt_irrefl _)

/-- Children lie in the arena. -/
theorem lt_size_of_mem_children {arena : Arena} (hlinks : arena.WellLinked) {id child : Nat}
    (h : child ∈ arena.children id) : child < arena.size := by
  rw [children] at h
  split at h
  · rename_i operator next hnode
    refine lt_size_of_mem_siblings hlinks ?_ h
    intro start hstart
    obtain rfl := Option.some.inj hstart
    have hlt := hlinks.operator_lt hnode rfl
    have hsize := lt_size_of_node?_eq_some hnode
    omega
  · simp at h

/-! ## Operands -/

theorem getElem?_operands (arena : Arena) (id : NodeId) (i : Nat) :
    (arena.operands id)[i]? = (arena.children id)[i + 1]? := by
  rw [operands, List.getElem?_tail]

theorem head?_operands (arena : Arena) (id : NodeId) :
    (arena.operands id).head? = (arena.children id)[1]? := by
  rw [List.head?_eq_getElem?, getElem?_operands]

theorem lt_size_of_mem_operands {arena : Arena} (hlinks : arena.WellLinked) {id operand : Nat}
    (h : operand ∈ arena.operands id) : operand < arena.size :=
  lt_size_of_mem_children hlinks (List.mem_of_mem_tail h)

end Arena

end StackScheme
