import StackScheme.Proofs.Reader.Splitting

/-!
# The arena as a forest

Reading an expression only ever adds nodes at the end of the arena, and it adds
them in postorder.  This module says so in closed form: at any time, the nodes
of an arena are those of a list of trees, laid out one tree after the other.

There are four groups.

* Trees.  `SExpr` is an expression without an arena.  `SExpr.beneath` is the number
  of nodes below the root of a tree, and `SExpr.count` the number of nodes of a
  list of trees.
* Layout.  `SExpr.innerNodes` are the nodes below the root when the tree starts at a
  given place, `SExpr.linked` are the nodes of the items of a list, and
  `SExpr.forest` are those of trees that stand alone.
* Building.  `SExpr.growFrom` builds trees where `Arena.buildFrom` builds nodes,
  and `buildFrom_withLevels` says that the nodes are those of the trees.
* Reading.  `read_ofForest` is the result for `Reader.read`: it keeps all trees
  that are there and adds new ones behind them.
-/

namespace StackScheme

/-! ## Trees -/

/-- An expression without an arena. -/
inductive SExpr where
  | atom (a : Atom)
  | list (items : List SExpr)

namespace SExpr

mutual

/-- The number of nodes below the root. -/
def beneath : SExpr → Nat
  | atom _ => 0
  | list items => count items

/-- The number of nodes of a list of trees. -/
def count : List SExpr → Nat
  | [] => 0
  | t :: ts => beneath t + 1 + count ts

end

theorem count_append (ts us : List SExpr) : count (ts ++ us) = count ts + count us := by
  induction ts with
  | nil => simp [count]
  | cons t ts ih =>
    simp only [List.cons_append, count, ih]
    omega

/-! ## Layout -/

/-- The shape of the root of a tree that starts at `lo`. -/
def shape (lo : Nat) : SExpr → Shape
  | atom a => .atom a
  | list [] => .empty
  | list (t :: _) => .compound (lo + t.beneath)

/-- The root of the first tree of a list that starts at `lo`. -/
def firstRoot? (lo : Nat) : List SExpr → Option NodeId
  | [] => none
  | t :: _ => some (lo + t.beneath)

mutual

/-- The nodes below the root of a tree that starts at `lo`. -/
def innerNodes (lo : Nat) : SExpr → List Node
  | atom _ => []
  | list items => linked lo items

/-- The nodes of the items of a list.  The root of each item points to the root
of the item after it. -/
def linked (lo : Nat) : List SExpr → List Node
  | [] => []
  | t :: ts =>
    innerNodes lo t ++
      ⟨shape lo t, firstRoot? (lo + t.beneath + 1) ts⟩ :: linked (lo + t.beneath + 1) ts

end

/-- The nodes of trees that stand one after the other and are not linked. -/
def forest (lo : Nat) : List SExpr → List Node
  | [] => []
  | t :: ts => innerNodes lo t ++ ⟨shape lo t, none⟩ :: forest (lo + t.beneath + 1) ts

/-- The roots of trees that stand one after the other. -/
def roots (lo : Nat) : List SExpr → List NodeId
  | [] => []
  | t :: ts => (lo + t.beneath) :: roots (lo + t.beneath + 1) ts

mutual

theorem length_innerNodes (lo : Nat) (t : SExpr) : (innerNodes lo t).length = t.beneath := by
  cases t with
  | atom a => simp [innerNodes, beneath]
  | list items =>
    rw [innerNodes, beneath]
    exact length_linked lo items

theorem length_linked (lo : Nat) (ts : List SExpr) : (linked lo ts).length = count ts := by
  cases ts with
  | nil => simp [linked, count]
  | cons t ts =>
    have ht := length_innerNodes lo t
    have hts := length_linked (lo + t.beneath + 1) ts
    simp only [linked, count, List.length_append, List.length_cons, ht, hts]
    omega

end

theorem length_forest (lo : Nat) (ts : List SExpr) : (forest lo ts).length = count ts := by
  induction ts generalizing lo with
  | nil => simp [forest, count]
  | cons t ts ih =>
    simp only [forest, count, List.length_append, List.length_cons, length_innerNodes, ih]
    omega

theorem forest_append (lo : Nat) (ts us : List SExpr) :
    forest lo (ts ++ us) = forest lo ts ++ forest (lo + count ts) us := by
  induction ts generalizing lo with
  | nil => simp [forest, count]
  | cons t ts ih =>
    have hlo : lo + t.beneath + 1 + count ts = lo + count (t :: ts) := by
      simp only [count]
      omega
    simp only [List.cons_append, forest, ih, hlo, List.append_assoc]

theorem roots_append (lo : Nat) (ts us : List SExpr) :
    roots lo (ts ++ us) = roots lo ts ++ roots (lo + count ts) us := by
  induction ts generalizing lo with
  | nil => simp [roots, count]
  | cons t ts ih =>
    have hlo : lo + t.beneath + 1 + count ts = lo + count (t :: ts) := by
      simp only [count]
      omega
    simp only [List.cons_append, roots, ih, hlo]

end SExpr

namespace Arena

open SExpr

/-- The arena with the given nodes. -/
def ofNodes (nodes : List Node) : Arena :=
  ⟨nodes.toArray⟩

/-- The arena that holds trees one after the other. -/
def ofForest (ts : List SExpr) : Arena :=
  ofNodes (forest 0 ts)

@[simp] theorem size_ofNodes (nodes : List Node) : (ofNodes nodes).size = nodes.length := by
  simp [ofNodes, size]

@[simp] theorem node?_ofNodes (nodes : List Node) (id : NodeId) :
    (ofNodes nodes).node? id = nodes[id]? := by
  simp [ofNodes, node?]

theorem size_ofForest (ts : List SExpr) : (ofForest ts).size = count ts := by
  rw [ofForest, size_ofNodes, length_forest]

theorem push_ofNodes (nodes : List Node) (shape : Shape) :
    (ofNodes nodes).push shape = (nodes.length, ofNodes (nodes ++ [⟨shape, none⟩])) := by
  simp [ofNodes, push]

theorem link_ofNodes (before after : List Node) (node : Node) (next : NodeId) :
    (ofNodes (before ++ node :: after)).link before.length next =
      ofNodes (before ++ { node with next := some next } :: after) := by
  have hlt : before.length < (before ++ node :: after).length := by simp
  simp [ofNodes, link, List.modify_eq_take_cons_drop hlt]

/-! ## Building -/

/-- Linking the roots of trees at the end of the arena makes them the items of a
list. -/
theorem linkAll_forest (before : List Node) (lo : Nat) (ts : List SExpr)
    (hlo : before.length = lo) :
    (ofNodes (before ++ forest lo ts)).linkAll (roots lo ts) =
      ofNodes (before ++ linked lo ts) := by
  induction ts generalizing before lo with
  | nil => simp [roots, forest, linked, linkAll]
  | cons t ts ih =>
    cases ts with
    | nil => simp [roots, forest, linked, linkAll, firstRoot?]
    | cons u us =>
      have hroot : (before ++ innerNodes lo t).length = lo + t.beneath := by
        rw [List.length_append, length_innerNodes, hlo]
      have hstep := link_ofNodes (before ++ innerNodes lo t) (forest (lo + t.beneath + 1) (u :: us))
        ⟨shape lo t, none⟩ (lo + t.beneath + 1 + u.beneath)
      rw [hroot] at hstep
      have hrest := ih (before ++ innerNodes lo t ++
        [⟨shape lo t, some (lo + t.beneath + 1 + u.beneath)⟩]) (lo + t.beneath + 1)
        (by rw [List.length_append, hroot, List.length_singleton])
      rw [roots, roots, linkAll, forest, ← List.append_assoc, hstep]
      rw [roots, List.append_assoc, List.singleton_append] at hrest
      have hlinked : linked lo (t :: u :: us) = innerNodes lo t ++
          ⟨shape lo t, some (lo + t.beneath + 1 + u.beneath)⟩ ::
            linked (lo + t.beneath + 1) (u :: us) := by
        rw [linked]
        rfl
      rw [hrest, hlinked]
      simp only [List.append_assoc, List.singleton_append]

/-- The list of the trees at the end of the arena is added behind them. -/
theorem combine_forest (before : List Node) (lo : Nat) (ts : List SExpr)
    (hlo : before.length = lo) :
    (ofNodes (before ++ forest lo ts)).combine (roots lo ts) =
      (lo + count ts, ofNodes (before ++ forest lo [.list ts])) := by
  cases ts with
  | nil => simp [roots, forest, innerNodes, linked, shape, count, combine, push_ofNodes, hlo]
  | cons t ts =>
    have hlink := linkAll_forest before lo (t :: ts) hlo
    have hsize : (before ++ linked lo (t :: ts)).length = lo + count (t :: ts) := by
      rw [List.length_append, length_linked, hlo]
    rw [roots] at hlink ⊢
    rw [combine, hlink, push_ofNodes, hsize]
    simp [forest, innerNodes, shape]

end Arena

namespace SExpr

/-- Adds a tree to the innermost open list. -/
def addTree (t : SExpr) : List (List SExpr) → List (List SExpr)
  | items :: outer => (t :: items) :: outer
  | [] => [[t]]

/-- The trees of all open lists in the order in which they were completed. -/
def completed (levels : List (List SExpr)) : List SExpr :=
  levels.flatten.reverse

/-- Builds the rest of an expression as a tree.  The second component has the
trees that were completed and are part of no other tree. -/
def growFrom (levels : List (List SExpr)) : List Token → Except SyntaxError SExpr × List SExpr
  | [] =>
    match levels with
    | [[t]] => (.ok t, [t])
    | _ => (.error .unbalanced, completed levels)
  | .opening :: ts => growFrom ([] :: levels) ts
  | .closing :: ts =>
    match levels with
    | items :: outer :: levels => growFrom ((.list items.reverse :: outer) :: levels) ts
    | _ => (.error .unbalanced, completed levels)
  | .word w :: ts =>
    match Atom.ofWord w with
    | .ok a => growFrom (addTree (.atom a) levels) ts
    | .error e => (.error e, completed levels)
  | .string contents :: ts => growFrom (addTree (.atom (.string contents)) levels) ts

/-- Builds the expression that a list of tokens is. -/
def grow (ts : List Token) : Except SyntaxError SExpr × List SExpr :=
  growFrom [[]] ts

/-- The roots of the items of open lists, the innermost list and the newest item
first. -/
def levelRoots (lo : Nat) : List (List SExpr) → List (List NodeId)
  | [] => []
  | items :: outer =>
    (roots (lo + count (completed outer)) items.reverse).reverse :: levelRoots lo outer

theorem completed_cons (items : List SExpr) (outer : List (List SExpr)) :
    completed (items :: outer) = completed outer ++ items.reverse := by
  simp [completed]

theorem completed_addTree (t : SExpr) (levels : List (List SExpr)) :
    completed (addTree t levels) = completed levels ++ [t] := by
  cases levels <;> simp [completed, addTree]

/-- The new item comes right behind all others. -/
theorem levelRoots_addTree (lo : Nat) (t : SExpr) (levels : List (List SExpr)) :
    levelRoots lo (addTree t levels) =
      Arena.addItem (lo + count (completed levels) + t.beneath) (levelRoots lo levels) := by
  cases levels with
  | nil => simp [addTree, levelRoots, Arena.addItem, roots, completed, count]
  | cons items outer =>
    have hcount : lo + count (completed outer) + count items.reverse =
        lo + count (completed (items :: outer)) := by
      rw [completed_cons, count_append]
      omega
    simp only [addTree, levelRoots, Arena.addItem, List.reverse_cons, roots_append, hcount,
      roots, List.reverse_append, List.reverse_nil, List.nil_append, List.singleton_append]

end SExpr

namespace Arena

open SExpr

/-- The nodes of open lists stand behind the nodes that were there before. -/
def withLevels (before : List Node) (levels : List (List SExpr)) : Arena :=
  ofNodes (before ++ forest before.length (completed levels))

/-- Adding an atom to the arena adds it to the innermost open list. -/
theorem push_withLevels (before : List Node) (levels : List (List SExpr)) (a : Atom) :
    (withLevels before levels).push (.atom a) =
      (before.length + count (completed levels),
        withLevels before (addTree (.atom a) levels)) := by
  simp [withLevels, push_ofNodes, length_forest, completed_addTree, forest_append, forest,
    innerNodes, shape]

/-- Combining the items of the innermost open list adds the list to the one
around it. -/
theorem combine_withLevels (before : List Node) (items outer : List SExpr)
    (levels : List (List SExpr)) :
    (withLevels before (items :: outer :: levels)).combine
        (roots (before.length + count (completed (outer :: levels))) items.reverse) =
      (before.length + count (completed (outer :: levels)) + (SExpr.list items.reverse).beneath,
        withLevels before ((.list items.reverse :: outer) :: levels)) := by
  have hlen : (before ++ forest before.length (completed (outer :: levels))).length =
      before.length + count (completed (outer :: levels)) := by
    rw [List.length_append, length_forest]
  have hcomb := combine_forest _ _ items.reverse hlen
  have hcompleted : completed ((.list items.reverse :: outer) :: levels) =
      completed (outer :: levels) ++ [.list items.reverse] := completed_addTree _ (outer :: levels)
  rw [List.append_assoc, ← forest_append, ← completed_cons, List.append_assoc,
    ← forest_append, ← hcompleted] at hcomb
  rw [withLevels, hcomb, beneath, withLevels]

/-- A finished building, as nodes and as trees. -/
theorem buildFrom_nil (before : List Node) (levels : List (List SExpr)) :
    (withLevels before levels).buildFrom (levelRoots before.length levels) [] =
      ((growFrom levels []).1.map (before.length + ·.beneath),
        ofNodes (before ++ forest before.length (growFrom levels []).2)) := by
  -- Only one open list with one item ends well; the shape of the levels decides.
  match levels with
  | [] => rfl
  | [[]] => rfl
  | [[t]] => simp [levelRoots, roots, completed, count, withLevels, buildFrom, growFrom, Except.map]
  | [t :: u :: items] =>
    have hroots : levelRoots before.length [t :: u :: items] =
        addItem (before.length + count (completed [u :: items]) + t.beneath)
          (levelRoots before.length [u :: items]) :=
      levelRoots_addTree before.length t [u :: items]
    have hmore : levelRoots before.length [u :: items] =
        addItem (before.length + count (completed [items]) + u.beneath)
          (levelRoots before.length [items]) :=
      levelRoots_addTree before.length u [items]
    rw [hroots, hmore]
    rfl
  | items :: outer :: levels =>
    rw [levelRoots, levelRoots, buildFrom, growFrom]
    · rfl
    · simp
    · simp

/-- Building nodes adds the nodes of the trees that are built. -/
theorem buildFrom_withLevels (before : List Node) (levels : List (List SExpr)) (ts : List Token) :
    (withLevels before levels).buildFrom (levelRoots before.length levels) ts =
      ((growFrom levels ts).1.map (before.length + ·.beneath),
        ofNodes (before ++ forest before.length (growFrom levels ts).2)) := by
  induction ts generalizing levels with
  | nil => exact buildFrom_nil before levels
  | cons t ts ih =>
    cases t with
    | opening =>
      have hopen := ih ([] :: levels)
      rw [buildFrom, growFrom, ← hopen]
      simp [withLevels, levelRoots, roots, completed]
    | closing =>
      match levels with
      | [] => rfl
      | [items] => rfl
      | items :: outer :: levels =>
        have hcomb := combine_withLevels before items outer levels
        have hroots := levelRoots_addTree before.length (.list items.reverse) (outer :: levels)
        rw [growFrom, ← ih ((.list items.reverse :: outer) :: levels)]
        rw [levelRoots, levelRoots, buildFrom, List.reverse_reverse, hcomb]
        exact (congrArg (fun ids => buildFrom _ ids ts) hroots).symm
    | word w =>
      rw [buildFrom, growFrom]
      cases Atom.ofWord w with
      | error e => rfl
      | ok a =>
        have hroots := levelRoots_addTree before.length (.atom a) levels
        simp only [push_withLevels]
        rw [← ih (addTree (.atom a) levels), hroots, beneath, Nat.add_zero]
    | string contents =>
      have hroots := levelRoots_addTree before.length (.atom (.string contents)) levels
      rw [buildFrom, growFrom]
      simp only [push_withLevels]
      rw [← ih (addTree (.atom (.string contents)) levels), hroots, beneath, Nat.add_zero]

/-- Building an expression adds the trees that are completed behind the nodes
that are there. -/
theorem build_ofNodes (before : List Node) (ts : List Token) :
    (ofNodes before).build ts =
      ((grow ts).1.map (before.length + ·.beneath),
        ofNodes (before ++ forest before.length (grow ts).2)) := by
  have h := buildFrom_withLevels before [[]] ts
  simpa [withLevels, levelRoots, roots, completed, forest, build, grow] using h

theorem build_ofForest (trees : List SExpr) (ts : List Token) :
    (ofForest trees).build ts =
      ((grow ts).1.map (count trees + ·.beneath), ofForest (trees ++ (grow ts).2)) := by
  have h := build_ofNodes (forest 0 trees) ts
  rw [length_forest] at h
  rw [ofForest, h, ofForest, forest_append, Nat.zero_add]

end Arena

/-- A finished building leaves one tree, the expression itself. -/
theorem SExpr.growFrom_eq_ok {levels : List (List SExpr)} {ts : List Token} {t : SExpr}
    (h : (growFrom levels ts).1 = .ok t) : (growFrom levels ts).2 = [t] := by
  fun_induction growFrom levels ts <;> simp_all

/-! ## Reading -/

namespace Reader

open SExpr

/-- Reading a complete expression adds its trees behind those that are there. -/
theorem read_ofForest {reader : Reader} {p rest : List Token} (trees : List SExpr)
    (hopen : ∀ ts, reader.pending ≠ .closing :: ts)
    (hsplit : Token.splitExpression reader.pending = some (p, rest)) :
    reader.read (Arena.ofForest trees) =
      ⟨(grow p).1.map fun t => some (count trees + t.beneath), ⟨rest⟩,
        Arena.ofForest (trees ++ (grow p).2)⟩ := by
  rw [read_eq hopen, hsplit]
  dsimp only
  rw [Arena.build_ofForest]
  cases (grow p).1 <;> rfl

/-- Reading keeps the trees of the arena and adds new ones behind them. -/
theorem exists_read_arena_eq (reader : Reader) (trees : List SExpr) :
    ∃ new, (reader.read (Arena.ofForest trees)).arena = Arena.ofForest (trees ++ new) := by
  rcases reader.read_cases with hwaits | ⟨rest, hclosing⟩ | ⟨p, rest, hopen, hsplit⟩
  · exact ⟨[], by rw [hwaits, List.append_nil]⟩
  · exact ⟨[], by rw [read_closing hclosing, List.append_nil]⟩
  · exact ⟨(grow p).2, by rw [read_ofForest trees hopen hsplit]⟩

/-- The root of an expression that was read is the last node of its tree, which
stands behind the trees that were there. -/
theorem read_root_eq_some {reader : Reader} {trees : List SExpr} {root : NodeId}
    (h : (reader.read (Arena.ofForest trees)).root = .ok (some root)) :
    ∃ p rest t, (∀ ts, reader.pending ≠ .closing :: ts) ∧
      Token.splitExpression reader.pending = some (p, rest) ∧ (grow p).1 = .ok t ∧
      root = count trees + t.beneath ∧
      reader.read (Arena.ofForest trees) =
        ⟨.ok (some root), ⟨rest⟩, Arena.ofForest (trees ++ [t])⟩ := by
  rcases reader.read_cases with hwaits | ⟨rest, hclosing⟩ | ⟨p, rest, hopen, hsplit⟩
  · rw [hwaits] at h
    cases h
  · rw [read_closing hclosing] at h
    cases h
  · have hread := read_ofForest trees hopen hsplit
    cases hgrow : (grow p).1 with
    | error e =>
      rw [hread, hgrow] at h
      cases h
    | ok t =>
      have htrees : (grow p).2 = [t] := growFrom_eq_ok hgrow
      rw [hread, hgrow] at h
      simp only [Except.map, Except.ok.injEq, Option.some.injEq] at h
      refine ⟨p, rest, t, hopen, hsplit, hgrow, h.symm, ?_⟩
      rw [hread, hgrow, htrees, ← h]
      rfl

end Reader

/-- The arenas that reading leads to. -/
inductive Arena.Grown : Arena → Prop
  | empty : Grown {}
  | read {arena : Arena} (reader : Reader) (h : Grown arena) : Grown (reader.read arena).arena

/-- An arena that comes from reading holds trees one after the other. -/
theorem Arena.Grown.exists_eq_ofForest {arena : Arena} (h : arena.Grown) :
    ∃ trees, arena = ofForest trees := by
  induction h with
  | empty => exact ⟨[], rfl⟩
  | read reader _ ih =>
    obtain ⟨trees, rfl⟩ := ih
    obtain ⟨new, hnew⟩ := reader.exists_read_arena_eq trees
    exact ⟨trees ++ new, hnew⟩

/-- Reading makes an arena no smaller. -/
theorem Arena.Grown.size_le_read {arena : Arena} (h : arena.Grown) (reader : Reader) :
    arena.size ≤ (reader.read arena).arena.size := by
  obtain ⟨trees, rfl⟩ := h.exists_eq_ofForest
  obtain ⟨new, hnew⟩ := reader.exists_read_arena_eq trees
  rw [hnew, size_ofForest, size_ofForest, SExpr.count_append]
  omega

/-- The root of an expression that was read is in the arena. -/
theorem Arena.Grown.root_lt_size {arena : Arena} (h : arena.Grown) {reader : Reader}
    {root : Nat} (hroot : (reader.read arena).root = .ok (some root)) :
    root < (reader.read arena).arena.size := by
  obtain ⟨trees, rfl⟩ := h.exists_eq_ofForest
  obtain ⟨p, rest, t, -, -, -, rfl, hread⟩ := Reader.read_root_eq_some hroot
  rw [hread, size_ofForest, SExpr.count_append]
  simp only [SExpr.count]
  omega

end StackScheme
