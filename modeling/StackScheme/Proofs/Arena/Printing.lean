import StackScheme.Proofs.Arena.Forest

/-!
# Trees in an arena

The nodes of an arena stand for trees, and walking over the nodes is walking over
the tree that they stand for.

* `Arena.Holds` says that a node is the root of a tree: it has the shape of the
  tree, and its children are the roots of the items.  `holds_ofForest` finds the
  trees of a forest again.
* Walking.  `SExpr.pieces` are the stops of a walk over a tree, and
  `Arena.pieces_of_holds` says that these are the stops of the walk over the
  nodes.
* Writing.  `SExpr.tokens` are the tokens of a tree.  `SExpr.tokens_of_grow` says
  that these are the tokens that it was built from.
-/

namespace StackScheme

open SExpr

/-! ## Trees of nodes -/

theorem SExpr.length_le_count (ts : List SExpr) : ts.length ≤ count ts := by
  induction ts with
  | nil => exact Nat.zero_le _
  | cons t ts ih =>
    rw [List.length_cons, count]
    omega

namespace Arena

mutual

/-- The node at `id` is the root of the tree. -/
def Holds (arena : Arena) : SExpr → (id : NodeId) → Prop
  | .atom a, id => ∃ next, arena.node? id = some ⟨.atom a, next⟩
  | .list items, id =>
    (match items with
      | [] => ∃ next, arena.node? id = some ⟨.empty, next⟩
      | _ :: _ => ∃ operator next, arena.node? id = some ⟨.compound operator, next⟩) ∧
      HoldsAll arena items (arena.children id)

/-- The nodes are the roots of the trees, one for each. -/
def HoldsAll (arena : Arena) : List SExpr → (ids : List NodeId) → Prop
  | [], ids => ids = []
  | t :: ts, ids => ∃ id rest, ids = id :: rest ∧ Holds arena t id ∧ HoldsAll arena ts rest

end

/-- The items of a list follow each other. -/
theorem siblings_linked (before after : List Node) (lo : Nat) (hlo : before.length = lo)
    (ts : List SExpr) {fuel : Nat} (hfuel : ts.length ≤ fuel) :
    (ofNodes (before ++ linked lo ts ++ after)).siblings fuel (firstRoot? lo ts) =
      roots lo ts := by
  induction ts generalizing before lo fuel with
  | nil =>
    cases fuel <;> rfl
  | cons t ts ih =>
    cases fuel with
    | zero => simp at hfuel
    | succ fuel =>
      have hnodes : before ++ linked lo (t :: ts) ++ after =
          (before ++ innerNodes lo t) ++
            ⟨shape lo t, firstRoot? (lo + t.beneath + 1) ts⟩ ::
              (linked (lo + t.beneath + 1) ts ++ after) := by
        simp [linked]
      have hlen : (before ++ innerNodes lo t).length = lo + t.beneath := by
        rw [List.length_append, length_innerNodes, hlo]
      have hnode : (ofNodes (before ++ linked lo (t :: ts) ++ after)).next? (lo + t.beneath) =
          firstRoot? (lo + t.beneath + 1) ts := by
        rw [next?, node?_ofNodes, hnodes, ← hlen, List.getElem?_append_right (Nat.le_refl _),
          Nat.sub_self, List.getElem?_cons_zero]
        rfl
      have hrest := ih (before ++ innerNodes lo t ++
        [⟨shape lo t, firstRoot? (lo + t.beneath + 1) ts⟩]) (lo + t.beneath + 1)
        (by rw [List.length_append, hlen, List.length_singleton])
        (Nat.le_of_succ_le_succ hfuel)
      have hsame : before ++ innerNodes lo t ++
          [⟨shape lo t, firstRoot? (lo + t.beneath + 1) ts⟩] ++
            linked (lo + t.beneath + 1) ts ++ after = before ++ linked lo (t :: ts) ++ after := by
        rw [hnodes]
        simp
      rw [hsame] at hrest
      rw [firstRoot?, siblings, hnode, hrest, roots]

/-- The root of a tree stands behind the nodes below it. -/
theorem node?_root (before after : List Node) (next : Option NodeId) (lo : Nat)
    (hlo : before.length = lo) (t : SExpr) :
    (ofNodes (before ++ innerNodes lo t ++ ⟨shape lo t, next⟩ :: after)).node?
      (lo + t.beneath) = some ⟨shape lo t, next⟩ := by
  have hlen : (before ++ innerNodes lo t).length = lo + t.beneath := by
    rw [List.length_append, length_innerNodes, hlo]
  rw [node?_ofNodes, ← hlen, List.getElem?_append_right (Nat.le_refl _), Nat.sub_self,
    List.getElem?_cons_zero]

/-- The children of a list are the roots of its items. -/
theorem children_root (before after : List Node) (next : Option NodeId) (lo : Nat)
    (hlo : before.length = lo) (ts : List SExpr) :
    (ofNodes (before ++ innerNodes lo (.list ts) ++ ⟨shape lo (.list ts), next⟩ :: after)).children
      (lo + (SExpr.list ts).beneath) = roots lo ts := by
  have hroot := node?_root before after next lo hlo (.list ts)
  cases ts with
  | nil =>
    rw [children, hroot]
    rfl
  | cons t ts =>
    have hfuel : (t :: ts).length ≤ (before ++ innerNodes lo (.list (t :: ts)) ++
        ⟨shape lo (.list (t :: ts)), next⟩ :: after).length := by
      have hcount := length_le_count (t :: ts)
      have hinner := length_innerNodes lo (.list (t :: ts))
      rw [beneath] at hinner
      rw [List.length_append, List.length_append, hinner]
      omega
    have hsiblings := siblings_linked before (⟨shape lo (.list (t :: ts)), next⟩ :: after) lo
      hlo (t :: ts) hfuel
    rw [children, hroot, size_ofNodes]
    exact hsiblings

mutual

/-- A tree that lies in the arena is held by its last node. -/
theorem holds_innerNodes (before after : List Node) (next : Option NodeId) (lo : Nat)
    (hlo : before.length = lo) (t : SExpr) :
    (ofNodes (before ++ innerNodes lo t ++ ⟨shape lo t, next⟩ :: after)).Holds t
      (lo + t.beneath) := by
  have hroot := node?_root before after next lo hlo t
  cases t with
  | atom a =>
    rw [Holds]
    exact ⟨next, hroot⟩
  | list items =>
    have hitems := holdsAll_linked before (⟨shape lo (.list items), next⟩ :: after) lo hlo items
    have hchildren := children_root before after next lo hlo items
    cases items with
    | nil =>
      rw [Holds, hchildren]
      exact ⟨⟨next, hroot⟩, hitems⟩
    | cons t ts =>
      rw [Holds, hchildren]
      exact ⟨⟨_, next, hroot⟩, hitems⟩

theorem holdsAll_linked (before after : List Node) (lo : Nat) (hlo : before.length = lo)
    (ts : List SExpr) :
    (ofNodes (before ++ linked lo ts ++ after)).HoldsAll ts (roots lo ts) := by
  cases ts with
  | nil =>
    rw [HoldsAll]
    rfl
  | cons t ts =>
    have hnodes : before ++ linked lo (t :: ts) ++ after =
        before ++ innerNodes lo t ++
          ⟨shape lo t, firstRoot? (lo + t.beneath + 1) ts⟩ ::
            (linked (lo + t.beneath + 1) ts ++ after) := by
      simp [linked]
    have hsame : before ++ linked lo (t :: ts) ++ after =
        before ++ innerNodes lo t ++ [⟨shape lo t, firstRoot? (lo + t.beneath + 1) ts⟩] ++
          linked (lo + t.beneath + 1) ts ++ after := by
      simp [linked]
    rw [HoldsAll]
    refine ⟨lo + t.beneath, roots (lo + t.beneath + 1) ts, rfl, ?_, ?_⟩
    · rw [hnodes]
      exact holds_innerNodes before _ _ lo hlo t
    · rw [hsame]
      refine holdsAll_linked _ after (lo + t.beneath + 1) ?_ ts
      rw [List.length_append, List.length_append, length_innerNodes, hlo, List.length_singleton]

end

/-- The nodes of a tree between other trees. -/
theorem forest_append_cons (before after : List SExpr) (t : SExpr) :
    forest 0 (before ++ t :: after) =
      forest 0 before ++ innerNodes (count before) t ++
        ⟨shape (count before) t, none⟩ :: forest (count before + t.beneath + 1) after := by
  rw [forest_append, Nat.zero_add, forest, List.append_assoc]

/-- The trees of a forest are held where they lie. -/
theorem holds_ofForest (before after : List SExpr) (t : SExpr) :
    (ofForest (before ++ t :: after)).Holds t (count before + t.beneath) := by
  rw [ofForest, forest_append_cons]
  exact holds_innerNodes _ _ none (count before) (length_forest 0 before) t

end Arena

/-! ## Walking -/

namespace SExpr

open Arena

mutual

/-- The stops of a walk over a tree. -/
def pieces : SExpr → List Piece
  | atom a => [.atom a]
  | list items =>
    match items with
    | [] => [.empty]
    | _ :: rest => .enter rest.length :: (piecesAll items ++ [.leave])

/-- The stops of a walk over trees one after the other. -/
def piecesAll : List SExpr → List Piece
  | [] => []
  | t :: ts => pieces t ++ piecesAll ts

end

mutual

/-- A walk makes at most two stops for each node. -/
theorem length_pieces_le (t : SExpr) : (pieces t).length ≤ 2 * (t.beneath + 1) := by
  cases t with
  | atom a =>
    rw [pieces, List.length_singleton]
    omega
  | list items =>
    cases items with
    | nil =>
      rw [pieces, List.length_singleton]
      omega
    | cons t ts =>
      have hall := length_piecesAll_le (t :: ts)
      rw [pieces, beneath, List.length_cons, List.length_append, List.length_singleton]
      omega

theorem length_piecesAll_le (ts : List SExpr) : (piecesAll ts).length ≤ 2 * count ts := by
  cases ts with
  | nil => simp [piecesAll]
  | cons t ts =>
    have ht := length_pieces_le t
    have hts := length_piecesAll_le ts
    rw [piecesAll, count, List.length_append]
    omega

end

end SExpr

namespace Arena

theorem length_of_holdsAll {arena : Arena} {ts : List SExpr} {ids : List NodeId}
    (h : arena.HoldsAll ts ids) : ids.length = ts.length := by
  induction ts generalizing ids with
  | nil =>
    rw [HoldsAll] at h
    rw [h]
    rfl
  | cons t ts ih =>
    rw [HoldsAll] at h
    obtain ⟨id, rest, rfl, -, hrest⟩ := h
    rw [List.length_cons, List.length_cons, ih hrest]

mutual

/-- Walking over a node makes the stops of its tree. -/
theorem walk_of_holds {arena : Arena} (t : SExpr) {id : NodeId} (h : arena.Holds t id)
    (fuel : Nat) (work : List (Option NodeId)) (done : List Piece) :
    arena.walk (t.pieces.length + fuel) (some id :: work) done =
      arena.walk fuel work (t.pieces.reverse ++ done) := by
  cases t with
  | atom a =>
    rw [Holds] at h
    obtain ⟨next, hnode⟩ := h
    rw [SExpr.pieces, List.length_singleton, Nat.add_comm, walk, hnode]
    rfl
  | list items =>
    cases items with
    | nil =>
      rw [Holds] at h
      obtain ⟨⟨next, hnode⟩, -⟩ := h
      rw [SExpr.pieces, List.length_singleton, Nat.add_comm, walk, hnode]
      rfl
    | cons t ts =>
      rw [Holds] at h
      obtain ⟨⟨operator, next, hnode⟩, hall⟩ := h
      have hlen := length_of_holdsAll hall
      have hfuel : (SExpr.list (t :: ts)).pieces.length + fuel =
          (piecesAll (t :: ts)).length + (fuel + 1) + 1 := by
        rw [SExpr.pieces, List.length_cons, List.length_append, List.length_singleton]
        omega
      have hitems := walk_of_holdsAll (t :: ts) hall (fuel + 1) (none :: work)
        (.enter ts.length :: done)
      rw [hfuel, walk, hnode]
      dsimp only
      rw [hlen, List.length_cons, Nat.add_sub_cancel, hitems, walk]
      simp [SExpr.pieces]

theorem walk_of_holdsAll {arena : Arena} (ts : List SExpr) {ids : List NodeId}
    (h : arena.HoldsAll ts ids) (fuel : Nat) (work : List (Option NodeId)) (done : List Piece) :
    arena.walk ((piecesAll ts).length + fuel) (ids.map some ++ work) done =
      arena.walk fuel work ((piecesAll ts).reverse ++ done) := by
  cases ts with
  | nil =>
    rw [HoldsAll] at h
    rw [h, piecesAll, List.length_nil, Nat.zero_add]
    rfl
  | cons t ts =>
    rw [HoldsAll] at h
    obtain ⟨id, rest, rfl, ht, hts⟩ := h
    have hfirst := walk_of_holds t ht ((piecesAll ts).length + fuel) (rest.map some ++ work) done
    have hrest := walk_of_holdsAll ts hts fuel work (t.pieces.reverse ++ done)
    rw [piecesAll, List.length_append, Nat.add_assoc, List.map_cons, List.cons_append, hfirst,
      hrest, List.reverse_append, List.append_assoc]

end

theorem walk_nil (arena : Arena) (fuel : Nat) (done : List Piece) :
    arena.walk fuel [] done = done.reverse := by
  cases fuel <;> rfl

/-- The stops of a walk over a node are those of its tree, if the arena has room
for the tree. -/
theorem pieces_of_holds {arena : Arena} {t : SExpr} {id : NodeId} (h : arena.Holds t id)
    (hsize : t.beneath < arena.size) : arena.pieces id = t.pieces := by
  have hlen := length_pieces_le t
  obtain ⟨fuel, hfuel⟩ : ∃ fuel, 2 * arena.size + 1 = t.pieces.length + fuel :=
    ⟨2 * arena.size + 1 - t.pieces.length, by omega⟩
  rw [Arena.pieces, hfuel, walk_of_holds t h, walk_nil, List.append_nil, List.reverse_reverse]

end Arena

/-! ## Writing -/

namespace SExpr

mutual

/-- The tokens of a tree. -/
def tokens : SExpr → List Token
  | atom a => [a.token]
  | list items => .opening :: (tokensAll items ++ [.closing])

/-- The tokens of trees one after the other. -/
def tokensAll : List SExpr → List Token
  | [] => []
  | t :: ts => tokens t ++ tokensAll ts

end

theorem tokensAll_append (ts us : List SExpr) :
    tokensAll (ts ++ us) = tokensAll ts ++ tokensAll us := by
  induction ts with
  | nil => rfl
  | cons t ts ih => rw [List.cons_append, tokensAll, tokensAll, ih, List.append_assoc]

mutual

theorem flatMap_pieces (t : SExpr) : t.pieces.flatMap Arena.Piece.tokens = t.tokens := by
  cases t with
  | atom a => simp [pieces, tokens, Arena.Piece.tokens]
  | list items =>
    cases items with
    | nil => rfl
    | cons t ts =>
      have hall := flatMap_piecesAll (t :: ts)
      rw [pieces, tokens, List.flatMap_cons, List.flatMap_append, hall]
      rfl

theorem flatMap_piecesAll (ts : List SExpr) :
    (piecesAll ts).flatMap Arena.Piece.tokens = tokensAll ts := by
  cases ts with
  | nil => rfl
  | cons t ts =>
    rw [piecesAll, tokensAll, List.flatMap_append, flatMap_pieces t, flatMap_piecesAll ts]

end

/-- The tokens that lists which are still open were built from. -/
def openTokens : List (List SExpr) → List Token
  | [] => []
  | [items] => tokensAll items.reverse
  | items :: outer :: levels => openTokens (outer :: levels) ++ .opening :: tokensAll items.reverse

theorem openTokens_addTree (t : SExpr) (levels : List (List SExpr)) :
    openTokens (addTree t levels) = openTokens levels ++ t.tokens := by
  have hitems : ∀ items : List SExpr,
      tokensAll (t :: items).reverse = tokensAll items.reverse ++ t.tokens := by
    intro items
    rw [List.reverse_cons, tokensAll_append, tokensAll, tokensAll, List.append_nil]
  match levels with
  | [] => simp [addTree, openTokens, tokensAll]
  | [items] => rw [addTree, openTokens, openTokens, hitems]
  | items :: outer :: levels =>
    rw [addTree, openTokens, openTokens, hitems, List.append_assoc, List.cons_append]

theorem addTree_ne_nil (t : SExpr) (levels : List (List SExpr)) : addTree t levels ≠ [] := by
  cases levels <;> exact List.cons_ne_nil _ _

/-- A numeral is accepted in its printed form alone. -/
theorem token_of_canonical {w : String} {a b : Atom} (ha : a.token = .word a.text)
    (h : Atom.canonical w a = .ok b) : b.token = .word w := by
  rw [Atom.canonical] at h
  split at h
  · rename_i htext
    cases h
    rw [ha, htext]
  · cases h

/-- A word is the token of the atom that it is read as. -/
theorem token_of_ofWord {w : String} {a : Atom} (h : Atom.ofWord w = .ok a) :
    a.token = .word w := by
  rw [Atom.ofWord] at h
  cases hnumeral : Atom.numeral? w with
  | some result =>
    rw [hnumeral, Option.getD_some] at h
    rw [h, Atom.numeral?] at hnumeral
    split at hnumeral
    · split at hnumeral
      · split at hnumeral
        · exact token_of_canonical rfl (Option.some.inj hnumeral)
        · cases hnumeral
      · obtain ⟨x, -, hx⟩ := Option.map_eq_some_iff.1 hnumeral
        exact token_of_canonical rfl hx
    · cases hnumeral
  | none =>
    rw [hnumeral, Option.getD_none, Atom.nonNumeral] at h
    split at h
    · rename_i hw
      cases h
      rw [hw]
      rfl
    split at h
    · rename_i hw
      cases h
      rw [hw]
      rfl
    split at h
    · cases h
      rfl
    · cases h

/-- Building keeps the tokens. -/
theorem tokens_of_growFrom {levels : List (List SExpr)} {ts : List Token} {t : SExpr}
    (h : (growFrom levels ts).1 = .ok t) (hlevels : levels ≠ []) :
    t.tokens = openTokens levels ++ ts := by
  -- The cases are those of `growFrom`: the tokens move from the input to the levels.
  induction ts generalizing levels with
  | nil =>
    rcases levels with _ | ⟨_ | ⟨u, _ | ⟨v, items⟩⟩, _ | ⟨outer, levels⟩⟩
    case cons.cons.nil.nil =>
      cases h
      simp [openTokens, tokensAll]
    all_goals simp [growFrom] at h
  | cons token ts ih =>
    cases token with
    | opening =>
      rw [growFrom] at h
      have htokens := ih h (List.cons_ne_nil _ _)
      cases levels with
      | nil => exact absurd rfl hlevels
      | cons items outer =>
        rw [openTokens] at htokens
        simpa [tokensAll] using htokens
    | closing =>
      rcases levels with _ | ⟨items, _ | ⟨outer, levels⟩⟩
      · cases h
      · cases h
      · rw [growFrom] at h
        have htokens := ih h (List.cons_ne_nil _ _)
        have hadd := openTokens_addTree (.list items.reverse) (outer :: levels)
        rw [addTree] at hadd
        rw [htokens, hadd, tokens, openTokens]
        simp
    | word w =>
      rw [growFrom] at h
      cases hw : Atom.ofWord w with
      | error e =>
        rw [hw] at h
        cases h
      | ok a =>
        rw [hw] at h
        rw [ih h (addTree_ne_nil _ levels), openTokens_addTree, tokens, token_of_ofWord hw,
          List.append_assoc, List.singleton_append]
    | string contents =>
      rw [growFrom] at h
      rw [ih h (addTree_ne_nil _ levels), openTokens_addTree, tokens, List.append_assoc,
        List.singleton_append]
      rfl

/-- The tokens of a tree are those that it was built from. -/
theorem tokens_of_grow {ts : List Token} {t : SExpr} (h : (grow ts).1 = .ok t) :
    t.tokens = ts :=
  tokens_of_growFrom h (List.cons_ne_nil _ _)

end SExpr

/-- The text of a node is the text of its tree. -/
theorem Arena.render_of_holds {arena : Arena} {t : SExpr} {id : NodeId} (h : arena.Holds t id)
    (hsize : t.beneath < arena.size) : arena.render id = Token.unlex t.tokens := by
  rw [Arena.render, Arena.tokens, pieces_of_holds h hsize, flatMap_pieces]

end StackScheme
