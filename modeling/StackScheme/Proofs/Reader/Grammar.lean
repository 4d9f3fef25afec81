import StackScheme.Proofs.Arena.Printing

/-!
# The grammar of expressions

An expression is a word, a string, or a list of expressions in parentheses.  The
reader finds an expression by counting parentheses and builds it with a stack of
open lists; here both are compared with the grammar.

* Derivations.  `Derives` is the grammar, and a `Phrase` is the tree of a
  derivation.  `Derives.splitExpression` says that counting finds the end of what
  the grammar derives, so that a list of tokens starts with at most one
  expression, which has one derivation.  `exists_derives_of_splitExpression` says
  that counting finds nothing else.
* Trees.  `Phrase.tree` reads the words of a derivation as atoms.
  `Derives.growFrom_eq` says that this is the tree that is built, and
  `Derives.findSome?_rejection?` that it fails at the first word that is no atom.
* Postorder.  `SExpr.postorder` lists the parts of a tree, `exists_nodesAround` says
  that each part lies in one piece, and `Arena.Gains` is an arena that got one node
  for each of them, in this order.
* Scanning.  `splitAtBalance_of_none` is the way of the count over tokens that do
  not end an expression.
* `read_iff_derives` is the result for `Reader.read` and `parse`.
-/

namespace StackScheme

open SExpr

/-! ## Derivations -/

/-- The tree of a derivation. -/
inductive Phrase where
  | word (text : String)
  | string (contents : String)
  | list (items : List Phrase)

mutual

/-- The grammar: an expression is a word, a string, or a list in parentheses. -/
inductive Derives : Phrase → List Token → Prop
  | word (text : String) : Derives (.word text) [.word text]
  | string (contents : String) : Derives (.string contents) [.string contents]
  | list {items : List Phrase} {ts : List Token} (h : DerivesAll items ts) :
    Derives (.list items) (.opening :: (ts ++ [.closing]))

/-- Any number of expressions one after the other. -/
inductive DerivesAll : List Phrase → List Token → Prop
  | nil : DerivesAll [] []
  | cons {t : Phrase} {items : List Phrase} {ts us : List Token} (h : Derives t ts)
    (hs : DerivesAll items us) : DerivesAll (t :: items) (ts ++ us)

end

/-- An expression has a first token, which closes nothing. -/
theorem Derives.exists_cons {t : Phrase} {p : List Token} (h : Derives t p) :
    ∃ token ts, p = token :: ts ∧ token ≠ .closing := by
  cases h with
  | word text => exact ⟨_, _, rfl, by simp⟩
  | string contents => exact ⟨_, _, rfl, by simp⟩
  | list _ => exact ⟨_, _, rfl, by simp⟩

mutual

/-- Inside of a list, the count goes over an expression and is the same behind
it. -/
theorem Derives.splitAtBalance_append {t : Phrase} {p : List Token} (h : Derives t p)
    (depth : Nat) (taken rest : List Token) :
    Token.splitAtBalance (depth + 1) taken (p ++ rest) =
      Token.splitAtBalance (depth + 1) (p.reverse ++ taken) rest := by
  cases h with
  | word text => simp [Token.splitAtBalance, Token.nest]
  | string contents => simp [Token.splitAtBalance, Token.nest]
  | @list items ts hitems =>
    have hinner := hitems.splitAtBalance_append (depth + 1) (.opening :: taken) (.closing :: rest)
    simp [Token.splitAtBalance, Token.nest, hinner]

theorem DerivesAll.splitAtBalance_append {items : List Phrase} {p : List Token}
    (h : DerivesAll items p) (depth : Nat) (taken rest : List Token) :
    Token.splitAtBalance (depth + 1) taken (p ++ rest) =
      Token.splitAtBalance (depth + 1) (p.reverse ++ taken) rest := by
  cases h with
  | nil => rfl
  | cons hfirst hrest =>
    rw [List.append_assoc, hfirst.splitAtBalance_append, hrest.splitAtBalance_append]
    simp

end

/-- Counting finds the end of an expression. -/
theorem Derives.splitExpression {t : Phrase} {p : List Token} (h : Derives t p)
    (rest : List Token) : Token.splitExpression (p ++ rest) = some (p, rest) := by
  cases h with
  | word text => rfl
  | string contents => rfl
  | @list items ts hitems =>
    have hinner := hitems.splitAtBalance_append 0 [.opening] (.closing :: rest)
    have hclose : Token.splitAtBalance 1 (ts.reverse ++ [.opening]) (.closing :: rest) =
        some (.opening :: (ts ++ [.closing]), rest) := by
      simp [Token.splitAtBalance, Token.nest]
    rw [Nat.zero_add, hclose] at hinner
    rw [List.cons_append, List.append_assoc, List.singleton_append]
    exact hinner

/-- A list of tokens starts with at most one expression. -/
theorem Derives.append_inj {t t' : Phrase} {p p' rest rest' : List Token} (h : Derives t p)
    (h' : Derives t' p') (heq : p ++ rest = p' ++ rest') : p = p' ∧ rest = rest' := by
  have hsplit := h.splitExpression rest
  rw [heq, h'.splitExpression rest', Option.some.injEq, Prod.mk.injEq] at hsplit
  exact ⟨hsplit.1.symm, hsplit.2.symm⟩

mutual

/-- An expression has one derivation. -/
theorem Derives.unique {t t' : Phrase} {p p' : List Token} (h : Derives t p)
    (h' : Derives t' p') (heq : p = p') : t = t' := by
  cases h with
  | word text =>
    cases h' with
    | word text' => simpa using heq
    | string _ => simp at heq
    | list _ => simp at heq
  | string contents =>
    cases h' with
    | word _ => simp at heq
    | string contents' => simpa using heq
    | list _ => simp at heq
  | list hitems =>
    cases h' with
    | word _ => simp at heq
    | string _ => simp at heq
    | list hitems' => rw [hitems.unique hitems' [] [] (List.cons.inj heq).2]

/-- Expressions up to a closing parenthesis have one derivation. -/
theorem DerivesAll.unique {items items' : List Phrase} {p p' : List Token}
    (h : DerivesAll items p) (h' : DerivesAll items' p') (rest rest' : List Token)
    (heq : p ++ .closing :: rest = p' ++ .closing :: rest') : items = items' := by
  cases h with
  | nil =>
    cases h' with
    | nil => rfl
    | cons hfirst' _ =>
      obtain ⟨token, ts, rfl, hne⟩ := hfirst'.exists_cons
      exact absurd (List.cons.inj heq).1.symm hne
  | cons hfirst hrest =>
    cases h' with
    | nil =>
      obtain ⟨token, ts, rfl, hne⟩ := hfirst.exists_cons
      exact absurd (List.cons.inj heq).1 hne
    | cons hfirst' hrest' =>
      rw [List.append_assoc, List.append_assoc] at heq
      obtain ⟨hp, htail⟩ := hfirst.append_inj hfirst' heq
      rw [hfirst.unique hfirst' hp, hrest.unique hrest' rest rest' htail]

end

/-- Tokens that close so many lists which are open, each after some more
expressions. -/
inductive Closes : (depth : Nat) → List Token → Prop
  | nil : Closes 0 []
  | cons {depth : Nat} {items : List Phrase} {ts us : List Token} (h : DerivesAll items ts)
    (hs : Closes depth us) : Closes (depth + 1) (ts ++ .closing :: us)

/-- An expression may come before the others of the innermost open list. -/
theorem Closes.append {depth : Nat} {t : Phrase} {p q : List Token} (h : Derives t p)
    (hq : Closes (depth + 1) q) : Closes (depth + 1) (p ++ q) := by
  cases hq with
  | cons hitems hrest =>
    rw [← List.append_assoc]
    exact .cons (.cons h hitems) hrest

/-- The count ends with a list of tokens that closes all lists which are open. -/
theorem closes_of_splitAtBalance {n : Nat} {taken ts p rest : List Token}
    (h : Token.splitAtBalance (n + 1) taken ts = some (p, rest)) :
    ∃ q, p = taken.reverse ++ q ∧ Closes (n + 1) q := by
  induction ts generalizing n taken with
  | nil => cases h
  | cons token ts ih =>
    cases token with
    | opening =>
      obtain ⟨q, hp, hq⟩ := ih (n := n + 1) h
      cases hq with
      | @cons _ items us vs hitems hrest =>
        refine ⟨.opening :: (us ++ .closing :: vs), by simp [hp], ?_⟩
        have hlist := Closes.append (.list hitems) hrest
        rwa [List.cons_append, List.append_assoc, List.singleton_append] at hlist
    | closing =>
      cases n with
      | zero =>
        obtain ⟨rfl, -⟩ : p = (.closing :: taken).reverse ∧ rest = ts := by
          simpa [Token.splitAtBalance, Token.nest, eq_comm] using h
        exact ⟨[.closing], by simp, .cons .nil .nil⟩
      | succ n =>
        obtain ⟨q, hp, hq⟩ := ih (n := n) h
        exact ⟨.closing :: q, by simp [hp], .cons .nil hq⟩
    | word text =>
      obtain ⟨q, hp, hq⟩ := ih h
      exact ⟨.word text :: q, by simp [hp], Closes.append (.word text) hq⟩
    | string contents =>
      obtain ⟨q, hp, hq⟩ := ih h
      exact ⟨.string contents :: q, by simp [hp], Closes.append (.string contents) hq⟩

/-- Counting finds expressions alone, if the first token closes nothing. -/
theorem exists_derives_of_splitExpression {ts p rest : List Token}
    (hopen : ts.head? ≠ some .closing) (h : Token.splitExpression ts = some (p, rest)) :
    ∃ t, Derives t p := by
  cases ts with
  | nil => cases h
  | cons token ts =>
    cases token with
    | closing => exact absurd rfl hopen
    | opening =>
      obtain ⟨q, rfl, hq⟩ := closes_of_splitAtBalance (n := 0) h
      cases hq with
      | cons hitems hrest =>
        cases hrest
        exact ⟨_, .list hitems⟩
    | word text =>
      obtain ⟨rfl, -⟩ : [.word text] = p ∧ ts = rest := by
        simpa [Token.splitExpression, Token.splitAtBalance, Token.nest] using h
      exact ⟨_, .word text⟩
    | string contents =>
      obtain ⟨rfl, -⟩ : [.string contents] = p ∧ ts = rest := by
        simpa [Token.splitExpression, Token.splitAtBalance, Token.nest] using h
      exact ⟨_, .string contents⟩

/-! ## Trees -/

namespace Phrase

mutual

/-- The tree of a derivation with its words read as atoms. -/
def tree : Phrase → Except SyntaxError SExpr
  | word text => (Atom.ofWord text).map .atom
  | string contents => .ok (.atom (.string contents))
  | list items => (trees items).map .list

/-- The trees of derivations one after the other, from left to right. -/
def trees : List Phrase → Except SyntaxError (List SExpr)
  | [] => .ok []
  | t :: ts =>
    match tree t with
    | .error e => .error e
    | .ok u => (trees ts).map (u :: ·)

end

end Phrase

/-- The reason why a token is refused when it is built.  Words alone are refused. -/
def Token.rejection? : Token → Option SyntaxError
  | word text =>
    match Atom.ofWord text with
    | .error e => some e
    | .ok _ => none
  | _ => none

theorem Token.exists_ofWord_of_rejection? {token : Token} {e : SyntaxError}
    (h : token.rejection? = some e) : ∃ text, Atom.ofWord text = .error e := by
  cases token with
  | word text =>
    rw [Token.rejection?] at h
    split at h
    · rename_i e' hword
      exact ⟨text, hword.trans (by rw [Option.some.inj h])⟩
    · cases h
  | _ => cases h

/-- No word is an unexpected or unbalanced parenthesis. -/
theorem Atom.ofWord_ne_error (text : String) :
    Atom.ofWord text ≠ .error .unexpectedClose ∧ Atom.ofWord text ≠ .error .unbalanced := by
  have hcanonical : ∀ a, Atom.canonical text a ≠ .error .unexpectedClose ∧
      Atom.canonical text a ≠ .error .unbalanced := by
    intro a
    unfold Atom.canonical
    split <;> simp
  unfold Atom.ofWord Atom.numeral? Atom.nonNumeral
  split
  · split
    · split
      · exact hcanonical _
      · simp
    · cases Numeral.decimal? text.toList with
      | some x => exact hcanonical _
      | none => grind
  · grind

mutual

/-- The first word that is refused is the reason why a derivation has no tree. -/
theorem Derives.findSome?_rejection? {t : Phrase} {p : List Token} (h : Derives t p) :
    p.findSome? Token.rejection? =
      match t.tree with
      | .error e => some e
      | .ok _ => none := by
  cases h with
  | word text =>
    rw [Phrase.tree]
    cases hw : Atom.ofWord text <;> simp [Token.rejection?, hw, Except.map]
  | string contents =>
    rw [Phrase.tree]
    rfl
  | @list items ts hitems =>
    have hinner := hitems.findSome?_rejection?
    have houter : (Token.opening :: (ts ++ [.closing])).findSome? Token.rejection? =
        ts.findSome? Token.rejection? := by
      show (ts ++ [Token.closing]).findSome? Token.rejection? = _
      rw [List.findSome?_append]
      cases ts.findSome? Token.rejection? <;> rfl
    rw [Phrase.tree, houter, hinner]
    cases Phrase.trees items <;> rfl

theorem DerivesAll.findSome?_rejection? {items : List Phrase} {p : List Token}
    (h : DerivesAll items p) :
    p.findSome? Token.rejection? =
      match Phrase.trees items with
      | .error e => some e
      | .ok _ => none := by
  cases h with
  | nil =>
    rw [Phrase.trees]
    rfl
  | @cons t items ts us hfirst hrest =>
    have hhead := hfirst.findSome?_rejection?
    have htail := hrest.findSome?_rejection?
    rw [Phrase.trees, List.findSome?_append, hhead, htail]
    cases t.tree with
    | error e => rfl
    | ok u => cases Phrase.trees items <;> rfl

end

mutual

/-- Building goes over an expression and adds its tree to the innermost open list,
or ends with the reason why it has no tree. -/
theorem Derives.growFrom_eq {t : Phrase} {p : List Token} (h : Derives t p)
    {levels : List (List SExpr)} (hlevels : levels ≠ []) (rest : List Token) :
    match t.tree with
    | .ok u => growFrom levels (p ++ rest) = growFrom (addTree u levels) rest
    | .error e => (growFrom levels (p ++ rest)).1 = .error e := by
  cases h with
  | word text =>
    rw [Phrase.tree]
    cases hw : Atom.ofWord text <;> simp [Except.map, growFrom, hw]
  | string contents =>
    rw [Phrase.tree]
    rfl
  | @list items ts hitems =>
    obtain ⟨outer, levels, rfl⟩ := List.exists_cons_of_ne_nil hlevels
    have hinner := hitems.growFrom_eq [] (outer :: levels) (.closing :: rest)
    have htokens :
        .opening :: (ts ++ [.closing]) ++ rest = .opening :: (ts ++ .closing :: rest) := by
      simp
    rw [Phrase.tree, htokens, growFrom]
    cases htrees : Phrase.trees items with
    | error e =>
      rw [htrees] at hinner
      exact hinner
    | ok us =>
      rw [htrees] at hinner
      simp only [Except.map]
      rw [hinner, growFrom, List.append_nil, List.reverse_reverse]
      rfl

theorem DerivesAll.growFrom_eq {items : List Phrase} {p : List Token} (h : DerivesAll items p)
    (done : List SExpr) (levels : List (List SExpr)) (rest : List Token) :
    match Phrase.trees items with
    | .ok us =>
      growFrom (done :: levels) (p ++ rest) = growFrom ((us.reverse ++ done) :: levels) rest
    | .error e => (growFrom (done :: levels) (p ++ rest)).1 = .error e := by
  cases h with
  | nil =>
    rw [Phrase.trees]
    rfl
  | @cons t items ts us hfirst hrest =>
    have hhead := hfirst.growFrom_eq (List.cons_ne_nil done levels) (us ++ rest)
    rw [Phrase.trees, List.append_assoc]
    cases htree : t.tree with
    | error e =>
      rw [htree] at hhead
      exact hhead
    | ok u =>
      rw [htree] at hhead
      dsimp only at hhead ⊢
      rw [hhead, addTree]
      have htail := hrest.growFrom_eq (u :: done) levels rest
      cases htrees : Phrase.trees items with
      | error e =>
        rw [htrees] at htail
        exact htail
      | ok vs =>
        rw [htrees] at htail
        simpa [Except.map] using htail

end

/-- The tree that is built from an expression is the tree of its derivation. -/
theorem Derives.grow_eq_ok {t : Phrase} {p : List Token} {u : SExpr} (h : Derives t p)
    (htree : t.tree = .ok u) : grow p = (.ok u, [u]) := by
  have hgrow := h.growFrom_eq (List.cons_ne_nil [] []) []
  rw [htree, List.append_nil] at hgrow
  exact hgrow

theorem Derives.grow_eq_error {t : Phrase} {p : List Token} {e : SyntaxError} (h : Derives t p)
    (htree : t.tree = .error e) : (grow p).1 = .error e := by
  have hgrow := h.growFrom_eq (List.cons_ne_nil [] []) []
  rw [htree, List.append_nil] at hgrow
  exact hgrow

/-! ## Postorder -/

namespace SExpr

mutual

/-- A tree and all trees in it, each list after its items. -/
def postorder : SExpr → List SExpr
  | atom a => [atom a]
  | list items => postorderAll items ++ [list items]

/-- The trees in a list of trees. -/
def postorderAll : List SExpr → List SExpr
  | [] => []
  | t :: ts => postorder t ++ postorderAll ts

end

mutual

theorem length_postorder (t : SExpr) : t.postorder.length = t.beneath + 1 := by
  cases t with
  | atom a => rfl
  | list items =>
    rw [postorder, beneath, List.length_append, length_postorderAll items, List.length_singleton]

theorem length_postorderAll (ts : List SExpr) : (postorderAll ts).length = count ts := by
  cases ts with
  | nil => rfl
  | cons t ts =>
    rw [postorderAll, count, List.length_append, length_postorder t, length_postorderAll ts]

end

/-! ### Places -/

/-- The nodes with a tree at `lo`, whose root points to `next`. -/
def nodesAround (before after : List Node) (next : Option NodeId) (lo : Nat) (t : SExpr) :
    List Node :=
  before ++ innerNodes lo t ++ ⟨shape lo t, next⟩ :: after

mutual

/-- The trees in a tree lie in one piece each, with their roots in postorder. -/
theorem exists_nodesAround (before after : List Node) (next : Option NodeId) (lo : Nat)
    (hlo : before.length = lo) (t : SExpr) {i : Nat} {u : SExpr} (h : t.postorder[i]? = some u) :
    ∃ before' after' next' lo', before'.length = lo' ∧ lo' + u.beneath = lo + i ∧
      nodesAround before after next lo t = nodesAround before' after' next' lo' u := by
  cases t with
  | atom a =>
    obtain ⟨rfl, rfl⟩ : 0 = i ∧ SExpr.atom a = u := by
      simpa [postorder, List.getElem?_singleton, eq_comm] using h
    exact ⟨before, after, next, lo, hlo, rfl, rfl⟩
  | list items =>
    rw [postorder] at h
    by_cases hi : i < (postorderAll items).length
    · rw [List.getElem?_append_left hi] at h
      exact exists_nodesAround_linked before (⟨shape lo (.list items), next⟩ :: after) lo hlo
        items h
    · rw [List.getElem?_append_right (by omega), List.getElem?_singleton] at h
      simp only [Option.ite_none_right_eq_some, Option.some.injEq] at h
      obtain ⟨hzero, rfl⟩ := h
      have hlast : i = (SExpr.list items).beneath := by
        rw [beneath, ← length_postorderAll]
        omega
      exact ⟨before, after, next, lo, hlo, by rw [hlast], rfl⟩

theorem exists_nodesAround_linked (before after : List Node) (lo : Nat)
    (hlo : before.length = lo) (ts : List SExpr) {i : Nat} {u : SExpr}
    (h : (postorderAll ts)[i]? = some u) :
    ∃ before' after' next' lo', before'.length = lo' ∧ lo' + u.beneath = lo + i ∧
      before ++ linked lo ts ++ after = nodesAround before' after' next' lo' u := by
  cases ts with
  | nil => cases h
  | cons t ts =>
    rw [postorderAll] at h
    have hlen := length_postorder t
    by_cases hi : i < t.postorder.length
    · rw [List.getElem?_append_left hi] at h
      have hfirst := exists_nodesAround before (linked (lo + t.beneath + 1) ts ++ after)
        (firstRoot? (lo + t.beneath + 1) ts) lo hlo t h
      simpa [linked, nodesAround] using hfirst
    · rw [List.getElem?_append_right (by omega)] at h
      have hrest := exists_nodesAround_linked
        (before ++ innerNodes lo t ++ [⟨shape lo t, firstRoot? (lo + t.beneath + 1) ts⟩]) after
        (lo + t.beneath + 1)
        (by simp only [List.length_append, length_innerNodes, List.length_singleton, hlo]) ts h
      have hplace : lo + t.beneath + 1 + (i - t.postorder.length) = lo + i := by omega
      rw [hplace] at hrest
      simpa [linked] using hrest

end

/-- Each place of a forest is the root of a tree. -/
theorem exists_nodesAround_forest (before : List Node) (lo : Nat) (hlo : before.length = lo)
    (ts : List SExpr) {i : Nat} (h : i < count ts) :
    ∃ before' after' next' lo' u, before'.length = lo' ∧ lo' + u.beneath = lo + i ∧
      before ++ forest lo ts = nodesAround before' after' next' lo' u := by
  induction ts generalizing before lo i with
  | nil => exact absurd h (Nat.not_lt_zero _)
  | cons t ts ih =>
    rw [count] at h
    have hlen := length_postorder t
    by_cases hi : i < t.postorder.length
    · have hfirst := exists_nodesAround before (forest (lo + t.beneath + 1) ts) none lo hlo t
        (List.getElem?_eq_getElem hi)
      obtain ⟨before', after', next', lo', hlo', hplace, hnodes⟩ := hfirst
      refine ⟨before', after', next', lo', _, hlo', hplace, ?_⟩
      rw [← hnodes, nodesAround, forest, List.append_assoc]
    · obtain ⟨before', after', next', lo', u, hlo', hplace, hnodes⟩ :=
        ih (before ++ innerNodes lo t ++ [⟨shape lo t, none⟩]) (lo + t.beneath + 1)
          (by simp only [List.length_append, length_innerNodes, List.length_singleton, hlo])
          (i := i - t.postorder.length) (by omega)
      refine ⟨before', after', next', lo', u, hlo', by omega, ?_⟩
      rw [← hnodes, forest]
      simp only [List.append_assoc, List.singleton_append]

end SExpr

namespace Arena

/-- Each node of an arena that comes from reading is the root of a tree, which lies in one
piece. -/
theorem exists_ofForest_eq_nodesAround {trees : List SExpr} {id : Nat}
    (h : id < (ofForest trees).size) :
    ∃ before after next lo t, before.length = lo ∧ id = lo + t.beneath ∧
      ofForest trees = ofNodes (nodesAround before after next lo t) := by
  rw [size_ofForest] at h
  obtain ⟨before, after, next, lo, t, hlo, hplace, hnodes⟩ :=
    exists_nodesAround_forest [] 0 rfl trees h
  rw [List.nil_append] at hnodes
  exact ⟨before, after, next, lo, t, hlo, by omega, congrArg ofNodes hnodes⟩

/-- The nodes of a tree are the roots of the trees in it, in postorder. -/
theorem holds_postorder (before after : List Node) (next : Option NodeId) (lo : Nat)
    (hlo : before.length = lo) (t : SExpr) {i : Nat} {u : SExpr} (h : t.postorder[i]? = some u) :
    (ofNodes (before ++ innerNodes lo t ++ ⟨shape lo t, next⟩ :: after)).Holds u (lo + i) := by
  obtain ⟨before', after', next', lo', hlo', hplace, hnodes⟩ :=
    exists_nodesAround before after next lo hlo t h
  rw [← hplace]
  show (ofNodes (nodesAround before after next lo t)).Holds u (lo' + u.beneath)
  rw [hnodes]
  exact holds_innerNodes before' after' next' lo' hlo' u

/-- The arena got the nodes of a tree, one for each tree in it and in postorder, and
nothing else has changed.  The last node is the root of the whole tree. -/
structure Gains (old new : Arena) (t : SExpr) (root : NodeId) : Prop where
  kept {id : Nat} (h : id < old.size) : new.node? id = old.node? id
  size : new.size = old.size + t.postorder.length
  holds {i : Nat} {u : SExpr} (h : t.postorder[i]? = some u) : new.Holds u (old.size + i)
  root : new.Holds t root ∧ root + 1 = new.size

theorem ofNodes_toList (arena : Arena) : ofNodes arena.nodes.toList = arena := rfl

/-- Building a tree adds its nodes behind all others. -/
theorem gains_of_grow (arena : Arena) {p : List Token} {t : SExpr} (h : grow p = (.ok t, [t])) :
    ∃ root, (arena.build p).1 = .ok root ∧ arena.Gains (arena.build p).2 t root := by
  have hbuild := build_ofNodes arena.nodes.toList p
  have hsize : arena.nodes.toList.length = arena.size := Array.length_toList
  rw [ofNodes_toList, h, hsize] at hbuild
  have hforest : arena.nodes.toList ++ forest arena.size [t] =
      arena.nodes.toList ++ innerNodes arena.size t ++ [⟨shape arena.size t, none⟩] := by
    simp [forest]
  have hlen := length_postorder t
  rw [hbuild]
  refine ⟨_, rfl, ?_, ?_, ?_, ?_, ?_⟩
  · intro id hid
    rw [node?_ofNodes, List.getElem?_append_left (by omega), Array.getElem?_toList]
    rfl
  · rw [size_ofNodes, List.length_append, length_forest, hsize, count, count]
    omega
  · intro i u hu
    rw [hforest]
    exact holds_postorder _ _ none _ hsize t hu
  · rw [hforest]
    exact holds_innerNodes _ _ none _ hsize t
  · show arena.size + t.beneath + 1 = _
    rw [size_ofNodes, List.length_append, length_forest, hsize, count, count]
    omega

end Arena

/-! ## Scanning -/

/-- The count over tokens that do not end an expression.  It goes on with the number
of lists that are open behind them, which is positive. -/
theorem splitAtBalance_of_none {before : List Token} {depth : Nat} {taken : List Token}
    (h : Token.splitAtBalance depth taken before = none) (after : List Token) :
    Token.splitAtBalance depth taken (before ++ after) =
        Token.splitAtBalance (before.foldl Token.nest depth) (before.reverse ++ taken) after ∧
      (before ≠ [] → 0 < before.foldl Token.nest depth) := by
  induction before generalizing depth taken with
  | nil => exact ⟨rfl, fun hne => absurd rfl hne⟩
  | cons token before ih =>
    rw [Token.splitAtBalance] at h
    by_cases hzero : token.nest depth = 0
    · simp [hzero] at h
    · simp only [hzero, if_false] at h
      obtain ⟨hscan, hpos⟩ := ih h
      rw [List.cons_append, Token.splitAtBalance, List.foldl_cons]
      simp only [hzero, if_false]
      refine ⟨?_, fun _ => ?_⟩
      · rw [hscan, List.reverse_cons, List.append_assoc, List.singleton_append]
      · by_cases hnil : before = []
        · rw [hnil]
          exact Nat.pos_of_ne_zero hzero
        · exact hpos hnil

/-! ## Reading -/

namespace Reader

variable {reader : Reader} {p rest : List Token} {t : Phrase}

theorem head?_ne_closing_iff {reader : Reader} :
    reader.pending.head? ≠ some .closing ↔ ∀ ts, reader.pending ≠ .closing :: ts := by
  cases h : reader.pending with
  | nil => simp
  | cons token ts => simp

/-- A reader with an expression in front takes it out and builds it. -/
theorem read_of_derives (h : Derives t p) (hpending : reader.pending = p ++ rest)
    (arena : Arena) :
    reader.read arena = ⟨(arena.build p).1.map some, ⟨rest⟩, (arena.build p).2⟩ := by
  have hopen : ∀ ts, reader.pending ≠ .closing :: ts := by
    intro ts hts
    obtain ⟨token, us, rfl, hne⟩ := h.exists_cons
    rw [hpending, List.cons_append] at hts
    exact hne (List.cons.inj hts).1
  rw [read_eq hopen, hpending, h.splitExpression rest]

/-- The root that is read, or the reason why there is none. -/
theorem root_of_derives (h : Derives t p) (hpending : reader.pending = p ++ rest)
    (arena : Arena) :
    match p.findSome? Token.rejection? with
    | some e => (reader.read arena).root = .error e
    | none => ∃ u root, t.tree = .ok u ∧ (reader.read arena).root = .ok (some root) ∧
        arena.Gains (reader.read arena).arena u root := by
  rw [h.findSome?_rejection?, read_of_derives h hpending arena]
  cases htree : t.tree with
  | error e =>
    have hbuild := congrArg Prod.fst (Arena.build_ofNodes arena.nodes.toList p)
    rw [Arena.ofNodes_toList, h.grow_eq_error htree] at hbuild
    dsimp only at hbuild ⊢
    rw [hbuild]
    rfl
  | ok u =>
    obtain ⟨root, hroot, hgains⟩ := arena.gains_of_grow (h.grow_eq_ok htree)
    refine ⟨u, root, rfl, ?_, hgains⟩
    dsimp only
    rw [hroot]
    rfl

/-- A reader waits if and only if it holds no expression in front and no closing
parenthesis. -/
theorem root_eq_none_iff (arena : Arena) :
    (reader.read arena).root = .ok none ↔
      reader.pending = [] ∨ reader.pending.head? ≠ some .closing ∧
        ∀ p, p <+: reader.pending → ∀ t, ¬ Derives t p := by
  constructor
  · intro hroot
    by_cases hnil : reader.pending = []
    · exact .inl hnil
    refine .inr ⟨?_, ?_⟩
    · intro hclosing
      obtain ⟨ts, hts⟩ := List.head?_eq_some_iff.1 hclosing
      rw [read_closing hts] at hroot
      cases hroot
    · rintro p ⟨rest, hpending⟩ t hderives
      rw [read_of_derives hderives hpending.symm] at hroot
      dsimp only at hroot
      cases hbuild : (arena.build p).1 <;> rw [hbuild] at hroot <;> cases hroot
  · rintro (hnil | ⟨hopen, hnone⟩)
    · rw [read, hnil]
    · rw [read_eq (head?_ne_closing_iff.1 hopen)]
      cases hsplit : Token.splitExpression reader.pending with
      | none => rfl
      | some found =>
        obtain ⟨t, hderives⟩ := exists_derives_of_splitExpression hopen hsplit
        obtain ⟨-, hpending⟩ := Token.eq_append_of_splitExpression hsplit
        exact absurd hderives (hnone _ ⟨found.2, hpending.symm⟩ t)

/-- A reading has one of three results. -/
theorem root_cases (reader : Reader) (arena : Arena) :
    reader.pending.head? = some .closing ∧
        reader.read arena = ⟨.error .unexpectedClose, ⟨reader.pending.tail⟩, arena⟩ ∨
      reader.pending.head? ≠ some .closing ∧ reader.read arena = ⟨.ok none, reader, arena⟩ ∨
      ∃ p t rest, Derives t p ∧ reader.pending = p ++ rest := by
  rcases reader.read_cases with hwaits | ⟨ts, hclosing⟩ | ⟨p, rest, hopen, hsplit⟩
  · refine .inr (.inl ⟨?_, hwaits arena⟩)
    intro hclosing
    obtain ⟨ts, hts⟩ := List.head?_eq_some_iff.1 hclosing
    have hread := hwaits arena
    rw [read_closing hts] at hread
    cases hread
  · refine .inl ⟨by rw [hclosing]; rfl, ?_⟩
    rw [read_closing hclosing, hclosing]
    rfl
  · obtain ⟨t, hderives⟩ :=
      exists_derives_of_splitExpression (head?_ne_closing_iff.2 hopen) hsplit
    exact .inr (.inr ⟨p, t, rest, hderives, (Token.eq_append_of_splitExpression hsplit).2⟩)

/-- No reading ends with an error of balance, and an unexpected parenthesis is the
one in front. -/
theorem root_ne_error (reader : Reader) (arena : Arena) :
    (reader.read arena).root ≠ .error .unbalanced ∧
      ((reader.read arena).root = .error .unexpectedClose →
        reader.pending.head? = some .closing) := by
  rcases reader.root_cases arena with ⟨hhead, hread⟩ | ⟨-, hread⟩ | ⟨p, t, rest, h, hpending⟩
  · rw [hread]
    exact ⟨by simp, fun _ => hhead⟩
  · rw [hread]
    exact ⟨by simp, by simp⟩
  · have hroot := root_of_derives h hpending arena
    cases hfind : p.findSome? Token.rejection? with
    | none =>
      rw [hfind] at hroot
      obtain ⟨u, root, -, hroot, -⟩ := hroot
      rw [hroot]
      exact ⟨by simp, by simp⟩
    | some e =>
      rw [hfind] at hroot
      obtain ⟨token, -, htoken⟩ := List.exists_of_findSome?_eq_some hfind
      obtain ⟨text, htext⟩ := Token.exists_ofWord_of_rejection? htoken
      obtain ⟨hclose, hunbalanced⟩ := Atom.ofWord_ne_error text
      dsimp only at hroot
      rw [hroot]
      rw [htext] at hclose hunbalanced
      exact ⟨by simpa using hunbalanced,
        fun h => absurd (Except.error.inj h) (by simpa using hclose)⟩

end Reader

/-- A text can be parsed if and only if its tokens are one expression in which no
word is refused. -/
theorem exists_parse_iff (text : String) :
    (∃ root arena, parse text = .ok (root, arena)) ↔
      ∃ ts t, Token.lex text = .ok ts ∧ Derives t ts ∧
        ∀ token ∈ ts, token.rejection? = none := by
  cases hlex : Token.lex text with
  | error e => simp [parse, Reader.feed, hlex]
  | ok ts =>
    have hfeed : ({} : Reader).feed text = .ok ⟨ts⟩ := by
      rw [Reader.feed, hlex]
      rfl
    rw [parse, hfeed]
    dsimp only
    constructor
    · rintro ⟨root, arena, hok⟩
      rcases (⟨ts⟩ : Reader).root_cases {} with ⟨-, hread⟩ | ⟨-, hread⟩ | ⟨p, t, rest, h, hp⟩
      · rw [hread] at hok
        cases hok
      · rw [hread] at hok
        cases hok
      · have hroot := Reader.root_of_derives h hp {}
        have hreader := congrArg (·.reader) (Reader.read_of_derives h hp {})
        cases hfind : p.findSome? Token.rejection? with
        | some e =>
          rw [hfind] at hroot
          dsimp only at hroot
          rw [hroot] at hok
          cases hok
        | none =>
          rw [hfind] at hroot
          obtain ⟨u, root', -, hroot, -⟩ := hroot
          dsimp only at hreader
          rw [hroot, hreader] at hok
          cases rest with
          | cons _ _ => cases hok
          | nil =>
            obtain rfl : ts = p := by simpa using hp
            exact ⟨ts, t, rfl, h, List.findSome?_eq_none_iff.1 hfind⟩
    · rintro ⟨ts', t, hts, h, hnone⟩
      obtain rfl := Except.ok.inj hts
      have hp : (⟨ts⟩ : Reader).pending = ts ++ [] := (List.append_nil ts).symm
      have hroot := Reader.root_of_derives h hp {}
      have hreader := congrArg (·.reader) (Reader.read_of_derives h hp {})
      rw [List.findSome?_eq_none_iff.2 hnone] at hroot
      obtain ⟨u, root, -, hroot, -⟩ := hroot
      dsimp only at hreader
      rw [hroot, hreader]
      exact ⟨root, _, rfl⟩

/-- The reader accepts the grammar and builds the tree of the derivation.

A reading gives nothing, and changes nothing, if and only if the queue is empty or
has no expression and no closing parenthesis in front.  A closing parenthesis in
front is dropped.  Otherwise the one expression in front is taken out; its first
word that is refused is the error, and if there is none, the arena gains one node
for each atom and each list of the derivation, in postorder.  There is no error of
balance, and wherever the count meets a closing parenthesis it is positive. -/
theorem read_iff_derives (reader : Reader) (arena : Arena) :
    ((reader.read arena).root = .ok none ↔
        reader.pending = [] ∨ reader.pending.head? ≠ some .closing ∧
          ∀ p, p <+: reader.pending → ∀ t, ¬ Derives t p) ∧
      ((reader.read arena).root = .ok none → reader.read arena = ⟨.ok none, reader, arena⟩) ∧
      ((reader.read arena).root = .error .unexpectedClose ↔
        reader.pending.head? = some .closing) ∧
      ((reader.read arena).root = .error .unexpectedClose →
        reader.read arena = ⟨.error .unexpectedClose, ⟨reader.pending.tail⟩, arena⟩) ∧
      (∀ p t, p <+: reader.pending → Derives t p →
        (∀ p' t', p' <+: reader.pending → Derives t' p' → p' = p ∧ t' = t) ∧
          p ++ (reader.read arena).reader.pending = reader.pending ∧
          match p.findSome? Token.rejection? with
          | some e => (reader.read arena).root = .error e
          | none => ∃ u root, t.tree = .ok u ∧ (reader.read arena).root = .ok (some root) ∧
              arena.Gains (reader.read arena).arena u root) ∧
      (reader.read arena).root ≠ .error .unbalanced ∧
      (reader.pending.head? ≠ some .closing →
        ∀ before after, reader.pending = before ++ .closing :: after →
          Token.splitExpression before = none →
            0 < before.foldl Token.nest 0 ∧
              Token.splitExpression reader.pending =
                Token.splitAtBalance (before.foldl Token.nest 0) before.reverse
                  (.closing :: after)) ∧
      ∀ text, (∃ root arena, parse text = .ok (root, arena)) ↔
        ∃ ts t, Token.lex text = .ok ts ∧ Derives t ts ∧
          ∀ token ∈ ts, token.rejection? = none := by
  obtain ⟨hbalance, hclose⟩ := reader.root_ne_error arena
  have hdrop : reader.pending.head? = some .closing →
      reader.read arena = ⟨.error .unexpectedClose, ⟨reader.pending.tail⟩, arena⟩ := by
    intro hhead
    obtain ⟨ts, hts⟩ := List.head?_eq_some_iff.1 hhead
    rw [Reader.read_closing hts, hts]
    rfl
  refine ⟨Reader.root_eq_none_iff arena, fun hroot => Reader.waits_of_root_eq_none hroot arena,
    ⟨hclose, fun hhead => by rw [hdrop hhead]⟩, fun hroot => hdrop (hclose hroot), ?_, hbalance, ?_,
    exists_parse_iff⟩
  · rintro p t ⟨rest, hpending⟩ h
    refine ⟨?_, ?_, Reader.root_of_derives h hpending.symm arena⟩
    · rintro p' t' ⟨rest', hpending'⟩ h'
      obtain ⟨hp, -⟩ := h'.append_inj h (hpending'.trans hpending.symm)
      exact ⟨hp, h'.unique h hp⟩
    · rw [Reader.read_of_derives h hpending.symm]
      exact hpending
  · intro hopen before after hpending hscan
    obtain ⟨hsplit, hpos⟩ := splitAtBalance_of_none hscan (.closing :: after)
    refine ⟨hpos ?_, ?_⟩
    · rintro rfl
      rw [hpending] at hopen
      exact hopen rfl
    · rw [List.append_nil] at hsplit
      rw [hpending]
      exact hsplit

end StackScheme
