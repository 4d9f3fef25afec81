import StackScheme.Arena.Outline
import StackScheme.Proofs.Arena.Printing
import StackScheme.Proofs.Token.Lexing

/-!
# Printing undoes reading

The text of an expression that was read can be read again, and this gives the
same tree.

* `Reader.Reached` are the readers, arenas and roots that calls of `feed`, `read`
  and `clear` lead to.
* `Reader.Source` ties a root to the tokens that it was built from.  Everything
  that is read has a source, and later calls keep it.
* `parse_render` is the result.
-/

namespace StackScheme

open SExpr

namespace Reader

/-! ## Calls of a reader -/

/-- The roots that a reading gives. -/
def Reading.roots (reading : Reading) : List NodeId :=
  match reading.root with
  | .ok (some root) => [root]
  | _ => []

/-- What calls of a reader lead to: the reader, the arena that it fills, and all
roots that it gave. -/
inductive Reached : Reader → Arena → List NodeId → Prop
  | start : Reached {} {} []
  | feed {reader reader' : Reader} {arena : Arena} {roots : List NodeId} {text : String}
    (h : Reached reader arena roots) (hfeed : reader.feed text = .ok reader') :
    Reached reader' arena roots
  | read {reader : Reader} {arena : Arena} {roots : List NodeId} (h : Reached reader arena roots) :
    Reached (reader.read arena).reader (reader.read arena).arena
      (roots ++ (reader.read arena).roots)
  | clear {reader : Reader} {arena : Arena} {roots : List NodeId}
    (h : Reached reader arena roots) : Reached reader.clear arena roots

/-! ## Sources -/

/-- The tokens of one expression that can be written and read as the tree. -/
structure Source (p : List Token) (t : SExpr) : Prop where
  lexable : ∀ token ∈ p, token.Lexable
  opens : ∀ ts, p ≠ .closing :: ts
  complete : Token.splitExpression p = some (p, [])
  grown : (grow p).1 = .ok t

/-- The root belongs to a tree of the forest that has a source. -/
def HasSource (trees : List SExpr) (root : NodeId) : Prop :=
  ∃ before t after p, trees = before ++ t :: after ∧ root = count before + t.beneath ∧ Source p t

theorem HasSource.append {trees : List SExpr} {root : NodeId} (h : HasSource trees root)
    (new : List SExpr) : HasSource (trees ++ new) root := by
  obtain ⟨before, t, after, p, rfl, hroot, hsource⟩ := h
  exact ⟨before, t, after ++ new, p, by simp, hroot, hsource⟩

/-- The first tokens of a reader that gives an expression are the source of its tree,
which is added to the arena. -/
theorem exists_source_of_read {reader : Reader} {trees : List SExpr} {root : NodeId}
    (hlexable : ∀ token ∈ reader.pending, token.Lexable)
    (hroot : (reader.read (Arena.ofForest trees)).root = .ok (some root)) :
    ∃ p rest t, Source p t ∧ reader.pending = p ++ rest ∧ root = count trees + t.beneath ∧
      reader.read (Arena.ofForest trees) =
        ⟨.ok (some root), ⟨rest⟩, Arena.ofForest (trees ++ [t])⟩ := by
  obtain ⟨p, rest, t, hopen, hsplit, hgrow, hplace, hread⟩ := read_root_eq_some hroot
  obtain ⟨-, hpending⟩ := Token.eq_append_of_splitExpression hsplit
  have hopens : ∀ ts, p ≠ .closing :: ts := by
    rintro ts rfl
    exact hopen _ hpending
  have hp : ∀ token ∈ p, token.Lexable := by
    intro token htoken
    refine hlexable token ?_
    rw [hpending]
    exact List.mem_append_left _ htoken
  exact ⟨p, rest, t, ⟨hp, hopens, Token.splitExpression_self hsplit, hgrow⟩, hpending, hplace,
    hread⟩

/-- An expression that is read has a source. -/
theorem hasSource_of_read {reader : Reader} {trees : List SExpr} {root : NodeId}
    (hlexable : ∀ token ∈ reader.pending, token.Lexable)
    (hroot : (reader.read (Arena.ofForest trees)).root = .ok (some root)) :
    ∃ t, (reader.read (Arena.ofForest trees)).arena = Arena.ofForest (trees ++ [t]) ∧
      HasSource (trees ++ [t]) root := by
  obtain ⟨p, rest, t, hsource, -, rfl, hread⟩ := exists_source_of_read hlexable hroot
  exact ⟨t, by rw [hread], trees, t, [], p, rfl, rfl, hsource⟩

/-- Reading leaves tokens that were there. -/
theorem mem_pending_of_read {reader : Reader} {arena : Arena} {token : Token}
    (h : token ∈ (reader.read arena).reader.pending) : token ∈ reader.pending := by
  rcases reader.read_cases with hwaits | ⟨rest, hclosing⟩ | ⟨p, rest, hopen, hsplit⟩
  · rw [hwaits] at h
    exact h
  · rw [read_closing hclosing] at h
    rw [hclosing]
    exact List.mem_cons_of_mem _ h
  · obtain ⟨-, hpending⟩ := Token.eq_append_of_splitExpression hsplit
    rw [read_eq hopen, hsplit] at h
    rw [hpending]
    exact List.mem_append_right _ h

/-- Everything that a reader gave has a source, and so has what it will give. -/
theorem Reached.sources {reader : Reader} {arena : Arena} {roots : List NodeId}
    (h : Reached reader arena roots) :
    (∀ token ∈ reader.pending, token.Lexable) ∧
      ∃ trees, arena = Arena.ofForest trees ∧ ∀ root ∈ roots, HasSource trees root := by
  induction h with
  | start => exact ⟨by simp, [], rfl, by simp⟩
  | @feed reader reader' arena roots text _ hfeed ih =>
    obtain ⟨hlexable, htrees⟩ := ih
    refine ⟨?_, htrees⟩
    rw [Reader.feed] at hfeed
    cases hlex : Token.lex text with
    | error e =>
      rw [hlex] at hfeed
      cases hfeed
    | ok ts =>
      rw [hlex] at hfeed
      cases hfeed
      intro token htoken
      rcases List.mem_append.1 htoken with htoken | htoken
      · exact hlexable token htoken
      · exact Token.lexable_of_lex hlex token htoken
  | @read reader arena roots _ ih =>
    obtain ⟨hlexable, trees, rfl, hsources⟩ := ih
    refine ⟨fun token htoken => hlexable token (mem_pending_of_read htoken), ?_⟩
    by_cases hgave : ∃ root, (reader.read (Arena.ofForest trees)).root = .ok (some root)
    · obtain ⟨root, hroot⟩ := hgave
      obtain ⟨t, harena, hsource⟩ := hasSource_of_read hlexable hroot
      refine ⟨trees ++ [t], harena, fun r hr => ?_⟩
      rcases List.mem_append.1 hr with hr | hr
      · exact (hsources r hr).append [t]
      · rw [Reading.roots, hroot, List.mem_singleton] at hr
        rw [hr]
        exact hsource
    · obtain ⟨new, hnew⟩ := reader.exists_read_arena_eq trees
      refine ⟨trees ++ new, hnew, fun r hr => ?_⟩
      have hnone : (reader.read (Arena.ofForest trees)).roots = [] := by
        unfold Reading.roots
        split
        · exact absurd ⟨_, ‹_›⟩ hgave
        · rfl
      rw [hnone, List.append_nil] at hr
      exact (hsources r hr).append new
  | clear _ ih => exact ⟨by simp [Reader.clear], ih.2⟩

/-- The tokens of a source are read as its tree, whatever tokens follow and whatever the
arena holds. -/
theorem Source.read_append {p : List Token} {t : SExpr} (h : Source p t) (rest : List Token)
    (trees : List SExpr) :
    (⟨p ++ rest⟩ : Reader).read (Arena.ofForest trees) =
      ⟨.ok (some (count trees + t.beneath)), ⟨rest⟩, Arena.ofForest (trees ++ [t])⟩ := by
  have hopen : ∀ ts, p ++ rest ≠ .closing :: ts := by
    intro ts hts
    obtain ⟨hne, -⟩ := Token.eq_append_of_splitExpression h.complete
    obtain ⟨token, p', rfl⟩ := List.exists_cons_of_ne_nil hne
    obtain ⟨rfl, -⟩ := List.cons.inj hts
    exact h.opens p' rfl
  have hsplit : Token.splitExpression (p ++ rest) = some (p, rest) :=
    Token.splitExpression_append h.complete rest
  have htrees : (grow p).2 = [t] := growFrom_eq_ok h.grown
  rw [read_ofForest trees hopen hsplit, htrees, h.grown]
  rfl

/-- The tree of a source is printed as the source, wherever it lies. -/
theorem Source.render_ofForest {p : List Token} {t : SExpr} (h : Source p t)
    (before after : List SExpr) :
    (Arena.ofForest (before ++ t :: after)).render (count before + t.beneath) =
      Token.unlex p := by
  have hsize : t.beneath < (Arena.ofForest (before ++ t :: after)).size := by
    rw [Arena.size_ofForest, count_append, count]
    omega
  rw [Arena.render_of_holds (Arena.holds_ofForest before after t) hsize, tokens_of_grow h.grown]

theorem Source.feed_unlex {p : List Token} {t : SExpr} (h : Source p t) :
    ({} : Reader).feed (Token.unlex p) = .ok ⟨p⟩ := by
  rw [Reader.feed, Token.lex_unlex h.lexable]
  rfl

end Reader

/-! ## Reading again -/

/-- The written tokens of a source are read as its tree. -/
theorem parse_unlex {p : List Token} {t : SExpr} (h : Reader.Source p t) :
    parse (Token.unlex p) = .ok (t.beneath, Arena.ofForest [t]) := by
  have hread : (⟨p⟩ : Reader).read {} = ⟨.ok (some t.beneath), ⟨[]⟩, Arena.ofForest [t]⟩ := by
    have happend := h.read_append [] []
    rwa [List.append_nil, count, Nat.zero_add] at happend
  rw [parse, h.feed_unlex]
  simp only [hread]
  rfl

/-- Printing undoes reading.  Whatever calls were made, the text of each root that
a reader gave is one expression, which is read as the same tree and printed as the
same text. -/
theorem parse_render {reader : Reader} {arena : Arena} {roots : List NodeId}
    (h : Reader.Reached reader arena roots) {root : NodeId} (hroot : root ∈ roots) :
    ∃ root' arena' t, parse (arena.render root) = .ok (root', arena') ∧
      arena.Holds t root ∧ arena'.Holds t root' ∧
      arena'.outline root' = arena.outline root ∧ arena'.render root' = arena.render root := by
  obtain ⟨-, trees, rfl, hsources⟩ := h.sources
  obtain ⟨before, t, after, p, rfl, rfl, hsource⟩ := hsources root hroot
  have hholds := Arena.holds_ofForest before after t
  have hholds' : (Arena.ofForest [t]).Holds t t.beneath := by
    have := Arena.holds_ofForest [] [] t
    rwa [count, Nat.zero_add] at this
  have hsize : t.beneath < (Arena.ofForest (before ++ t :: after)).size := by
    rw [Arena.size_ofForest, count_append, count]
    omega
  have hsize' : t.beneath < (Arena.ofForest [t]).size := by
    rw [Arena.size_ofForest, count]
    omega
  have htokens : t.tokens = p := tokens_of_grow hsource.grown
  have hrender := Arena.render_of_holds hholds hsize
  have hrender' := Arena.render_of_holds hholds' hsize'
  refine ⟨t.beneath, Arena.ofForest [t], t, ?_, hholds, hholds', ?_, ?_⟩
  · rw [hrender, htokens]
    exact parse_unlex hsource
  · rw [Arena.outline, Arena.outline, Arena.pieces_of_holds hholds hsize,
      Arena.pieces_of_holds hholds' hsize']
  · rw [hrender, hrender']

/-- An expression with odd symbols, a string with escapes and an empty list, read
after an error and before an incomplete expression. -/
theorem parse_render_odd :
    ∃ (reader : Reader) (arena : Arena), Reader.Reached reader arena [7] ∧
      arena.render 7 = "(-e1 \"a\\\"\\n\" (+1+ ()) -7 #t)" ∧
      ∃ root' arena' t, parse (arena.render 7) = .ok (root', arena') ∧
        arena.Holds t 7 ∧ arena'.Holds t root' ∧
        arena'.outline root' = arena.outline 7 ∧ arena'.render root' = arena.render 7 := by
  have hfeed : ({} : Reader).feed ") (-e1 \"a\\\"\\n\"(+1+( )); c\n -7 #t) (x" =
      .ok ⟨[.closing, .opening, .word "-e1", .string "a\"\n", .opening, .word "+1+", .opening,
        .closing, .closing, .word "-7", .word "#t", .closing, .opening, .word "x"]⟩ := rfl
  have hreached := (Reader.Reached.start.feed hfeed).read.read
  exact ⟨_, _, hreached, rfl, parse_render hreached List.mem_cons_self⟩

end StackScheme
