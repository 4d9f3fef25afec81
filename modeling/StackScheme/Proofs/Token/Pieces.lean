import StackScheme.Proofs.Token.Lexing

/-!
# The pieces of a text

A text consists of separators, comments, parentheses, string literals and words, each of
which ends where its own characters end.  The lexer finds these pieces and gives the tokens
among them, or the error of the first place where no piece starts.

* Pieces.  `Token.Piece` are the pieces and `Token.Item` the items of a string literal.
  `Token.Splits` takes pieces off the front of a text, and `Token.Stuck` are the texts that
  no piece is in front of.
* One split.  `Token.Splits.unique` says that two ways to take off pieces agree if both go on
  as long as they can.  `Token.Rejects` gives the reason why a text is stuck, and
  `Token.exists_splits` that every text is taken apart up to its end or to such a place.
* The lexer.  `Lexer.complete` is the rest of a run of the lexer.  `Lexer.complete_splits` and
  `Lexer.complete_of_rejects` are its way over pieces and at a place where there is none.
* Escapes.  `Token.unescape` undoes the escapes of a whole literal.
* `Token.lex_iff_splits` is the result.
-/

namespace StackScheme

namespace Token

/-! ## Pieces -/

/-- One item of a string literal. -/
inductive Item where
  /-- A character that stands for itself. -/
  | plain (c : Char)
  /-- A backslash and the character behind it. -/
  | escaped (c : Char)
  deriving DecidableEq, Repr

namespace Item

/-- The text of an item. -/
def chars : Item → List Char
  | plain c => [c]
  | escaped c => ['\\', c]

/-- What may stand between the quotes.  A literal does not go over the end of a line. -/
def Valid : Item → Prop
  | plain c => c ≠ '"' ∧ c ≠ '\\' ∧ c ≠ '\n'
  | escaped c => c ≠ '\n'

/-- The character that an item stands for, if it has a meaning. -/
def meaning? : Item → Option Char
  | plain c => some c
  | escaped c => unescape? c

instance : DecidablePred Valid
  | plain c => inferInstanceAs (Decidable (c ≠ '"' ∧ c ≠ '\\' ∧ c ≠ '\n'))
  | escaped c => inferInstanceAs (Decidable (c ≠ '\n'))

end Item

/-- A piece of a text. -/
inductive Piece where
  | separator (c : Char)
  /-- A semicolon and the characters behind it. -/
  | comment (cs : List Char)
  | opening
  | closing
  /-- The items between two quotes. -/
  | string (items : List Item)
  | word (cs : List Char)
  deriving DecidableEq, Repr

namespace Piece

/-- The text of a piece. -/
def chars : Piece → List Char
  | separator c => [c]
  | comment cs => ';' :: cs
  | opening => ['(']
  | closing => [')']
  | string items => '"' :: (items.flatMap Item.chars ++ ['"'])
  | word cs => cs

/-- What a piece is made of. -/
def Legal : Piece → Prop
  | separator c => Text.isSeparator c = true
  | comment cs => ∀ c ∈ cs, c ≠ '\n'
  | string items => ∀ i ∈ items, i.Valid ∧ i.meaning?.isSome
  | word cs => Lexer.IsWord cs
  | _ => True

/-- Whether a piece is as long as possible in front of the rest of the text. -/
def EndsBefore (rest : List Char) : Piece → Prop
  | comment _ => ∀ c ∈ rest.head?, c = '\n'
  | word _ => ∀ c ∈ rest.head?, Lexer.isWordChar c = false
  | _ => True

/-- The token of a piece.  Separators and comments have none. -/
def token? : Piece → Option Token
  | opening => some .opening
  | closing => some .closing
  | string items => some (.string (String.ofList (items.filterMap Item.meaning?)))
  | word cs => some (.word (String.ofList cs))
  | _ => none

end Piece

/-- Pieces that are taken off the front of a text, one after the other, and what is left of
the text. -/
inductive Splits : List Char → List Piece → (rest : List Char) → Prop
  | nil (rest : List Char) : Splits rest [] rest
  | cons {piece : Piece} {cs rest : List Char} {pieces : List Piece} (hlegal : piece.Legal)
    (hends : piece.EndsBefore cs) (h : Splits cs pieces rest) :
    Splits (piece.chars ++ cs) (piece :: pieces) rest

/-- No piece is in front of the text. -/
def Stuck (cs : List Char) : Prop :=
  ∀ (piece : Piece) (rest : List Char), piece.Legal → piece.EndsBefore rest →
    piece.chars ++ rest ≠ cs

theorem Splits.append {cs rest rest' : List Char} {pieces pieces' : List Piece}
    (h : Splits cs pieces rest) (h' : Splits rest pieces' rest') :
    Splits cs (pieces ++ pieces') rest' := by
  induction h with
  | nil => exact h'
  | cons hlegal hends _ ih => exact .cons hlegal hends (ih h')

/-! ## One split -/

/-- A run of characters of some kind that is as long as possible is determined by the text
that it is in front of. -/
theorem run_append_inj {P : Char → Prop} {as bs cs ds : List Char} (has : ∀ c ∈ as, P c)
    (hcs : ∀ c ∈ cs.head?, ¬ P c) (hbs : ∀ c ∈ bs, P c) (hds : ∀ c ∈ ds.head?, ¬ P c)
    (h : as ++ cs = bs ++ ds) : as = bs ∧ cs = ds := by
  induction as generalizing bs with
  | nil =>
    cases bs with
    | nil => exact ⟨rfl, h⟩
    | cons b bs =>
      rw [List.nil_append] at h
      exact absurd (hbs b List.mem_cons_self) (hcs b (by simp [h]))
  | cons a as ih =>
    cases bs with
    | nil =>
      rw [List.nil_append] at h
      exact absurd (has a List.mem_cons_self) (hds a (by simp [← h]))
    | cons b bs =>
      obtain ⟨rfl, htail⟩ := List.cons.inj h
      obtain ⟨rfl, hrest⟩ := ih (fun c hc => has c (List.mem_cons_of_mem _ hc))
        (fun c hc => hbs c (List.mem_cons_of_mem _ hc)) htail
      exact ⟨rfl, hrest⟩

/-- A string literal has no closing quote: the text or the line ends, with or without a
backslash before its end. -/
inductive Unclosed : List Char → Prop
  | endOfText : Unclosed []
  | endOfLine (rest : List Char) : Unclosed ('\n' :: rest)
  | backslash : Unclosed ['\\']
  | backslashEndOfLine (rest : List Char) : Unclosed ('\\' :: '\n' :: rest)

/-- The items of a literal end here, at a closing quote or because there is none. -/
def EndsItems (cs : List Char) : Prop :=
  (∃ rest, cs = '"' :: rest) ∨ Unclosed cs

/-- Where the items of a literal end, there is no item. -/
theorem EndsItems.ne_item_append {cs : List Char} (h : EndsItems cs) {i : Item} (hi : i.Valid)
    (rest : List Char) : i.chars ++ rest ≠ cs := by
  rintro rfl
  cases i with
  | plain c =>
    obtain ⟨hquote, hslash, hline⟩ := hi
    obtain ⟨_, hcs⟩ | hcs := h
    · exact hquote (List.cons.inj hcs).1
    · cases hcs with
      | endOfLine => exact hline rfl
      | backslash => exact hslash rfl
      | backslashEndOfLine => exact hslash rfl
  | escaped c =>
    obtain ⟨_, hcs⟩ | hcs := h
    · exact absurd (List.cons.inj hcs).1 (by decide)
    · cases hcs with
      | backslashEndOfLine => exact hi rfl

/-- The items of a literal are determined by the text. -/
theorem items_append_inj {is js : List Item} {cs ds : List Char} (his : ∀ i ∈ is, i.Valid)
    (hcs : EndsItems cs) (hjs : ∀ j ∈ js, j.Valid) (hds : EndsItems ds)
    (h : is.flatMap Item.chars ++ cs = js.flatMap Item.chars ++ ds) : is = js ∧ cs = ds := by
  induction is generalizing js with
  | nil =>
    cases js with
    | nil => exact ⟨rfl, h⟩
    | cons j js =>
      rw [List.flatMap_cons, List.append_assoc] at h
      exact absurd h.symm (hcs.ne_item_append (hjs j List.mem_cons_self) _)
  | cons i is ih =>
    cases js with
    | nil =>
      rw [List.flatMap_cons, List.append_assoc] at h
      exact absurd h (hds.ne_item_append (his i List.mem_cons_self) _)
    | cons j js =>
      obtain ⟨hi, his'⟩ := List.forall_mem_cons.1 his
      obtain ⟨hj, hjs'⟩ := List.forall_mem_cons.1 hjs
      rw [List.flatMap_cons, List.flatMap_cons, List.append_assoc, List.append_assoc] at h
      have hfirst : i = j ∧ is.flatMap Item.chars ++ cs = js.flatMap Item.chars ++ ds := by
        cases i with
        | plain c =>
          cases j with
          | plain d => simpa [Item.chars] using h
          | escaped d => exact absurd (List.cons.inj h).1 hi.2.1
        | escaped c =>
          cases j with
          | plain d => exact absurd (List.cons.inj h).1.symm hj.2.1
          | escaped d => simpa [Item.chars] using h
      obtain ⟨rfl, htail⟩ := hfirst
      obtain ⟨rfl, hrest⟩ := ih his' hjs' htail
      exact ⟨rfl, hrest⟩

end Token

namespace Lexer

/-- A character of a word is no other piece and no part of one. -/
theorem isWordChar_iff (c : Char) :
    isWordChar c = true ↔ Text.isBlank c = false ∧ c ≠ '(' ∧ c ≠ ')' ∧ c ≠ '"' ∧ c ≠ ';' := by
  simp [isWordChar, and_assoc]

theorem isWordChar_of_isSeparator {c : Char} (h : Text.isSeparator c = true) :
    isWordChar c = false := by
  have hblank := Text.isBlank_of_isSeparator h
  simp [isWordChar, hblank]

end Lexer

namespace Token

/-- The first character of a piece. -/
inductive Piece.StartsWith : Piece → Char → Prop
  | separator {c : Char} (h : Text.isSeparator c = true) : StartsWith (.separator c) c
  | comment (cs : List Char) : StartsWith (.comment cs) ';'
  | opening : StartsWith .opening '('
  | closing : StartsWith .closing ')'
  | string (items : List Item) : StartsWith (.string items) '"'
  | word {c : Char} (cs : List Char) (h : Lexer.isWordChar c = true) :
    StartsWith (.word (c :: cs)) c

theorem Piece.Legal.exists_startsWith {piece : Piece} (h : piece.Legal) :
    ∃ c cs, piece.chars = c :: cs ∧ piece.StartsWith c := by
  cases piece with
  | separator c => exact ⟨c, [], rfl, .separator h⟩
  | comment cs => exact ⟨_, _, rfl, .comment cs⟩
  | opening => exact ⟨_, _, rfl, .opening⟩
  | closing => exact ⟨_, _, rfl, .closing⟩
  | string items => exact ⟨_, _, rfl, .string items⟩
  | word cs =>
    obtain ⟨hne, hcs⟩ := h
    obtain ⟨c, cs, rfl⟩ := List.exists_cons_of_ne_nil hne
    exact ⟨c, cs, rfl, .word cs (hcs c List.mem_cons_self)⟩

/-- A text has at most one piece in front. -/
theorem Piece.append_inj {piece piece' : Piece} {cs cs' : List Char} (hlegal : piece.Legal)
    (hends : piece.EndsBefore cs) (hlegal' : piece'.Legal) (hends' : piece'.EndsBefore cs')
    (h : piece.chars ++ cs = piece'.chars ++ cs') : piece = piece' ∧ cs = cs' := by
  obtain ⟨c, ds, hchars, hstart⟩ := hlegal.exists_startsWith
  obtain ⟨c', ds', hchars', hstart'⟩ := hlegal'.exists_startsWith
  have hfirst : c = c' := by
    rw [hchars, hchars'] at h
    exact (List.cons.inj h).1
  subst hfirst
  have hclash : ∀ {c}, Text.isSeparator c = true → Lexer.isWordChar c ≠ true := by
    intro c hc
    simp [Lexer.isWordChar_of_isSeparator hc]
  cases hstart with
  | separator hsep =>
    cases hstart' with
    | separator => simpa [chars] using h
    | word _ hword => exact absurd hword (hclash hsep)
    | _ => exact absurd hsep (by decide)
  | comment ds =>
    cases hstart' with
    | separator hsep => exact absurd hsep (by decide)
    | word _ hword => exact absurd hword (by decide)
    | comment ds' =>
      obtain ⟨rfl, hcs⟩ := run_append_inj (P := (· ≠ '\n')) hlegal
        (by simpa [EndsBefore] using hends) hlegal' (by simpa [EndsBefore] using hends')
        (List.cons.inj h).2
      exact ⟨rfl, hcs⟩
  | opening =>
    cases hstart' with
    | separator hsep => exact absurd hsep (by decide)
    | word _ hword => exact absurd hword (by decide)
    | opening => exact ⟨rfl, (List.cons.inj h).2⟩
  | closing =>
    cases hstart' with
    | separator hsep => exact absurd hsep (by decide)
    | word _ hword => exact absurd hword (by decide)
    | closing => exact ⟨rfl, (List.cons.inj h).2⟩
  | string items =>
    cases hstart' with
    | separator hsep => exact absurd hsep (by decide)
    | word _ hword => exact absurd hword (by decide)
    | string items' =>
      have htail : items.flatMap Item.chars ++ '"' :: cs =
          items'.flatMap Item.chars ++ '"' :: cs' := by
        simpa [chars] using h
      obtain ⟨rfl, hrest⟩ := items_append_inj (fun i hi => (hlegal i hi).1) (.inl ⟨cs, rfl⟩)
        (fun i hi => (hlegal' i hi).1) (.inl ⟨cs', rfl⟩) htail
      exact ⟨rfl, (List.cons.inj hrest).2⟩
  | word ds hword =>
    cases hstart' with
    | separator hsep => exact absurd hword (hclash hsep)
    | word ds' _ =>
      obtain ⟨hword, hcs⟩ := run_append_inj (P := (Lexer.isWordChar · = true)) hlegal.2
        (by simpa [EndsBefore] using hends) hlegal'.2 (by simpa [EndsBefore] using hends') h
      exact ⟨congrArg Piece.word hword, hcs⟩
    | _ => exact absurd hword (by decide)

/-- Nothing can be taken off the empty text. -/
theorem stuck_nil : Stuck [] := by
  intro piece rest hlegal _ h
  obtain ⟨c, ds, hchars, -⟩ := hlegal.exists_startsWith
  rw [hchars] at h
  cases h

/-- Two ways to take pieces off a text agree if both go on as long as they can. -/
theorem Splits.unique {cs rest rest' : List Char} {pieces pieces' : List Piece}
    (h : Splits cs pieces rest) (h' : Splits cs pieces' rest') (hstuck : Stuck rest)
    (hstuck' : Stuck rest') : pieces = pieces' ∧ rest = rest' := by
  induction h generalizing pieces' with
  | nil =>
    cases h' with
    | nil => exact ⟨rfl, rfl⟩
    | cons hlegal hends _ => exact absurd rfl (hstuck _ _ hlegal hends)
  | @cons piece cs rest pieces hlegal hends h ih =>
    generalize hall : piece.chars ++ cs = all at h'
    cases h' with
    | nil => exact absurd hall (hstuck' _ _ hlegal hends)
    | cons hlegal' hends' h' =>
      obtain ⟨rfl, rfl⟩ := Piece.append_inj hlegal hends hlegal' hends' hall
      obtain ⟨rfl, hrest⟩ := ih h' hstuck
      exact ⟨rfl, hrest⟩

/-- Why no piece is in front of a text. -/
inductive Rejects : List Char → SyntaxError → Prop
  /-- A blank that is no separator is part of no piece. -/
  | blank {c : Char} (rest : List Char) (hblank : Text.isBlank c = true)
    (hseparator : Text.isSeparator c = false) :
    Rejects (c :: rest) (.unexpectedInput (String.singleton c))
  /-- A string literal is not closed.  Its quote and its items are reported. -/
  | unclosed {items : List Item} {rest : List Char} (hitems : ∀ i ∈ items, i.Valid)
    (hrest : Unclosed rest) :
    Rejects ('"' :: (items.flatMap Item.chars ++ rest))
      (.unexpectedInput (String.ofList ('"' :: items.flatMap Item.chars)))
  /-- A string literal has an escape without a meaning.  The first one is reported. -/
  | escape {before after : List Item} {c : Char} {rest : List Char}
    (hbefore : ∀ i ∈ before, i.Valid ∧ i.meaning?.isSome) (hc : c ≠ '\n')
    (hmeaning : unescape? c = none) (hafter : ∀ i ∈ after, i.Valid) :
    Rejects ('"' :: ((before ++ .escaped c :: after).flatMap Item.chars ++ '"' :: rest))
      (.illegalEscape c)

theorem valid_append_escaped {before after : List Item} {c : Char}
    (hbefore : ∀ i ∈ before, i.Valid ∧ i.meaning?.isSome) (hc : c ≠ '\n')
    (hafter : ∀ i ∈ after, i.Valid) : ∀ i ∈ before ++ .escaped c :: after, i.Valid := by
  intro i hi
  rcases List.mem_append.1 hi with hi | hi
  · exact (hbefore i hi).1
  rcases List.mem_cons.1 hi with rfl | hi
  · exact hc
  · exact hafter i hi

/-- A piece that starts with a quote is a string literal. -/
theorem Piece.eq_string_of_append {piece : Piece} {cs rest : List Char} (hlegal : piece.Legal)
    (h : piece.chars ++ rest = '"' :: cs) :
    ∃ items, piece = .string items ∧ items.flatMap Item.chars ++ '"' :: rest = cs := by
  obtain ⟨c, ds, hchars, hstart⟩ := hlegal.exists_startsWith
  obtain rfl : c = '"' := by
    rw [hchars] at h
    exact (List.cons.inj h).1
  cases hstart with
  | separator hsep => exact absurd hsep (by decide)
  | word _ hword => exact absurd hword (by decide)
  | string items => exact ⟨items, rfl, by simpa [chars] using h⟩

/-- No piece is in front of a text for which there is such a reason. -/
theorem Rejects.stuck {cs : List Char} {e : SyntaxError} (h : Rejects cs e) : Stuck cs := by
  intro piece more hlegal _ heq
  cases h with
  | @blank c rest hblank hseparator =>
    obtain ⟨d, ds, hchars, hstart⟩ := hlegal.exists_startsWith
    obtain rfl : d = c := by
      rw [hchars] at heq
      exact (List.cons.inj heq).1
    cases hstart with
    | separator hsep =>
      rw [hsep] at hseparator
      cases hseparator
    | word _ hword =>
      rw [((Lexer.isWordChar_iff _).1 hword).1] at hblank
      cases hblank
    | _ => exact absurd hblank (by decide)
  | unclosed hitems hrest =>
    obtain ⟨items, rfl, htail⟩ := Piece.eq_string_of_append hlegal heq
    obtain ⟨-, hend⟩ := items_append_inj (fun i hi => (hlegal i hi).1) (.inl ⟨more, rfl⟩) hitems
      (.inr hrest) htail
    rw [← hend] at hrest
    cases hrest
  | @escape before after c rest hbefore hc hmeaning hafter =>
    obtain ⟨items, rfl, htail⟩ := Piece.eq_string_of_append hlegal heq
    have hvalid := valid_append_escaped hbefore hc hafter
    obtain ⟨rfl, -⟩ := items_append_inj (fun i hi => (hlegal i hi).1) (.inl ⟨more, rfl⟩) hvalid
      (.inl ⟨rest, rfl⟩) htail
    have hsome := (hlegal (.escaped c) (by simp)).2
    rw [Item.meaning?, hmeaning] at hsome
    cases hsome

/-- Every text starts with items of a literal, up to where they end. -/
theorem exists_items : (cs : List Char) → ∃ (items : List Item) (rest : List Char),
    cs = items.flatMap Item.chars ++ rest ∧ (∀ i ∈ items, i.Valid) ∧ EndsItems rest
  | [] => ⟨[], [], rfl, nofun, .inr .endOfText⟩
  | c :: cs => by
    by_cases hquote : c = '"'
    · subst hquote
      exact ⟨[], _, rfl, nofun, .inl ⟨cs, rfl⟩⟩
    by_cases hline : c = '\n'
    · subst hline
      exact ⟨[], _, rfl, nofun, .inr (.endOfLine cs)⟩
    by_cases hslash : c = '\\'
    · subst hslash
      match cs with
      | [] => exact ⟨[], _, rfl, nofun, .inr .backslash⟩
      | d :: ds =>
        by_cases hd : d = '\n'
        · subst hd
          exact ⟨[], _, rfl, nofun, .inr (.backslashEndOfLine ds)⟩
        · obtain ⟨items, rest, hds, hitems, hend⟩ := exists_items ds
          exact ⟨.escaped d :: items, rest, by simp [hds, Item.chars],
            List.forall_mem_cons.2 ⟨hd, hitems⟩, hend⟩
    · obtain ⟨items, rest, hcs, hitems, hend⟩ := exists_items cs
      exact ⟨.plain c :: items, rest, by simp [hcs, Item.chars],
        List.forall_mem_cons.2 ⟨⟨hquote, hslash, hline⟩, hitems⟩, hend⟩

/-- All items of a literal have a meaning, or there is a first one that has none. -/
theorem meaning?_cases {items : List Item} (hitems : ∀ i ∈ items, i.Valid) :
    (∀ i ∈ items, i.Valid ∧ i.meaning?.isSome) ∨
      ∃ before c after, items = before ++ .escaped c :: after ∧
        (∀ i ∈ before, i.Valid ∧ i.meaning?.isSome) ∧ c ≠ '\n' ∧ unescape? c = none ∧
        ∀ i ∈ after, i.Valid := by
  induction items with
  | nil => exact .inl nofun
  | cons i items ih =>
    obtain ⟨hi, hrest⟩ := List.forall_mem_cons.1 hitems
    cases hmeaning : i.meaning? with
    | none =>
      cases i with
      | plain c => cases hmeaning
      | escaped c => exact .inr ⟨[], c, items, rfl, nofun, hi, hmeaning, hrest⟩
    | some d =>
      have hfirst : i.Valid ∧ i.meaning?.isSome := ⟨hi, by rw [hmeaning]; rfl⟩
      rcases ih hrest with hall | ⟨before, c, after, rfl, hbefore, hillegal⟩
      · exact .inl (List.forall_mem_cons.2 ⟨hfirst, hall⟩)
      · exact .inr
          ⟨i :: before, c, after, rfl, List.forall_mem_cons.2 ⟨hfirst, hbefore⟩, hillegal⟩

/-- Every text starts with a run of characters of some kind that is as long as possible. -/
theorem exists_run (p : Char → Bool) (cs : List Char) :
    ∃ as rest, cs = as ++ rest ∧ (∀ c ∈ as, p c = true) ∧ ∀ c ∈ rest.head?, p c = false := by
  induction cs with
  | nil => exact ⟨[], [], rfl, nofun, nofun⟩
  | cons c cs ih =>
    cases hc : p c with
    | false => exact ⟨[], c :: cs, rfl, nofun, by simpa using hc⟩
    | true =>
      obtain ⟨as, rest, rfl, has, hrest⟩ := ih
      exact ⟨c :: as, rest, rfl, List.forall_mem_cons.2 ⟨hc, has⟩, hrest⟩

/-- A text that starts with a quote has a string literal in front, or there is a reason why
it has none. -/
theorem exists_literal (cs : List Char) :
    (∃ piece rest, '"' :: cs = Piece.chars piece ++ rest ∧ piece.Legal ∧
        piece.EndsBefore rest) ∨ ∃ e, Rejects ('"' :: cs) e := by
  obtain ⟨items, rest, rfl, hitems, ⟨more, rfl⟩ | hunclosed⟩ := exists_items cs
  · rcases meaning?_cases hitems with hall | ⟨before, c, after, rfl, hbefore, hc, hmeaning, hafter⟩
    · exact .inl ⟨.string items, more, by simp [Piece.chars], hall, trivial⟩
    · exact .inr ⟨_, .escape hbefore hc hmeaning hafter⟩
  · exact .inr ⟨_, .unclosed hitems hunclosed⟩

/-- A text that is not empty has a piece in front, or there is a reason why it has none. -/
theorem exists_piece (c : Char) (cs : List Char) :
    (∃ piece rest, c :: cs = Piece.chars piece ++ rest ∧ piece.Legal ∧ piece.EndsBefore rest) ∨
      ∃ e, Rejects (c :: cs) e := by
  by_cases hsep : Text.isSeparator c = true
  · exact .inl ⟨.separator c, cs, rfl, hsep, trivial⟩
  by_cases hcomment : c = ';'
  · subst hcomment
    obtain ⟨as, rest, rfl, has, hrest⟩ := exists_run (· != '\n') cs
    exact .inl ⟨.comment as, rest, rfl, by simpa [Piece.Legal] using has,
      by simpa [Piece.EndsBefore] using hrest⟩
  by_cases hopening : c = '('
  · subst hopening
    exact .inl ⟨.opening, cs, rfl, trivial, trivial⟩
  by_cases hclosing : c = ')'
  · subst hclosing
    exact .inl ⟨.closing, cs, rfl, trivial, trivial⟩
  by_cases hquote : c = '"'
  · subst hquote
    exact exists_literal cs
  by_cases hblank : Text.isBlank c = true
  · exact .inr ⟨_, .blank cs hblank (Bool.eq_false_iff.2 hsep)⟩
  have hword := Lexer.isWordChar_of_start hblank hopening hclosing hquote hcomment
  obtain ⟨as, rest, rfl, has, hrest⟩ := exists_run Lexer.isWordChar cs
  exact .inl ⟨.word (c :: as), rest, rfl, ⟨by simp, List.forall_mem_cons.2 ⟨hword, has⟩⟩, hrest⟩

/-- Every text is taken apart up to its end, or up to a place where no piece starts. -/
theorem exists_splits (cs : List Char) :
    ∃ pieces rest, Splits cs pieces rest ∧ (rest = [] ∨ ∃ e, Rejects rest e) := by
  induction hlen : cs.length using Nat.strongRecOn generalizing cs with
  | ind n ih =>
    cases cs with
    | nil => exact ⟨[], [], .nil [], .inl rfl⟩
    | cons c cs =>
      rcases exists_piece c cs with ⟨piece, rest, hcs, hlegal, hends⟩ | hrejects
      · obtain ⟨d, ds, hchars, -⟩ := hlegal.exists_startsWith
        have hshorter : rest.length < n := by
          rw [← hlen, hcs, hchars, List.cons_append, List.length_cons, List.length_append]
          omega
        obtain ⟨pieces, last, hsplits, hlast⟩ := ih rest.length hshorter rest rfl
        rw [hcs]
        exact ⟨piece :: pieces, last, .cons hlegal hends hsplits, hlast⟩
      · exact ⟨[], c :: cs, .nil _, .inr hrejects⟩

end Token

/-! ## The lexer -/

namespace Lexer

open Token

/-- The tokens of the whole text, if the lexer goes on in this state over the rest of it. -/
def complete (l : Lexer) (cs : List Char) : Except SyntaxError (List Token) :=
  match l.advanceAll cs with
  | .ok l => l.finish
  | .error e => .error e

theorem complete_cons (l : Lexer) (c : Char) (cs : List Char) :
    l.complete (c :: cs) =
      match l.advance c with
      | .ok l => l.complete cs
      | .error e => .error e := by
  rw [complete, advanceAll]
  cases l.advance c <;> rfl

/-- Characters that the lexer goes over may be left out. -/
theorem complete_append {l l' : Lexer} {cs : List Char} (h : l.advanceAll cs = .ok l')
    (ds : List Char) : l.complete (cs ++ ds) = l'.complete ds := by
  rw [complete, advanceAll_append, h]
  rfl

/-- A word ends before a character that is part of no word. -/
theorem complete_word (taken : List Char) (tokens : List Token) {rest : List Char}
    (hrest : ∀ c ∈ rest.head?, isWordChar c = false) :
    (⟨.word taken, tokens⟩ : Lexer).complete rest =
      (⟨.between, endWord taken :: tokens⟩ : Lexer).complete rest := by
  cases rest with
  | nil => rfl
  | cons c rest =>
    have hstep : (⟨.word taken, tokens⟩ : Lexer).advance c =
        (⟨.between, endWord taken :: tokens⟩ : Lexer).advance c := by
      simp [advance, hrest c rfl]
    rw [complete_cons, complete_cons, hstep]

/-- A comment ends before a line feed. -/
theorem complete_comment (tokens : List Token) {rest : List Char}
    (hrest : ∀ c ∈ rest.head?, c = '\n') :
    (⟨.comment, tokens⟩ : Lexer).complete rest =
      (⟨.between, tokens⟩ : Lexer).complete rest := by
  cases rest with
  | nil => rfl
  | cons c rest =>
    obtain rfl : c = '\n' := hrest c rfl
    rfl

theorem advanceAll_comment (tokens : List Token) {cs : List Char} (hcs : ∀ c ∈ cs, c ≠ '\n') :
    (⟨.comment, tokens⟩ : Lexer).advanceAll cs = .ok ⟨.comment, tokens⟩ := by
  induction cs with
  | nil => rfl
  | cons c cs ih =>
    obtain ⟨hc, hcs⟩ := List.forall_mem_cons.1 hcs
    have hstep : (⟨.comment, tokens⟩ : Lexer).advance c = .ok ⟨.comment, tokens⟩ := by
      simp [advance, hc]
    rw [advanceAll, hstep]
    exact ih hcs

/-- The contents of a literal after one more item. -/
def addItem (contents : Except Char (List Char)) : Item → Except Char (List Char)
  | .plain c => contents.map (c :: ·)
  | .escaped c => addEscape contents c

/-- The lexer goes over the items of a literal. -/
theorem advanceAll_items (tokens : List Token) (taken : List Char)
    (contents : Except Char (List Char)) {items : List Item} (hitems : ∀ i ∈ items, i.Valid) :
    (⟨.string taken contents, tokens⟩ : Lexer).advanceAll (items.flatMap Item.chars) =
      .ok ⟨.string ((items.flatMap Item.chars).reverse ++ taken) (items.foldl addItem contents),
        tokens⟩ := by
  induction items generalizing taken contents with
  | nil => rfl
  | cons i items ih =>
    obtain ⟨hi, hitems⟩ := List.forall_mem_cons.1 hitems
    have hfirst : (⟨.string taken contents, tokens⟩ : Lexer).advanceAll i.chars =
        .ok ⟨.string (i.chars.reverse ++ taken) (addItem contents i), tokens⟩ := by
      cases i with
      | plain c =>
        obtain ⟨hquote, hslash, hline⟩ := hi
        simp [Item.chars, advanceAll, advance, addItem, hquote, hslash, hline]
      | escaped c =>
        have hline : c ≠ '\n' := hi
        simp [Item.chars, advanceAll, advance, addItem, hline]
    rw [List.flatMap_cons, advanceAll_append, hfirst]
    show advanceAll _ _ = _
    rw [ih _ _ hitems, List.reverse_append, List.append_assoc, List.foldl_cons]

/-- Items with a meaning add the characters that they stand for. -/
theorem foldl_addItem {items : List Item} (hitems : ∀ i ∈ items, i.meaning?.isSome)
    (contents : List Char) :
    items.foldl addItem (.ok contents) =
      .ok ((items.filterMap Item.meaning?).reverse ++ contents) := by
  induction items generalizing contents with
  | nil => rfl
  | cons i items ih =>
    obtain ⟨hi, hitems⟩ := List.forall_mem_cons.1 hitems
    obtain ⟨d, hd⟩ := Option.isSome_iff_exists.1 hi
    have hfirst : addItem (.ok contents) i = .ok (d :: contents) := by
      cases i with
      | plain c =>
        cases hd
        rfl
      | escaped c =>
        have hmeaning : unescape? c = some d := hd
        simp [addItem, addEscape, hmeaning]
    rw [List.foldl_cons, hfirst, ih hitems, List.filterMap_cons_some hd, List.reverse_cons,
      List.append_assoc, List.singleton_append]

/-- An escape without a meaning is kept as the error. -/
theorem foldl_addItem_error (items : List Item) (c : Char) :
    items.foldl addItem (.error c) = .error c := by
  induction items with
  | nil => rfl
  | cons i items ih =>
    have hfirst : addItem (.error c) i = .error c := by cases i <;> rfl
    rw [List.foldl_cons, hfirst, ih]

/-- The first item without a meaning is the error of a literal. -/
theorem foldl_addItem_append {before : List Item} (hbefore : ∀ i ∈ before, i.meaning?.isSome)
    {c : Char} (hc : unescape? c = none) (after : List Item) (contents : List Char) :
    (before ++ .escaped c :: after).foldl addItem (.ok contents) = .error c := by
  rw [List.foldl_append, foldl_addItem hbefore, List.foldl_cons]
  have hfirst : ∀ cs, addItem (.ok cs) (.escaped c) = .error c := by
    intro cs
    simp [addItem, addEscape, hc]
  rw [hfirst, foldl_addItem_error]

/-- The lexer goes over a piece and notes its token. -/
theorem complete_piece (tokens : List Token) {piece : Piece} {rest : List Char}
    (hlegal : piece.Legal) (hends : piece.EndsBefore rest) :
    (⟨.between, tokens⟩ : Lexer).complete (piece.chars ++ rest) =
      (⟨.between, piece.token?.toList ++ tokens⟩ : Lexer).complete rest := by
  cases piece with
  | separator c =>
    have hsep : Text.isSeparator c = true := hlegal
    refine complete_append ?_ rest
    simp [Piece.chars, Piece.token?, advanceAll, advance, start, hsep]
  | comment cs =>
    have hrun : (⟨.between, tokens⟩ : Lexer).advanceAll (';' :: cs) = .ok ⟨.comment, tokens⟩ :=
      advanceAll_comment tokens hlegal
    rw [Piece.chars, complete_append hrun]
    exact complete_comment tokens hends
  | opening => exact complete_append rfl rest
  | closing => exact complete_append rfl rest
  | string items =>
    have hitems := advanceAll_items tokens [] (.ok []) fun i hi => (hlegal i hi).1
    have hstart : (⟨.between, tokens⟩ : Lexer).advance '"' = .ok ⟨.string [] (.ok []), tokens⟩ :=
      rfl
    refine complete_append ?_ rest
    rw [Piece.chars, advanceAll, hstart]
    dsimp only
    rw [advanceAll_append, hitems, foldl_addItem fun i hi => (hlegal i hi).2]
    simp [Except.bind, advanceAll, advance, Piece.token?]
  | word cs =>
    obtain ⟨hne, hcs⟩ := hlegal
    obtain ⟨c, cs, rfl⟩ := List.exists_cons_of_ne_nil hne
    obtain ⟨hc, hcs⟩ := List.forall_mem_cons.1 hcs
    have hrun : (⟨.between, tokens⟩ : Lexer).advanceAll (c :: cs) =
        .ok ⟨.word (cs.reverse ++ [c]), tokens⟩ := by
      rw [advanceAll, advance, start_of_isWordChar tokens hc]
      exact advanceAll_wordChars tokens [c] hcs
    rw [Piece.chars, complete_append hrun, complete_word _ _ hends]
    simp [Piece.token?, endWord]

/-- The lexer goes over all pieces in front of a text. -/
theorem complete_splits {cs rest : List Char} {pieces : List Piece} (h : Splits cs pieces rest)
    (tokens : List Token) :
    (⟨.between, tokens⟩ : Lexer).complete cs =
      (⟨.between, (pieces.filterMap Piece.token?).reverse ++ tokens⟩ : Lexer).complete rest := by
  induction h generalizing tokens with
  | nil => rfl
  | @cons piece cs rest pieces hlegal hends _ ih =>
    rw [complete_piece tokens hlegal hends, ih]
    cases hpiece : piece.token? <;> simp [hpiece]

/-- A literal that is not closed is an error with its text. -/
theorem complete_unclosed (taken : List Char) (contents : Except Char (List Char))
    (tokens : List Token) {rest : List Char} (h : Unclosed rest) :
    (⟨.string taken contents, tokens⟩ : Lexer).complete rest = .error (unterminated taken) := by
  cases h <;> rfl

/-- Where no piece starts, the lexer gives the reason. -/
theorem complete_of_rejects {cs : List Char} {e : SyntaxError} (h : Rejects cs e)
    (tokens : List Token) : (⟨.between, tokens⟩ : Lexer).complete cs = .error e := by
  have hquote : ∀ cs, (⟨.between, tokens⟩ : Lexer).complete ('"' :: cs) =
      (⟨.string [] (.ok []), tokens⟩ : Lexer).complete cs := fun _ => rfl
  cases h with
  | @blank c rest hblank hseparator =>
    have hne : c ≠ ';' ∧ c ≠ '(' ∧ c ≠ ')' ∧ c ≠ '"' := by
      refine ⟨?_, ?_, ?_, ?_⟩ <;> rintro rfl <;> exact absurd hblank (by decide)
    have hstep : (⟨.between, tokens⟩ : Lexer).advance c =
        .error (.unexpectedInput (String.singleton c)) := by
      simp [advance, start, hseparator, hne, hblank]
    rw [complete_cons, hstep]
  | unclosed hitems hrest =>
    rw [hquote, complete_append (advanceAll_items tokens [] (.ok []) hitems),
      complete_unclosed _ _ _ hrest, unterminated, List.append_nil, List.reverse_reverse]
  | @escape before after c rest hbefore hc hmeaning hafter =>
    have hvalid := valid_append_escaped hbefore hc hafter
    rw [hquote, complete_append (advanceAll_items tokens [] (.ok []) hvalid),
      foldl_addItem_append (fun i hi => (hbefore i hi).2) hmeaning, complete_cons]
    simp [advance]

end Lexer

/-! ## Escapes -/

namespace Token

/-- Undoes the escapes of a string literal, from left to right.  The error is the character
behind the first backslash that has no meaning, or nothing if a backslash is the last
character. -/
def unescape : List Char → Except (Option Char) (List Char)
  | [] => .ok []
  | ['\\'] => .error none
  | '\\' :: c :: cs =>
    match unescape? c with
    | some d => (unescape cs).map (d :: ·)
    | none => .error (some c)
  | c :: cs => (unescape cs).map (c :: ·)

theorem unescape_item_append {i : Item} (hi : i.Valid) (cs : List Char) :
    unescape (i.chars ++ cs) =
      match i with
      | .plain c => (unescape cs).map (c :: ·)
      | .escaped c =>
        match unescape? c with
        | some d => (unescape cs).map (d :: ·)
        | none => .error (some c) := by
  cases i with
  | plain c =>
    obtain ⟨-, hslash, -⟩ := hi
    show unescape (c :: cs) = _
    rw [unescape]
    · exact fun h _ => hslash h
    · exact fun d ds h _ => hslash h
  | escaped c =>
    show unescape ('\\' :: c :: cs) = _
    rw [unescape]

/-- Items with a meaning are what is left when their escapes are undone. -/
theorem unescape_items_append {items : List Item}
    (hitems : ∀ i ∈ items, i.Valid ∧ i.meaning?.isSome) (cs : List Char) :
    unescape (items.flatMap Item.chars ++ cs) =
      (unescape cs).map (items.filterMap Item.meaning? ++ ·) := by
  induction items with
  | nil => cases h : unescape cs <;> simp [Except.map, h]
  | cons i items ih =>
    obtain ⟨⟨hvalid, hsome⟩, hitems⟩ := List.forall_mem_cons.1 hitems
    obtain ⟨d, hd⟩ := Option.isSome_iff_exists.1 hsome
    rw [List.flatMap_cons, List.append_assoc, unescape_item_append hvalid, ih hitems,
      List.filterMap_cons_some hd]
    cases i with
    | plain c =>
      cases hd
      cases unescape cs <;> rfl
    | escaped c =>
      have hmeaning : unescape? c = some d := hd
      simp only [hmeaning]
      cases unescape cs <;> rfl

/-- The escapes of a literal are undone, or the lexer gives the error.  A literal does not end
with a lone backslash. -/
theorem unescape_cases {items : List Item} (hitems : ∀ i ∈ items, i.Valid) (rest : List Char) :
    (Piece.Legal (.string items) ∧
        unescape (items.flatMap Item.chars) = .ok (items.filterMap Item.meaning?)) ∨
      ∃ c, unescape (items.flatMap Item.chars) = .error (some c) ∧
        Rejects ('"' :: (items.flatMap Item.chars ++ '"' :: rest)) (.illegalEscape c) := by
  rcases meaning?_cases hitems with hall | ⟨before, c, after, rfl, hbefore, hc, hmeaning, hafter⟩
  · have hmeaning := unescape_items_append hall []
    rw [List.append_nil] at hmeaning
    refine .inl ⟨hall, hmeaning.trans ?_⟩
    simp [unescape, Except.map]
  · refine .inr ⟨c, ?_, .escape hbefore hc hmeaning hafter⟩
    have hescaped : (Item.escaped c).Valid := hc
    rw [List.flatMap_append, unescape_items_append hbefore, List.flatMap_cons,
      unescape_item_append hescaped]
    simp [hmeaning, Except.map]

/-! ## The result -/

theorem lex_of_splits {text : String} {pieces : List Piece} {rest : List Char}
    (h : Splits text.toList pieces rest) :
    lex text =
      (⟨.between, (pieces.filterMap Piece.token?).reverse⟩ : Lexer).complete rest := by
  have hrun := Lexer.complete_splits h []
  rw [List.append_nil] at hrun
  exact hrun

theorem lex_of_splits_nil {text : String} {pieces : List Piece}
    (h : Splits text.toList pieces []) : lex text = .ok (pieces.filterMap Piece.token?) := by
  rw [lex_of_splits h]
  show Except.ok (List.reverse _) = _
  rw [List.reverse_reverse]

theorem lex_of_rejects {text : String} {pieces : List Piece} {rest : List Char} {e : SyntaxError}
    (h : Splits text.toList pieces rest) (hrest : Rejects rest e) : lex text = .error e := by
  rw [lex_of_splits h, Lexer.complete_of_rejects hrest]

/-- The lexer implements the grammar of tokens.  It gives tokens if and only if the text is
taken apart into pieces, and they are the tokens of these pieces.  In every other case the
text is taken apart up to a place where no piece starts, and the error is the reason for this.
There is only one way to take a text apart as far as possible.  Behind such pieces, a literal
that is closed is either one more piece, with its escapes undone, or its first escape without
a meaning is the error; a lone backslash is never met at the end of a literal. -/
theorem lex_iff_splits (text : String) :
    (∀ ts, lex text = .ok ts ↔
      ∃ pieces, Splits text.toList pieces [] ∧ pieces.filterMap Piece.token? = ts) ∧
    (∀ e, lex text = .error e ↔
      ∃ pieces rest, Splits text.toList pieces rest ∧ Rejects rest e) ∧
    (Stuck [] ∧ ∀ rest e, Rejects rest e → Stuck rest) ∧
    (∀ pieces pieces' rest rest', Splits text.toList pieces rest →
      Splits text.toList pieces' rest' → Stuck rest → Stuck rest' →
        pieces = pieces' ∧ rest = rest') ∧
    ∀ pieces items rest,
      Splits text.toList pieces ('"' :: (items.flatMap Item.chars ++ '"' :: rest)) →
      (∀ i ∈ items, i.Valid) →
        match unescape (items.flatMap Item.chars) with
        | .ok contents =>
          Splits text.toList (pieces ++ [.string items]) rest ∧
            Piece.token? (.string items) = some (.string (String.ofList contents))
        | .error (some c) => lex text = .error (.illegalEscape c)
        | .error none => False := by
  obtain ⟨pieces, rest, hsplits, hrest⟩ := exists_splits text.toList
  refine ⟨fun ts => ⟨fun hlex => ?_, ?_⟩, fun e => ⟨fun hlex => ?_, ?_⟩,
    ⟨stuck_nil, fun rest e h => h.stuck⟩,
    fun _ _ _ _ h h' hstuck hstuck' => h.unique h' hstuck hstuck',
    fun before items more h hitems => ?_⟩
  · obtain rfl | ⟨e, he⟩ := hrest
    · rw [lex_of_splits_nil hsplits] at hlex
      exact ⟨pieces, hsplits, Except.ok.inj hlex⟩
    · rw [lex_of_rejects hsplits he] at hlex
      cases hlex
  · rintro ⟨pieces', hsplits', rfl⟩
    exact lex_of_splits_nil hsplits'
  · obtain rfl | ⟨e', he⟩ := hrest
    · rw [lex_of_splits_nil hsplits] at hlex
      cases hlex
    · rw [lex_of_rejects hsplits he] at hlex
      cases hlex
      exact ⟨pieces, rest, hsplits, he⟩
  · rintro ⟨pieces', rest', hsplits', he⟩
    exact lex_of_rejects hsplits' he
  · rcases unescape_cases hitems more with ⟨hlegal, hcontents⟩ | ⟨c, herror, hrejects⟩
    · have hpiece : Splits ('"' :: (items.flatMap Item.chars ++ '"' :: more)) [.string items]
          more := by
        have hone : Splits ((Piece.string items).chars ++ more) [.string items] more :=
          .cons hlegal trivial (.nil more)
        rwa [Piece.chars, List.cons_append, List.append_assoc] at hone
      rw [hcontents]
      exact ⟨h.append hpiece, rfl⟩
    · rw [herror]
      exact lex_of_rejects h hrejects

/-- A literal with an escape, behind a comment, is a piece, and the literal `"\q"` behind it
is an error. -/
theorem lex_iff_splits_escape :
    ∃ pieces, Splits "(a;b\n\"x\\n\" \"\\q\"".toList pieces "\"\\q\"".toList ∧
      pieces.filterMap Piece.token? = [.opening, .word "a", .string "x\n"] ∧
      lex "(a;b\n\"x\\n\" \"\\q\"" = .error (.illegalEscape 'q') := by
  have hopening : Piece.opening.Legal := trivial
  have hword : (Piece.word ['a']).Legal := ⟨by simp, List.all_eq_true.1 rfl⟩
  have hcomment : (Piece.comment ['b']).Legal := by simp [Piece.Legal]
  have hline : (Piece.separator '\n').Legal := rfl
  have hstring : (Piece.string [.plain 'x', .escaped 'n']).Legal := by
    simp [Piece.Legal, Item.Valid, Item.meaning?, unescape?]
  have hspace : (Piece.separator ' ').Legal := rfl
  have hsplits : Splits
      ['(', 'a', ';', 'b', '\n', '"', 'x', '\\', 'n', '"', ' ', '"', '\\', 'q', '"']
      [.opening, .word ['a'], .comment ['b'], .separator '\n',
        .string [.plain 'x', .escaped 'n'], .separator ' '] ['"', '\\', 'q', '"'] :=
    .cons hopening trivial (.cons hword (fun c hc => by cases hc; rfl)
      (.cons hcomment (fun c hc => by cases hc; rfl)
        (.cons hline trivial (.cons hstring trivial (.cons hspace trivial (.nil _))))))
  exact ⟨_, hsplits, rfl, (lex_iff_splits _).2.2.2.2 _ [.escaped 'q'] [] hsplits (by decide)⟩

end Token

end StackScheme
