import StackScheme.Token

/-!
# The lexer and written tokens

What the lexer does with texts that are put together from parts.

* Earlier tokens.  Tokens that are complete do not matter to the lexer, so that
  `Lexer.above` may put any tokens below those of a state.
* Lines.  A line feed ends the text before it: `Lexer.advance_newline` says that
  the lexer goes on behind a line feed as it would have ended there, and
  `Token.lex_append_newline` that a text is lexed line by line.
* Lexable tokens.  `Token.Lexable` are the tokens that the lexer makes.
* Writing.  `Lexer.after` is the state of the lexer behind a list of written
  tokens, and `Token.lex_unlex` says that lexing undoes writing.
-/

namespace StackScheme

namespace Lexer

/-! ## Earlier tokens -/

/-- The state with more tokens before its own. -/
def above (l : Lexer) (before : List Token) : Lexer :=
  ⟨l.mode, l.tokens ++ before⟩

theorem start_append (tokens before : List Token) (c : Char) :
    start (tokens ++ before) c = (start tokens c).map (above · before) := by
  unfold start
  repeat' split
  all_goals rfl

/-- A step does not look at the tokens before. -/
theorem advance_above (l : Lexer) (before : List Token) (c : Char) :
    (l.above before).advance c = (l.advance c).map (above · before) := by
  obtain ⟨mode, tokens⟩ := l
  cases mode with
  | between => exact start_append tokens before c
  | comment => rfl
  | word taken =>
    show (if isWordChar c then _ else start (endWord taken :: (tokens ++ before)) c) = _
    rw [← List.cons_append, start_append]
    by_cases hc : isWordChar c = true <;> simp [advance, hc, above, Except.map]
  | string taken contents =>
    by_cases hquote : c = '"'
    · cases contents <;> simp [advance, above, hquote, Except.map]
    · by_cases hslash : c = '\\'
      · simp [advance, above, hslash, Except.map]
      · by_cases hline : c = '\n' <;> simp [advance, above, hquote, hslash, hline, Except.map]
  | escape taken contents =>
    by_cases hline : c = '\n' <;> simp [advance, above, hline, Except.map]

theorem advanceAll_above (l : Lexer) (before : List Token) (cs : List Char) :
    (l.above before).advanceAll cs = (l.advanceAll cs).map (above · before) := by
  induction cs generalizing l with
  | nil => rfl
  | cons c cs ih =>
    rw [advanceAll, advanceAll, advance_above]
    cases l.advance c with
    | ok l' => exact ih l'
    | error e => rfl

theorem finish_above (l : Lexer) (before : List Token) :
    (l.above before).finish = l.finish.map (before.reverse ++ ·) := by
  obtain ⟨mode, tokens⟩ := l
  cases mode <;> simp [finish, above, Except.map]

/-! ## Lines -/

/-- A line feed ends what the lexer is in the middle of, as the end of the text
would. -/
theorem advance_newline (l : Lexer) :
    l.advance '\n' = l.finish.map fun ts => ⟨.between, ts.reverse⟩ := by
  obtain ⟨mode, tokens⟩ := l
  have hstart : ∀ tokens : List Token, start tokens '\n' = .ok ⟨.between, tokens⟩ := fun _ => rfl
  have hword : isWordChar '\n' = false := by decide
  cases mode with
  | between => simp [advance, hstart, finish, Except.map]
  | comment => simp [advance, finish, Except.map]
  | word taken => simp [advance, hstart, hword, finish, Except.map]
  | string taken contents => simp [advance, finish, Except.map]
  | escape taken contents => simp [advance, finish, Except.map]

end Lexer

/-- The tokens of two parts of a text that a line feed divides are the tokens of
the first part and those of the second one.  An error of the first part comes
first. -/
theorem Token.lex_append_newline (a b : String) :
    lex (a ++ "\n" ++ b) =
      match lex a, lex b with
      | .error e, _ => .error e
      | .ok _, .error e => .error e
      | .ok ts, .ok us => .ok (ts ++ us) := by
  have htext : (a ++ "\n" ++ b).toList = a.toList ++ '\n' :: b.toList := by
    simp
  rw [lex, htext, Lexer.advanceAll_append, lex]
  cases ({} : Lexer).advanceAll a.toList with
  | error e => rfl
  | ok l =>
    have hbind : (Except.ok l).bind (fun l => l.advanceAll ('\n' :: b.toList)) =
        l.advanceAll ('\n' :: b.toList) := rfl
    rw [hbind, Lexer.advanceAll, Lexer.advance_newline]
    dsimp only
    cases l.finish with
    | error e => rfl
    | ok ts =>
      have hstate : (Except.ok ts).map (fun ts => (⟨.between, ts.reverse⟩ : Lexer)) =
          (.ok (Lexer.above {} ts.reverse) : Except SyntaxError Lexer) := rfl
      rw [hstate]
      dsimp only
      rw [Lexer.advanceAll_above, lex]
      cases ({} : Lexer).advanceAll b.toList with
      | error e => rfl
      | ok l' =>
        show (l'.above ts.reverse).finish = _
        rw [Lexer.finish_above, List.reverse_reverse]
        dsimp only
        cases l'.finish <;> rfl

/-! ## Lexable tokens -/

/-- The characters make up a word. -/
def Lexer.IsWord (cs : List Char) : Prop :=
  cs ≠ [] ∧ ∀ c ∈ cs, isWordChar c = true

/-- A token that the lexer can make: words are not empty and have no characters
of other tokens in them. -/
def Token.Lexable : Token → Prop
  | .word w => Lexer.IsWord w.toList
  | _ => True

namespace Lexer

/-- Everything that the lexer has made so far is lexable. -/
def Proper (l : Lexer) : Prop :=
  (∀ t ∈ l.tokens, t.Lexable) ∧ ∀ taken, l.mode = .word taken → IsWord taken

theorem lexable_endWord {taken : List Char} (h : IsWord taken) : (endWord taken).Lexable := by
  show IsWord (String.ofList taken.reverse).toList
  rw [String.toList_ofList]
  refine ⟨?_, fun c hc => h.2 c (List.mem_reverse.1 hc)⟩
  rw [ne_eq, List.reverse_eq_nil_iff]
  exact h.1

theorem isWordChar_of_start {c : Char} (hblank : Text.isBlank c ≠ true) (hopening : c ≠ '(')
    (hclosing : c ≠ ')') (hquote : c ≠ '"') (hcomment : c ≠ ';') : isWordChar c = true := by
  simp [isWordChar, hblank, hopening, hclosing, hquote, hcomment]

theorem proper_start {tokens : List Token} (h : ∀ t ∈ tokens, t.Lexable) {c : Char} {l : Lexer}
    (hstart : start tokens c = .ok l) : l.Proper := by
  have hcons : ∀ t : Token, t.Lexable → ∀ u ∈ t :: tokens, u.Lexable := by
    intro t ht u hu
    rcases List.mem_cons.1 hu with rfl | hu
    · exact ht
    · exact h u hu
  unfold start at hstart
  split at hstart
  · cases hstart
    exact ⟨h, by simp⟩
  split at hstart
  · cases hstart
    exact ⟨h, by simp⟩
  split at hstart
  · cases hstart
    exact ⟨hcons .opening trivial, by simp⟩
  split at hstart
  · cases hstart
    exact ⟨hcons .closing trivial, by simp⟩
  split at hstart
  · cases hstart
    exact ⟨h, by simp⟩
  split at hstart
  · cases hstart
  · rename_i hcomment hopening hclosing hquote hblank
    cases hstart
    have hc := isWordChar_of_start hblank hopening hclosing hquote hcomment
    refine ⟨h, fun taken htaken => ?_⟩
    cases htaken
    exact ⟨by simp, by simpa using hc⟩

/-- Every step of the lexer keeps its tokens lexable. -/
theorem Proper.advance {l l' : Lexer} (h : l.Proper) {c : Char} (hstep : l.advance c = .ok l') :
    l'.Proper := by
  obtain ⟨mode, tokens⟩ := l
  obtain ⟨htokens, hmode⟩ := h
  cases mode with
  | between => exact proper_start htokens hstep
  | comment =>
    cases hstep
    refine ⟨htokens, fun taken htaken => ?_⟩
    dsimp only at htaken
    split at htaken <;> cases htaken
  | word taken =>
    have hword := hmode taken rfl
    simp only [Lexer.advance] at hstep
    split at hstep
    · rename_i hc
      cases hstep
      refine ⟨htokens, fun taken' htaken => ?_⟩
      cases htaken
      refine ⟨by simp, fun d hd => ?_⟩
      rcases List.mem_cons.1 hd with rfl | hd
      · exact hc
      · exact hword.2 d hd
    · refine proper_start ?_ hstep
      exact List.forall_mem_cons.2 ⟨lexable_endWord hword, htokens⟩
  | string taken contents =>
    simp only [Lexer.advance] at hstep
    split at hstep
    · cases contents with
      | error first => cases hstep
      | ok cs =>
        cases hstep
        exact ⟨List.forall_mem_cons.2 ⟨trivial, htokens⟩, by simp⟩
    split at hstep
    · cases hstep
      exact ⟨htokens, by simp⟩
    split at hstep
    · cases hstep
    · cases hstep
      exact ⟨htokens, by simp⟩
  | escape taken contents =>
    simp only [Lexer.advance] at hstep
    split at hstep
    · cases hstep
    · cases hstep
      exact ⟨htokens, by simp⟩

theorem Proper.advanceAll {l l' : Lexer} (h : l.Proper) {cs : List Char}
    (hrun : l.advanceAll cs = .ok l') : l'.Proper := by
  induction cs generalizing l with
  | nil =>
    cases hrun
    exact h
  | cons c cs ih =>
    rw [Lexer.advanceAll] at hrun
    cases hstep : l.advance c with
    | ok next =>
      rw [hstep] at hrun
      exact ih (h.advance hstep) hrun
    | error e =>
      rw [hstep] at hrun
      cases hrun

theorem Proper.finish {l : Lexer} (h : l.Proper) {ts : List Token} (hend : l.finish = .ok ts) :
    ∀ t ∈ ts, t.Lexable := by
  obtain ⟨mode, tokens⟩ := l
  obtain ⟨htokens, hmode⟩ := h
  cases mode with
  | between | comment =>
    cases hend
    exact fun t ht => htokens t (List.mem_reverse.1 ht)
  | word taken =>
    cases hend
    intro t ht
    rcases List.mem_cons.1 (List.mem_reverse.1 ht) with rfl | ht
    · exact lexable_endWord (hmode taken rfl)
    · exact htokens t ht
  | string taken contents => cases hend
  | escape taken contents => cases hend

end Lexer

/-- The lexer makes lexable tokens. -/
theorem Token.lexable_of_lex {text : String} {ts : List Token} (h : lex text = .ok ts) :
    ∀ t ∈ ts, t.Lexable := by
  rw [lex] at h
  have hstart : ({} : Lexer).Proper := ⟨by simp, by simp⟩
  cases hrun : ({} : Lexer).advanceAll text.toList with
  | error e =>
    rw [hrun] at h
    cases h
  | ok l =>
    rw [hrun] at h
    exact (hstart.advanceAll hrun).finish h

/-! ## Writing -/

namespace Lexer

/-- The state behind the written tokens `done`, the newest first.  A word does
not end before the next character. -/
def after : (done : List Token) → Lexer
  | .word w :: rest => ⟨.word w.toList.reverse, rest⟩
  | done => ⟨.between, done⟩

theorem finish_after (done : List Token) : (after done).finish = .ok done.reverse := by
  cases done with
  | nil => rfl
  | cons t rest =>
    cases t with
    | word w => simp [after, finish, endWord]
    | _ => rfl

/-- A character that is part of no word ends the word before it. -/
theorem advance_after (done : List Token) {c : Char} (hc : isWordChar c = false) :
    (after done).advance c = start done c := by
  cases done with
  | nil => rfl
  | cons t rest =>
    cases t with
    | word w => simp [after, advance, hc, endWord]
    | _ => rfl

theorem advanceAll_wordChars (tokens : List Token) (taken : List Char) {cs : List Char}
    (hcs : ∀ c ∈ cs, isWordChar c = true) :
    (⟨.word taken, tokens⟩ : Lexer).advanceAll cs = .ok ⟨.word (cs.reverse ++ taken), tokens⟩ := by
  induction cs generalizing taken with
  | nil => rfl
  | cons c cs ih =>
    obtain ⟨hc, hcs⟩ := List.forall_mem_cons.1 hcs
    have hstep : (⟨.word taken, tokens⟩ : Lexer).advance c = .ok ⟨.word (c :: taken), tokens⟩ := by
      simp [advance, hc]
    rw [advanceAll, hstep]
    dsimp only
    rw [ih (c :: taken) hcs]
    simp

/-- A word starts with its first character. -/
theorem start_of_isWordChar (tokens : List Token) {c : Char} (hc : isWordChar c = true) :
    start tokens c = .ok ⟨.word [c], tokens⟩ := by
  simp only [isWordChar, Bool.and_eq_true, Bool.not_eq_true', bne_iff_ne, ne_eq] at hc
  obtain ⟨⟨⟨⟨hblank, hopening⟩, hclosing⟩, hquote⟩, hcomment⟩ := hc
  have hseparator : Text.isSeparator c = false := by
    cases hs : Text.isSeparator c with
    | false => rfl
    | true =>
      rw [Text.isBlank_of_isSeparator hs] at hblank
      cases hblank
  simp [start, hseparator, hcomment, hopening, hclosing, hquote, hblank]

/-- The written form of one character of a string is read as that character. -/
theorem advanceAll_escape (tokens : List Token) (taken cs : List Char) (c : Char) :
    ∃ taken', (⟨.string taken (.ok cs), tokens⟩ : Lexer).advanceAll (Token.escape c) =
      .ok ⟨.string taken' (.ok (c :: cs)), tokens⟩ := by
  rcases Token.escape_cases c with ⟨d, hescape, hd⟩ | ⟨hescape, hquote, hslash, hline⟩
  · have hline : d ≠ '\n' := by
      rintro rfl
      simp [Token.unescape?] at hd
    refine ⟨d :: '\\' :: taken, ?_⟩
    rw [hescape]
    simp [advanceAll, advance, hline, addEscape, hd]
  · refine ⟨c :: taken, ?_⟩
    rw [hescape]
    simp [advanceAll, advance, hquote, hslash, hline, Except.map]

theorem advanceAll_escapes (tokens : List Token) (taken cs ds : List Char) :
    ∃ taken', (⟨.string taken (.ok cs), tokens⟩ : Lexer).advanceAll (ds.flatMap Token.escape) =
      .ok ⟨.string taken' (.ok (ds.reverse ++ cs)), tokens⟩ := by
  induction ds generalizing taken cs with
  | nil => exact ⟨taken, rfl⟩
  | cons d ds ih =>
    obtain ⟨taken', hfirst⟩ := advanceAll_escape tokens taken cs d
    obtain ⟨taken'', hrest⟩ := ih taken' (d :: cs)
    refine ⟨taken'', ?_⟩
    rw [List.flatMap_cons, advanceAll_append, hfirst]
    show advanceAll _ _ = _
    rw [hrest, List.reverse_cons, List.append_assoc, List.singleton_append]

/-- The text of a token is read as the token. -/
theorem advanceAll_text (done : List Token) {t : Token} (ht : t.Lexable) :
    (⟨.between, done⟩ : Lexer).advanceAll t.text.toList = .ok (after (t :: done)) := by
  cases t with
  | opening => rfl
  | closing => rfl
  | word w =>
    obtain ⟨hne, hchars⟩ := ht
    show advanceAll _ w.toList = .ok ⟨.word w.toList.reverse, done⟩
    cases hw : w.toList with
    | nil => exact absurd hw hne
    | cons c cs =>
      rw [hw] at hchars
      obtain ⟨hc, hcs⟩ := List.forall_mem_cons.1 hchars
      have hstep : (⟨.between, done⟩ : Lexer).advance c = .ok ⟨.word [c], done⟩ :=
        start_of_isWordChar done hc
      rw [advanceAll, hstep]
      dsimp only
      rw [advanceAll_wordChars done [c] hcs, List.reverse_cons]
  | string contents =>
    obtain ⟨taken, hrun⟩ := advanceAll_escapes done [] [] contents.toList
    have htext : (Token.string contents).text.toList =
        '"' :: (contents.toList.flatMap Token.escape ++ ['"']) := by
      simp [Token.text, Token.quoted]
    have hstep : (⟨.between, done⟩ : Lexer).advance '"' = .ok ⟨.string [] (.ok []), done⟩ := rfl
    rw [htext, advanceAll, hstep]
    dsimp only
    rw [advanceAll_append, hrun]
    simp [Except.bind, advanceAll, advance, after]

/-- One more written token is one more token that was read. -/
theorem advanceAll_write (done : List Token) {t : Token} (ht : t.Lexable) {written : String}
    (hwritten : ({} : Lexer).advanceAll written.toList = .ok (after done)) :
    ({} : Lexer).advanceAll (Token.write written done.head? t).toList =
      .ok (after (t :: done)) := by
  have htext := advanceAll_text done ht
  have hspace : (after done).advance ' ' = .ok ⟨.between, done⟩ := advance_after done (by decide)
  have hclose : (after done).advance ')' = .ok ⟨.between, .closing :: done⟩ :=
    advance_after done (by decide)
  -- Behind a space the lexer is between two tokens.
  have hspaced : ({} : Lexer).advanceAll (written ++ " " ++ t.text).toList =
      .ok (after (t :: done)) := by
    have hchars : (written ++ " " ++ t.text).toList =
        written.toList ++ ' ' :: t.text.toList := by simp
    rw [hchars, advanceAll_append, hwritten]
    show advanceAll _ (' ' :: t.text.toList) = _
    rw [advanceAll, hspace]
    exact htext
  cases done with
  | nil =>
    show advanceAll _ (written ++ t.text).toList = _
    rw [String.toList_append, advanceAll_append, hwritten]
    exact htext
  | cons previous rest =>
    cases hs : previous.spaced t with
    | true =>
      simp only [Token.write, List.head?_cons, hs, if_true]
      exact hspaced
    | false =>
      simp only [Token.write, List.head?_cons, hs, Bool.false_eq_true, if_false]
      rw [String.toList_append, advanceAll_append, hwritten]
      show advanceAll _ t.text.toList = _
      cases previous with
      | opening => exact htext
      | _ =>
        cases t with
        | closing =>
          show advanceAll _ [')'] = _
          rw [advanceAll, hclose]
          rfl
        | _ => cases hs

end Lexer

namespace Token

theorem advanceAll_writeAll (done : List Token) {ts : List Token} (hts : ∀ t ∈ ts, t.Lexable)
    {written : String} (hwritten : ({} : Lexer).advanceAll written.toList = .ok (.after done)) :
    ({} : Lexer).advanceAll (writeAll written done.head? ts).toList =
      .ok (.after (ts.reverse ++ done)) := by
  induction ts generalizing done written with
  | nil => exact hwritten
  | cons t ts ih =>
    obtain ⟨ht, hts⟩ := List.forall_mem_cons.1 hts
    have hrest := ih (t :: done) hts (Lexer.advanceAll_write done ht hwritten)
    rw [writeAll, List.reverse_cons, List.append_assoc, List.singleton_append]
    exact hrest

/-- Lexing undoes writing. -/
theorem lex_unlex {ts : List Token} (hts : ∀ t ∈ ts, t.Lexable) : lex (unlex ts) = .ok ts := by
  have hstart : ({} : Lexer).advanceAll "".toList = .ok (.after []) := rfl
  have hrun := advanceAll_writeAll [] hts hstart
  rw [List.append_nil, List.head?_nil] at hrun
  rw [lex, unlex, hrun]
  dsimp only
  rw [Lexer.finish_after, List.reverse_reverse]

end Token

end StackScheme
