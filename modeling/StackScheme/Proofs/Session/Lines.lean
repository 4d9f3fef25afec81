import StackScheme.Proofs.Reader.Splitting
import StackScheme.Proofs.Session.Requests
import StackScheme.Proofs.Token.Lexing

/-!
# Feeding a text line by line

A session that gets a text line by line does what it does with the whole text,
unless something in the text cannot be read.

* Draining.  `Session.drainAll` evaluates all that waits.  `drainAll_eq` is its
  equation without fuel.
* More tokens.  `drainAll_addPending` says that tokens behind those that wait may
  be added before draining or after it.
* Lines.  `Session.feedAll` feeds the pieces of a text one after the other, and
  `feedAll_eq_feed` compares this with the whole text.
* Sessions.  `Reachable.waits` says that no expression is left to evaluate
  between two requests, and `lines_agree` is the result for such sessions.
-/

namespace StackScheme.Session

/-! ## Draining -/

/-- The session with other tokens waiting. -/
def withPending (session : Session) (ts : List Token) : Session :=
  { session with reader := ⟨ts⟩ }

/-- The session with more tokens waiting. -/
def addPending (session : Session) (ts : List Token) : Session :=
  session.withPending (session.reader.pending ++ ts)

/-- Evaluates all expressions that wait. -/
def drainAll (budget : Nat) (session : Session) : Option (List Result × Session) :=
  session.drain budget session.reader.pending.length []

/-- An evaluation does not look at the tokens that wait, and leaves them. -/
theorem evaluateRoot_withPending (budget : Nat) (session : Session) (ts : List Token)
    (root : NodeId) :
    (session.withPending ts).evaluateRoot budget root =
      (session.evaluateRoot budget root).map fun (result, next) =>
        (result, next.withPending ts) :=
  evaluateRoot_withReader budget session ⟨ts⟩ root

/-- Fewer tokens wait after an expression was read and evaluated. -/
theorem length_lt_of_evaluateRoot {budget : Nat} {session next : Session} {root : NodeId}
    {result : Result} (hroot : (session.reader.read session.arena).root = .ok (some root))
    (hrun : session.afterOwnRead.evaluateRoot budget root = some (result, next)) :
    next.reader.pending.length < session.reader.pending.length := by
  have hreader : next.reader = (session.reader.read session.arena).reader :=
    (kept_of_evaluateRoot hrun).2.1
  rw [hreader]
  exact Reader.length_pending_lt hroot

theorem afterOwnRead_of_waits {session : Session} (h : session.reader.Waits) :
    session.afterOwnRead = session := by
  rw [afterOwnRead, h]

/-- Results that are there already stay in front. -/
theorem drain_done (budget fuel : Nat) (session : Session) (done : List Result) :
    session.drain budget fuel done =
      (session.drain budget fuel []).map fun (results, next) =>
        (done.reverse ++ results, next) := by
  induction fuel generalizing session done with
  | zero => simp [drain]
  | succ fuel ih =>
    rw [drain_succ, drain_succ]
    cases (session.reader.read session.arena).root with
    | error e => simp
    | ok root? =>
      cases root? with
      | none => simp
      | some root =>
        dsimp only
        cases session.afterOwnRead.evaluateRoot budget root with
        | none => rfl
        | some ended =>
          obtain ⟨result, next⟩ := ended
          dsimp only
          rw [ih next (result :: done), ih next [result], Option.map_map]
          congr 1
          funext ended
          simp

/-- More fuel than there are tokens changes nothing. -/
theorem drain_of_le {budget fuel fuel' : Nat} {session : Session} (done : List Result)
    (hfuel : session.reader.pending.length ≤ fuel)
    (hfuel' : session.reader.pending.length ≤ fuel') :
    session.drain budget fuel done = session.drain budget fuel' done := by
  have hzero : ∀ {session : Session} (fuel : Nat) (done : List Result),
      session.reader.pending.length ≤ 0 →
        session.drain budget fuel done = some (done.reverse, session) := by
    intro session fuel done hlen
    have hwaits : session.reader.Waits := Reader.eq_empty_of_length_le hlen ▸ Reader.waits_empty
    cases fuel with
    | zero => rfl
    | succ fuel => rw [drain_succ, hwaits, afterOwnRead_of_waits hwaits]
  induction fuel generalizing session fuel' done with
  | zero => rw [hzero 0 done hfuel, hzero fuel' done hfuel]
  | succ fuel ih =>
    cases fuel' with
    | zero => rw [hzero (fuel + 1) done hfuel', hzero 0 done hfuel']
    | succ fuel' =>
      rw [drain_succ, drain_succ]
      cases hroot : (session.reader.read session.arena).root with
      | error e => rfl
      | ok root? =>
        cases root? with
        | none => rfl
        | some root =>
          dsimp only
          cases hrun : session.afterOwnRead.evaluateRoot budget root with
          | none => rfl
          | some ended =>
            obtain ⟨result, next⟩ := ended
            have hlt := length_lt_of_evaluateRoot hroot hrun
            exact ih _ (by omega) (by omega)

/-- One expression after the other is evaluated. -/
theorem drainAll_eq (budget : Nat) (session : Session) :
    session.drainAll budget =
      match (session.reader.read session.arena).root with
      | .error e => some ([.error (.unreadable e)], session.afterOwnRead.resetInput)
      | .ok none => some ([], session.afterOwnRead)
      | .ok (some root) =>
        match session.afterOwnRead.evaluateRoot budget root with
        | none => none
        | some (result, next) =>
          (next.drainAll budget).map fun (results, last) => (result :: results, last) := by
  have hsucc : session.drainAll budget =
      session.drain budget (session.reader.pending.length + 1) [] :=
    drain_of_le [] (Nat.le_refl _) (Nat.le_succ _)
  rw [hsucc, drain_succ]
  cases hroot : (session.reader.read session.arena).root with
  | error e => rfl
  | ok root? =>
    cases root? with
    | none => rfl
    | some root =>
      dsimp only
      cases hrun : session.afterOwnRead.evaluateRoot budget root with
      | none => rfl
      | some ended =>
        obtain ⟨result, next⟩ := ended
        have hlt := length_lt_of_evaluateRoot hroot hrun
        dsimp only
        rw [drain_done, drainAll, drain_of_le [] (Nat.le_of_lt hlt) (Nat.le_refl _)]
        rfl

/-- A session that was drained waits for more tokens. -/
theorem waits_of_drainAll {budget : Nat} {session next : Session} {results : List Result}
    (h : session.drainAll budget = some (results, next)) : next.reader.Waits := by
  -- The induction is on the number of tokens that wait.
  induction hn : session.reader.pending.length using Nat.strongRecOn generalizing session results
    with
  | ind n ih =>
    rw [drainAll_eq] at h
    split at h
    · simp only [Option.some.injEq, Prod.mk.injEq] at h
      rw [← h.2]
      exact Reader.waits_empty
    · rename_i hroot
      have hwaits := Reader.waits_of_root_eq_none hroot
      simp only [Option.some.injEq, Prod.mk.injEq] at h
      rw [← h.2, afterOwnRead_of_waits hwaits]
      exact hwaits
    · rename_i root hroot
      split at h
      · cases h
      · rename_i result after hrun
        obtain ⟨⟨more, last⟩, hmore, heq⟩ := Option.map_eq_some_iff.1 h
        have hlt := length_lt_of_evaluateRoot hroot hrun
        simp only [Prod.mk.injEq] at heq
        rw [heq.2] at hmore
        exact ih after.reader.pending.length (hn ▸ hlt) hmore rfl

/-! ## More tokens -/

/-- No result says that something could not be read. -/
def AllRead (outcome : Option (List Result × Session)) : Prop :=
  ∀ results next, outcome = some (results, next) → ∀ e, .error (.unreadable e) ∉ results

/-- An expression is read in the same way if more tokens wait behind it. -/
theorem afterOwnRead_addPending {session : Session} (hwaits : ¬ session.reader.Waits)
    (ts : List Token) :
    ((session.addPending ts).reader.read session.arena).root =
        (session.reader.read session.arena).root ∧
      (session.addPending ts).afterOwnRead = session.afterOwnRead.addPending ts := by
  have hread : (session.addPending ts).reader.read session.arena =
      { session.reader.read session.arena with
        reader := ⟨(session.reader.read session.arena).reader.pending ++ ts⟩ } :=
    Reader.read_append hwaits ts
  constructor
  · rw [hread]
  · show { session.addPending ts with
        arena := ((session.addPending ts).reader.read session.arena).arena
        reader := ((session.addPending ts).reader.read session.arena).reader } = _
    rw [hread]
    rfl

/-- An evaluation leaves the tokens that wait, and so more of them may be added
before or after it. -/
theorem evaluateRoot_addPending (budget : Nat) (session : Session) (ts : List Token)
    (root : NodeId) :
    (session.addPending ts).evaluateRoot budget root =
      (session.evaluateRoot budget root).map fun (result, next) =>
        (result, next.addPending ts) := by
  rw [addPending, evaluateRoot_withPending]
  cases hrun : session.evaluateRoot budget root with
  | none => rfl
  | some ended =>
    obtain ⟨result, next⟩ := ended
    have hreader := (kept_of_evaluateRoot hrun).2.1
    show some (result, next.withPending (session.reader.pending ++ ts)) =
      some (result, next.withPending (next.reader.pending ++ ts))
    rw [hreader]

/-- Tokens may be added before draining or after it. -/
theorem drainAll_addPending {budget : Nat} {session : Session} {ts : List Token}
    (h : AllRead ((session.addPending ts).drainAll budget)) :
    (session.addPending ts).drainAll budget =
      (session.drainAll budget).bind fun (results, next) =>
        ((next.addPending ts).drainAll budget).map fun (more, last) =>
          (results ++ more, last) := by
  induction hn : session.reader.pending.length using Nat.strongRecOn generalizing session with
  | ind n ih =>
    by_cases hwaits : session.reader.Waits
    · -- Nothing can be evaluated before more tokens are there.
      have hnone : session.drainAll budget = some ([], session) := by
        rw [drainAll_eq, hwaits, afterOwnRead_of_waits hwaits]
      rw [hnone]
      show _ = ((session.addPending ts).drainAll budget).map fun (more, last) => ([] ++ more, last)
      cases (session.addPending ts).drainAll budget <;> rfl
    · obtain ⟨hroot, hafter⟩ := afterOwnRead_addPending hwaits ts
      have hwhole := drainAll_eq budget (session.addPending ts)
      have harena : (session.addPending ts).arena = session.arena := rfl
      rw [harena, hroot, hafter] at hwhole
      rw [drainAll_eq budget session]
      cases hr : (session.reader.read session.arena).root with
      | error e =>
        rw [hr] at hwhole
        exact absurd List.mem_cons_self (h _ _ hwhole e)
      | ok root? =>
        cases root? with
        | none => exact absurd (Reader.waits_of_root_eq_none hr) hwaits
        | some root =>
          rw [hr] at hwhole
          simp only [evaluateRoot_addPending] at hwhole
          cases hrun : session.afterOwnRead.evaluateRoot budget root with
          | none =>
            rw [hrun] at hwhole
            simp only [hrun]
            exact hwhole
          | some ended =>
            obtain ⟨result, next⟩ := ended
            have hlt := length_lt_of_evaluateRoot hr hrun
            rw [hrun] at hwhole
            simp only [Option.map_some] at hwhole
            have hrest : AllRead ((next.addPending ts).drainAll budget) := by
              intro results last hresults e he
              rw [hresults] at hwhole
              exact h _ _ hwhole e (List.mem_cons_of_mem _ he)
            have hmore := ih next.reader.pending.length (hn ▸ hlt) hrest rfl
            rw [hwhole, hmore]
            simp only [hrun]
            cases next.drainAll budget with
            | none => rfl
            | some drained =>
              obtain ⟨results, after⟩ := drained
              show Option.map _ (Option.map _ ((after.addPending ts).drainAll budget)) =
                Option.map _ ((after.addPending ts).drainAll budget)
              rw [Option.map_map]
              rfl

/-! ## Lines -/

/-- Feeds the pieces of a text one after the other. -/
def feedAll (budget : Nat) : Session → List String → Option (List Result × Session)
  | session, [] => some ([], session)
  | session, line :: lines =>
    (session.feed budget line).bind fun (results, next) =>
      (next.feedAll budget lines).map fun (more, last) => (results ++ more, last)

theorem feed_of_lex {text : String} {ts : List Token} (h : Token.lex text = .ok ts) (budget : Nat)
    (session : Session) :
    session.feed budget text = (session.addPending ts).drainAll budget := by
  rw [feed, Reader.feed, h]
  rfl

theorem feed_of_lex_error {text : String} {e : SyntaxError} (h : Token.lex text = .error e)
    (budget : Nat) (session : Session) :
    session.feed budget text = some ([.error (.unreadable e)], session.resetInput) := by
  rw [feed, Reader.feed, h]
  rfl

theorem not_allRead_of_lex {text : String} {e : SyntaxError} (h : Token.lex text = .error e)
    (budget : Nat) (session : Session) : ¬ AllRead (session.feed budget text) := by
  intro hall
  rw [feed_of_lex_error h] at hall
  exact hall _ _ rfl e List.mem_cons_self

/-- The line feed at the end of a line adds no token. -/
theorem lex_line (a : String) : Token.lex (a ++ "\n") = Token.lex a := by
  have hempty : Token.lex "" = .ok [] := rfl
  have happend := Token.lex_append_newline a ""
  rw [String.append_empty, hempty] at happend
  rw [happend]
  cases Token.lex a <;> simp

/-- A line that is followed by more text may be fed on its own. -/
theorem feed_line {budget : Nat} {session : Session} {a b : String}
    (h : AllRead (session.feed budget (a ++ "\n" ++ b))) :
    session.feed budget (a ++ "\n" ++ b) =
      (session.feed budget (a ++ "\n")).bind fun (results, next) =>
        (next.feed budget b).map fun (more, last) => (results ++ more, last) := by
  have hlex := Token.lex_append_newline a b
  cases ha : Token.lex a with
  | error e =>
    rw [ha] at hlex
    exact absurd h (not_allRead_of_lex hlex budget session)
  | ok ts =>
    cases hb : Token.lex b with
    | error e =>
      rw [ha, hb] at hlex
      exact absurd h (not_allRead_of_lex hlex budget session)
    | ok us =>
      rw [ha, hb] at hlex
      have hline : Token.lex (a ++ "\n") = .ok ts := by rw [lex_line, ha]
      have hwhole : session.feed budget (a ++ "\n" ++ b) =
          ((session.addPending ts).addPending us).drainAll budget := by
        rw [feed_of_lex hlex, addPending, ← List.append_assoc]
        rfl
      rw [hwhole] at h ⊢
      rw [drainAll_addPending h, feed_of_lex hline]
      simp only [feed_of_lex hb]

theorem feed_empty {session : Session} (h : session.reader.Waits) (budget : Nat) :
    session.feed budget "" = some ([], session) := by
  have hempty : Token.lex "" = .ok [] := rfl
  have hsame : session.addPending [] = session := by
    rw [addPending, List.append_nil]
    rfl
  rw [feed_of_lex hempty, hsame, drainAll_eq, h, afterOwnRead_of_waits h]

/-- A session waits for more tokens after every chunk. -/
theorem waits_of_feed {budget : Nat} {session next : Session} {text : String}
    {results : List Result} (h : session.feed budget text = some (results, next)) :
    next.reader.Waits := by
  cases hlex : Token.lex text with
  | error e =>
    rw [feed_of_lex_error hlex] at h
    cases h
    exact Reader.waits_empty
  | ok ts =>
    rw [feed_of_lex hlex] at h
    exact waits_of_drainAll h

theorem feedAll_eq_feed {budget : Nat} {session : Session} (hwaits : session.reader.Waits)
    {lines : List String} (hlines : ∀ line ∈ lines.dropLast, ∃ a, line = a ++ "\n")
    (h : AllRead (session.feed budget (String.join lines))) :
    session.feedAll budget lines = session.feed budget (String.join lines) := by
  induction lines generalizing session with
  | nil => rw [feedAll, String.join_nil, feed_empty hwaits]
  | cons line lines ih =>
    cases lines with
    | nil =>
      -- The last line needs no line feed.
      have hjoin : String.join [line] = line := by simp
      rw [hjoin, feedAll]
      cases session.feed budget line with
      | none => rfl
      | some fed => simp [feedAll]
    | cons line' lines =>
      obtain ⟨a, rfl⟩ := hlines line (by simp)
      rw [String.join_cons] at h ⊢
      have hfeed := feed_line h
      rw [hfeed] at h ⊢
      rw [feedAll]
      cases hline : session.feed budget (a ++ "\n") with
      | none => rfl
      | some fed =>
        obtain ⟨results, next⟩ := fed
        rw [hline] at h
        have hrest : AllRead (next.feed budget (String.join (line' :: lines))) := by
          intro more last hmore e he
          refine h (results ++ more) last ?_ e (List.mem_append_right _ he)
          show Option.map _ (next.feed budget (String.join (line' :: lines))) = _
          rw [hmore]
          rfl
        have hrec := ih (waits_of_feed hline)
          (fun l hl => hlines l (by simpa using Or.inr hl)) hrest
        show Option.map _ (next.feedAll budget (line' :: lines)) =
          Option.map _ (next.feed budget (String.join (line' :: lines)))
        rw [hrec]

/-! ## Sessions -/

theorem reader_of_evaluateAll {budget fuel : Nat} {session next : Session} {reader : Reader}
    {last : Answer} {result : Result}
    (h : session.evaluateAll budget fuel reader last = some (result, next)) :
    next.reader = session.reader := by
  induction fuel generalizing session reader last with
  | zero =>
    cases h
    rfl
  | succ fuel ih =>
    rw [evaluateAll_succ] at h
    split at h
    · cases h
      rfl
    · cases h
      rfl
    · split at h
      · cases h
      · rename_i hrun
        have hreader := (kept_of_evaluateRoot hrun).2.1
        cases h
        exact hreader
      · rename_i hrun
        have hreader := (kept_of_evaluateRoot hrun).2.1
        rw [ih h]
        exact hreader

theorem Reachable.waits {session : Session} (h : session.Reachable) : session.reader.Waits := by
  induction h with
  | fresh sink limit => exact Reader.waits_empty
  | @handle session next budget request results _ hhandle ih =>
    cases request with
    | evaluate text =>
      obtain ⟨⟨result, after⟩, hevaluate, heq⟩ := Option.map_eq_some_iff.1 hhandle
      cases heq
      have hreader : next.reader = session.reader := by
        unfold evaluate at hevaluate
        split at hevaluate
        · cases hevaluate
          rfl
        · exact reader_of_evaluateAll hevaluate
      rw [hreader]
      exact ih
    | feed text => exact waits_of_feed hhandle
    | resetInput =>
      cases hhandle
      exact Reader.waits_empty

/-- A text is lexed line by line.  A session that gets a text line by line ends
with the results and in the state that it ends with if it gets the whole text at
once, as long as everything in the text can be read. -/
theorem lines_agree :
    (∀ a b : String, Token.lex (a ++ "\n" ++ b) =
      match Token.lex a, Token.lex b with
      | .error e, _ => .error e
      | .ok _, .error e => .error e
      | .ok ts, .ok us => .ok (ts ++ us)) ∧
    ∀ {session : Session}, session.Reachable → ∀ (budget : Nat) {lines : List String},
      (∀ line ∈ lines.dropLast, ∃ a, line = a ++ "\n") →
      AllRead (session.feed budget (String.join lines)) →
      session.feedAll budget lines = session.feed budget (String.join lines) :=
  ⟨Token.lex_append_newline, fun hreachable _ _ hlines hread =>
    feedAll_eq_feed hreachable.waits hlines hread⟩

/-- A definition and a call that are spread over lines, with a comment and an
error in between, in a session where the definition was begun before. -/
theorem lines_agree_define :
    ∃ session next : Session, session.Reachable ∧ session.isPending = true ∧
      session.feedAll 60 ["x ; one\n", "1) y (display\n", "x)"] =
        some ([.ok .unspecified, .error (.unbound "y"), .ok .unspecified], next) ∧
      next.sink.text = "1" := by
  have hbegun : ∃ session, handle 60 { sink := .accepting, limit := none } (.feed "(define ") =
      some ([], session) ∧ session.isPending = true ∧
      ∃ next, session.feed 60 (String.join ["x ; one\n", "1) y (display\n", "x)"]) =
        some ([.ok .unspecified, .error (.unbound "y"), .ok .unspecified], next) ∧
        next.sink.text = "1" :=
    ⟨_, rfl, rfl, _, rfl, rfl⟩
  obtain ⟨session, hbegun, hpending, next, hfeed, htext⟩ := hbegun
  have hreachable : session.Reachable := .handle (.fresh .accepting none) hbegun
  have hread : AllRead (session.feed 60 (String.join ["x ; one\n", "1) y (display\n", "x)"])) := by
    intro results last h e
    rw [hfeed] at h
    cases h
    simp
  have hlines : ∀ line ∈ ["x ; one\n", "1) y (display\n", "x)"].dropLast,
      ∃ a, line = a ++ "\n" := by
    intro line hline
    simp only [List.dropLast, List.mem_cons, List.not_mem_nil, or_false] at hline
    obtain rfl | rfl := hline
    · exact ⟨"x ; one", by decide⟩
    · exact ⟨"1) y (display", by decide⟩
  refine ⟨session, next, hreachable, hpending, ?_, htext⟩
  rw [lines_agree.2 hreachable 60 hlines hread]
  exact hfeed

end StackScheme.Session
