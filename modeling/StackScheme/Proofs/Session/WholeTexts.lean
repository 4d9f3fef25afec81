import StackScheme.Proofs.Session.Lines

/-!
# Whole texts and chunks

A session evaluates a whole text like a chunk that it gets when no input waits, except that
it stops at the first error and has one result instead of one for each expression.

* Readers.  `Session.evaluateReader` evaluates all that waits in a reader, and
  `evaluateReader_eq` is its equation.
* First expressions.  `First` is what becomes of the first expression of a chunk, as the two
  loops see it, and `first` says that nothing else can become of it.
* Outcomes.  `exists_evaluateReader_eq_error` is about a chunk with an error,
  `evaluateReader_of_answers` about one without, and `evaluateReader_of_drainAll_eq_none`
  about one that takes more steps than the budget allows.
* `evaluate_agrees_feed` puts them together.
-/

namespace StackScheme.Session

variable {budget : Nat} {session : Session} {ts : List Token}

/-! ## Readers -/

/-- Evaluates all expressions that wait in a reader, up to the first error. -/
def evaluateReader (budget : Nat) (session : Session) (reader : Reader) (last : Answer) :
    Option (Result × Session) :=
  session.evaluateAll budget reader.pending.length reader last

/-- More fuel than there are tokens changes nothing. -/
theorem evaluateAll_of_le {fuel fuel' : Nat} {reader : Reader} (last : Answer)
    (hfuel : reader.pending.length ≤ fuel) (hfuel' : reader.pending.length ≤ fuel') :
    session.evaluateAll budget fuel reader last = session.evaluateAll budget fuel' reader last := by
  induction fuel generalizing session reader fuel' last with
  | zero => rw [Reader.eq_empty_of_length_le hfuel, evaluateAll_empty, evaluateAll_empty]
  | succ fuel ih =>
    cases fuel' with
    | zero => rw [Reader.eq_empty_of_length_le hfuel', evaluateAll_empty, evaluateAll_empty]
    | succ fuel' =>
      rw [evaluateAll_succ, evaluateAll_succ]
      cases hroot : (reader.read session.arena).root with
      | error e => rfl
      | ok root? =>
        cases root? with
        | none => rfl
        | some root =>
          have hlt := Reader.length_pending_lt hroot
          dsimp only
          rcases (session.afterRead reader).evaluateRoot budget root with
            _ | ⟨e | answer, next⟩
          · rfl
          · rfl
          · exact ih answer (by omega) (by omega)

/-- One expression after the other is evaluated, up to the first error. -/
theorem evaluateReader_eq (budget : Nat) (session : Session) (reader : Reader)
    (last : Answer) :
    session.evaluateReader budget reader last =
      match (reader.read session.arena).root with
      | .error e => some (.error (.unreadable e), session.afterRead reader)
      | .ok none =>
        some (if (reader.read session.arena).reader.isPending then .error (.unreadable .incomplete)
          else .ok last, session.afterRead reader)
      | .ok (some root) =>
        match (session.afterRead reader).evaluateRoot budget root with
        | none => none
        | some (.error e, next) => some (.error e, next)
        | some (.ok answer, next) =>
          next.evaluateReader budget (reader.read session.arena).reader answer := by
  have hsucc : session.evaluateReader budget reader last =
      session.evaluateAll budget (reader.pending.length + 1) reader last :=
    evaluateAll_of_le last (Nat.le_refl _) (Nat.le_succ _)
  rw [hsucc, evaluateAll_succ]
  cases hroot : (reader.read session.arena).root with
  | error e => rfl
  | ok root? =>
    cases root? with
    | none => rfl
    | some root =>
      have hlt := Reader.length_pending_lt hroot
      dsimp only
      rcases (session.afterRead reader).evaluateRoot budget root with _ | ⟨e | answer, next⟩
      · rfl
      · rfl
      · exact evaluateAll_of_le answer (Nat.le_of_lt hlt) (Nat.le_refl _)

/-! ## First expressions -/

/-- What becomes of the first expression of a chunk, as it is seen by the loop over the chunk
and by the loop over a whole text. -/
inductive First (budget : Nat) (session : Session) (ts : List Token) : Prop where
  /-- It cannot be read. -/
  | unreadable (cause : SyntaxError) (next : Session)
    (hdrain : ∀ n, (session.withPending ts).drain budget (n + 1) [] =
      some ([.error (.unreadable cause)], next.withPending []))
    (hreader : next.reader = session.reader)
    (heval : ∀ a, session.evaluateReader budget ⟨ts⟩ a =
      some (.error (.unreadable cause), next))
  /-- It is not there, or not complete. -/
  | waits (next : Session) (rest : List Token)
    (hdrain : ∀ n, (session.withPending ts).drain budget (n + 1) [] =
      some ([], next.withPending rest))
    (hreader : next.reader = session.reader)
    (heval : ∀ a, session.evaluateReader budget ⟨ts⟩ a =
      some (if (next.withPending rest).isPending then .error (.unreadable .incomplete)
        else .ok a, next))
  /-- It takes more steps than the budget allows. -/
  | unfinished (hdrain : ∀ n, (session.withPending ts).drain budget (n + 1) [] = none)
    (heval : ∀ a, session.evaluateReader budget ⟨ts⟩ a = none)
  /-- It has a result. -/
  | result (result : Result) (next : Session) (rest : List Token) (hlt : rest.length < ts.length)
    (hdrain : ∀ n, (session.withPending ts).drain budget (n + 1) [] =
      ((next.withPending rest).drain budget n []).map fun (results, last) =>
        (result :: results, last))
    (hreader : next.reader = session.reader)
    (heval : ∀ a, session.evaluateReader budget ⟨ts⟩ a =
      match result with
      | .error e => some (.error e, next)
      | .ok answer => next.evaluateReader budget ⟨rest⟩ answer)

theorem first (budget : Nat) (session : Session) (ts : List Token) :
    First budget session ts := by
  have hread : (session.withPending ts).reader.read (session.withPending ts).arena =
      (⟨ts⟩ : Reader).read session.arena := rfl
  have hafter : (session.withPending ts).afterOwnRead =
      (session.afterRead ⟨ts⟩).withPending
        ((⟨ts⟩ : Reader).read session.arena).reader.pending := rfl
  have hdrain := fun n => drain_succ budget n (session.withPending ts) []
  have heval := evaluateReader_eq budget session ⟨ts⟩
  simp only [hread, hafter] at hdrain
  cases hroot : ((⟨ts⟩ : Reader).read session.arena).root with
  | error cause =>
    simp only [hroot] at hdrain heval
    exact .unreadable cause (session.afterRead ⟨ts⟩) hdrain rfl heval
  | ok root? =>
    cases root? with
    | none =>
      simp only [hroot] at hdrain heval
      exact .waits (session.afterRead ⟨ts⟩) _ hdrain rfl heval
    | some root =>
      simp only [hroot, evaluateRoot_withPending] at hdrain heval
      cases hrun : (session.afterRead ⟨ts⟩).evaluateRoot budget root with
      | none =>
        simp only [hrun] at hdrain heval
        exact .unfinished hdrain heval
      | some ended =>
        obtain ⟨result, next⟩ := ended
        have hreader : next.reader = session.reader := (kept_of_evaluateRoot hrun).2.1
        simp only [hrun] at hdrain heval
        refine .result result next _ (Reader.length_pending_lt hroot) (fun n => ?_) hreader
          (fun a => ?_)
        · rw [hdrain n]
          exact drain_done budget n _ [result]
        · rw [heval a]
          cases result <;> rfl

/-! ## Outcomes -/

/-- The session with the input of another one. -/
def withInputOf (session other : Session) : Session :=
  { session with reader := other.reader }

theorem withInputOf_withPending {next : Session} (h : next.reader = session.reader)
    (rest : List Token) : (next.withPending rest).withInputOf session = next := by
  rw [withInputOf, ← h]
  rfl

/-- Evaluating all of a chunk takes at least one round of the loop. -/
theorem drainAll_withPending (budget : Nat) (session : Session) (ts : List Token) :
    (session.withPending ts).drainAll budget =
      (session.withPending ts).drain budget (ts.length + 1) [] :=
  drain_of_le [] (Nat.le_refl _) (Nat.le_succ _)

theorem drain_rest {next : Session} {rest : List Token} (hlt : rest.length < ts.length) :
    (next.withPending rest).drain budget ts.length [] =
      (next.withPending rest).drainAll budget :=
  drain_of_le [] (Nat.le_of_lt hlt) (Nat.le_refl _)

/-- A chunk whose first expression has a value goes on with the others, and so does the
text. -/
theorem exists_of_drainAll_eq_ok {answer : Answer} {more : List Result} {last : Session}
    (h : (session.withPending ts).drainAll budget = some (.ok answer :: more, last)) :
    ∃ (next : Session) (rest : List Token), next.reader = session.reader ∧
      (next.withPending rest).drainAll budget = some (more, last) ∧
      (∀ n, (session.withPending ts).drain budget (n + 1) [] =
        ((next.withPending rest).drain budget n []).map fun (results, last) =>
          (.ok answer :: results, last)) ∧
      ∀ a, session.evaluateReader budget ⟨ts⟩ a = next.evaluateReader budget ⟨rest⟩ answer := by
  rw [drainAll_withPending] at h
  cases first budget session ts with
  | unreadable cause next hdrain hreader heval =>
    rw [hdrain] at h
    cases h
  | waits next rest hdrain hreader heval =>
    rw [hdrain] at h
    cases h
  | unfinished hdrain heval =>
    rw [hdrain] at h
    cases h
  | result result next rest hlt hdrain hreader heval =>
    rw [hdrain, drain_rest hlt] at h
    obtain ⟨⟨results, after⟩, hrest, heq⟩ := Option.map_eq_some_iff.1 h
    cases heq
    exact ⟨next, rest, hreader, hrest, hdrain, heval⟩

/-- A text stops at the first error of a chunk, in the session that the chunk is in after
the expressions up to that one. -/
theorem exists_evaluateReader_eq_error {answers : List Answer} {e : Error} {more : List Result}
    {last : Session}
    (h : (session.withPending ts).drainAll budget =
      some (answers.map .ok ++ .error e :: more, last)) (a : Answer) :
    ∃ mid, (session.withPending ts).drain budget (answers.length + 1) [] =
        some (answers.map .ok ++ [.error e], mid) ∧
      mid.drainAll budget = some (more, last) ∧
      session.evaluateReader budget ⟨ts⟩ a = some (.error e, mid.withInputOf session) := by
  induction answers generalizing session ts a with
  | nil =>
    rw [drainAll_withPending] at h
    cases first budget session ts with
    | unreadable cause next hdrain hreader heval =>
      rw [hdrain] at h
      cases h
      have hwaits : (next.withPending []).reader.Waits := Reader.waits_empty
      refine ⟨next.withPending [], hdrain 0, ?_, ?_⟩
      · rw [drainAll_eq, hwaits, afterOwnRead_of_waits hwaits]
      · rw [heval, withInputOf_withPending hreader]
    | waits next rest hdrain hreader heval =>
      rw [hdrain] at h
      cases h
    | unfinished hdrain heval =>
      rw [hdrain] at h
      cases h
    | result result next rest hlt hdrain hreader heval =>
      rw [hdrain, drain_rest hlt] at h
      obtain ⟨⟨results, after⟩, hrest, heq⟩ := Option.map_eq_some_iff.1 h
      cases heq
      refine ⟨next.withPending rest, hdrain 0, hrest, ?_⟩
      rw [heval, withInputOf_withPending hreader]
  | cons answer answers ih =>
    obtain ⟨next, rest, hreader, hrest, hdrain, heval⟩ := exists_of_drainAll_eq_ok h
    obtain ⟨mid, hmid, hmore, hlast⟩ := ih hrest answer
    refine ⟨mid, ?_, hmore, ?_⟩
    · rw [List.length_cons, hdrain, hmid]
      rfl
    · rw [heval, withInputOf, ← hreader]
      exact hlast

/-- A text without errors has the value of its last expression, unless a chunk of it would
wait for more. -/
theorem evaluateReader_of_answers {answers : List Answer} {last : Session}
    (h : (session.withPending ts).drainAll budget = some (answers.map .ok, last)) (a : Answer) :
    session.evaluateReader budget ⟨ts⟩ a =
      some (if last.isPending then .error (.unreadable .incomplete)
        else .ok (answers.getLast?.getD a), last.withInputOf session) := by
  induction answers generalizing session ts a with
  | nil =>
    rw [drainAll_withPending] at h
    cases first budget session ts with
    | unreadable cause next hdrain hreader heval =>
      rw [hdrain] at h
      cases h
    | waits next rest hdrain hreader heval =>
      rw [hdrain] at h
      cases h
      rw [heval, withInputOf_withPending hreader]
      rfl
    | unfinished hdrain heval =>
      rw [hdrain] at h
      cases h
    | result result next rest hlt hdrain hreader heval =>
      rw [hdrain] at h
      obtain ⟨_, -, heq⟩ := Option.map_eq_some_iff.1 h
      cases heq
  | cons answer answers ih =>
    obtain ⟨next, rest, hreader, hrest, -, heval⟩ := exists_of_drainAll_eq_ok h
    rw [heval, withInputOf, ← hreader, List.getLast?_cons, Option.getD_some]
    exact ih hrest answer

/-- If a chunk takes more steps than the budget allows, so does the text, or it stops at an
error before. -/
theorem evaluateReader_of_drainAll_eq_none
    (h : (session.withPending ts).drainAll budget = none) (a : Answer) :
    session.evaluateReader budget ⟨ts⟩ a = none ∨
      ∃ (answers : List Answer) (e : Error) (mid : Session),
        (session.withPending ts).drain budget (answers.length + 1) [] =
          some (answers.map .ok ++ [.error e], mid) ∧
        session.evaluateReader budget ⟨ts⟩ a = some (.error e, mid.withInputOf session) := by
  -- The induction is on the number of tokens that wait.
  induction hn : ts.length using Nat.strongRecOn generalizing session ts a with
  | ind n ih =>
    rw [drainAll_withPending] at h
    cases first budget session ts with
    | unreadable cause next hdrain hreader heval =>
      rw [hdrain] at h
      cases h
    | waits next rest hdrain hreader heval =>
      rw [hdrain] at h
      cases h
    | unfinished hdrain heval => exact .inl (heval a)
    | result result next rest hlt hdrain hreader heval =>
      rw [hdrain, drain_rest hlt, Option.map_eq_none_iff] at h
      cases result with
      | error e =>
        refine .inr ⟨[], e, next.withPending rest, hdrain 0, ?_⟩
        rw [heval, withInputOf_withPending hreader]
      | ok answer =>
        rcases ih rest.length (hn ▸ hlt) h answer rfl with
          hnone | ⟨answers, e, mid, hmid, hlast⟩
        · exact .inl ((heval a).trans hnone)
        · refine .inr ⟨answer :: answers, e, mid, ?_, ?_⟩
          · rw [List.length_cons, hdrain, hmid]
            rfl
          · rw [heval, withInputOf, ← hreader]
            exact hlast

/-! ## Whole texts -/

theorem evaluate_of_lex {text : String} (h : Token.lex text = .ok ts) (budget : Nat)
    (session : Session) :
    session.evaluate budget text = session.evaluateReader budget ⟨ts⟩ .unspecified := by
  have hfeed : ({} : Reader).feed text = .ok ⟨ts⟩ := by
    rw [Reader.feed, h]
    rfl
  rw [evaluate, hfeed]
  rfl

theorem feed_resetInput_of_lex {text : String} (h : Token.lex text = .ok ts) (budget : Nat)
    (session : Session) :
    session.resetInput.feed budget text = (session.withPending ts).drainAll budget :=
  feed_of_lex h budget session.resetInput

/-- A whole text has the outcome of the same text as a chunk, given to the session when
its input is dropped.

A text without tokens of its own has the same error in both ways, and nothing is evaluated.
Otherwise the text has the first error of the chunk and ends in the session in which the
chunk is after the expressions up to that error, from where the chunk goes on with its other
results.  Without an error it has the last value of the chunk and ends in the same session,
except that it is incomplete if the chunk waits for more.  If the chunk has no results within
the budget, the text has none either or stops at an error before.  In any case, the input of
the session stays. -/
theorem evaluate_agrees_feed (session : Session) (budget : Nat) (text : String) :
    (∀ e, Token.lex text = .error e →
      session.evaluate budget text = some (.error (.unreadable e), session) ∧
      session.resetInput.feed budget text =
        some ([.error (.unreadable e)], session.resetInput)) ∧
    (∀ ts, Token.lex text = .ok ts →
      (∀ (answers : List Answer) (e : Error) (more : List Result) (last : Session),
        session.resetInput.feed budget text =
            some (answers.map .ok ++ .error e :: more, last) →
          ∃ mid, (session.withPending ts).drain budget (answers.length + 1) [] =
              some (answers.map .ok ++ [.error e], mid) ∧
            mid.drainAll budget = some (more, last) ∧
            session.evaluate budget text = some (.error e, mid.withInputOf session)) ∧
      (∀ (answers : List Answer) (last : Session),
        session.resetInput.feed budget text = some (answers.map .ok, last) →
          session.evaluate budget text =
            some (if last.isPending then .error (.unreadable .incomplete)
              else .ok (answers.getLast?.getD .unspecified), last.withInputOf session)) ∧
      (session.resetInput.feed budget text = none →
        session.evaluate budget text = none ∨
          ∃ (answers : List Answer) (e : Error) (mid : Session),
            (session.withPending ts).drain budget (answers.length + 1) [] =
              some (answers.map .ok ++ [.error e], mid) ∧
            session.evaluate budget text = some (.error e, mid.withInputOf session))) ∧
    ∀ result next, session.evaluate budget text = some (result, next) →
      next.reader = session.reader := by
  refine ⟨fun e hlex => ?_, fun ts hlex => ?_, fun result next h => ?_⟩
  · have hown : session.evaluate budget text = some (.error (.unreadable e), session) := by
      rw [evaluate, Reader.feed, hlex]
    refine ⟨hown, ?_⟩
    rw [feed, Reader.feed, hlex]
    rfl
  · rw [feed_resetInput_of_lex hlex, evaluate_of_lex hlex]
    exact ⟨fun answers e more last h => exists_evaluateReader_eq_error h _,
      fun answers last h => evaluateReader_of_answers h _,
      fun h => evaluateReader_of_drainAll_eq_none h _⟩
  · cases hlex : Token.lex text with
    | error e =>
      rw [evaluate, Reader.feed, hlex] at h
      cases h
      rfl
    | ok ts =>
      rw [evaluate_of_lex hlex] at h
      exact reader_of_evaluateAll h

end StackScheme.Session
