import StackScheme.Proofs.Machine.Limits
import StackScheme.Proofs.Reader.Grammar
import StackScheme.Proofs.Session.Lines
import StackScheme.Proofs.Session.Safety

/-!
# Where the tokens of chunks go

A session takes chunks of a text.  Each token of a chunk belongs to an expression
that is evaluated or waits for the end of its expression, and nothing else waits.

* Counting.  `Derives.count_eq` says that an expression closes what it opens, and
  `Token.count_lt_of_splitExpression` that tokens which do not end an expression
  leave some list open.
* Draining.  `Session.Drains` is the loop over the expressions that wait, with the
  expressions that it evaluates.  `exists_drains` says that this is what a session
  does.
* Chunks.  `Session.Feeds` is the same for chunk after chunk, and `Feeds.flatten_eq`
  is the account of their tokens.
* Ends.  `exists_feed` says that a chunk is taken if each evaluation that it starts has
  an end.
* `tokens_accounted` is the result.
-/

namespace StackScheme

/-! ## Counting -/

mutual

/-- An expression closes as many lists as it opens. -/
theorem Derives.count_eq {t : Phrase} {p : List Token} (h : Derives t p) :
    p.count .opening = p.count .closing := by
  cases h with
  | word text => simp
  | string contents => simp
  | list hitems => simp [hitems.count_eq]

theorem DerivesAll.count_eq {items : List Phrase} {p : List Token} (h : DerivesAll items p) :
    p.count .opening = p.count .closing := by
  cases h with
  | nil => rfl
  | cons hfirst hrest => rw [List.count_append, List.count_append, hfirst.count_eq, hrest.count_eq]

end

namespace Token

/-- The count behind tokens that do not end an expression is what they open without
closing it. -/
theorem foldl_nest_of_none {depth : Nat} {taken ts : List Token}
    (h : splitAtBalance depth taken ts = none) :
    ts.foldl nest depth + ts.count .closing = depth + ts.count .opening := by
  induction ts generalizing depth taken with
  | nil => rfl
  | cons token ts ih =>
    rw [splitAtBalance] at h
    by_cases hzero : token.nest depth = 0
    · simp [hzero] at h
    · simp only [hzero, if_false] at h
      have hrest := ih h
      rw [List.foldl_cons]
      cases token with
      | opening =>
        simp [nest] at hrest ⊢
        omega
      | closing =>
        -- Some list is still open, and so one was closed.
        simp [nest] at hzero hrest ⊢
        omega
      | word text => simpa [nest] using hrest
      | string contents => simpa [nest] using hrest

/-- A first part of tokens that do not end an expression does not end one either. -/
theorem splitExpression_of_append {p rest : List Token}
    (h : splitExpression (p ++ rest) = none) : splitExpression p = none := by
  cases hsplit : splitExpression p with
  | none => rfl
  | some cut =>
    rw [splitExpression_append hsplit rest] at h
    cases h

/-- Tokens that do not end an expression leave some list open. -/
theorem count_lt_of_splitExpression {ts : List Token} (h : splitExpression ts = none)
    (hne : ts ≠ []) : ts.count .closing < ts.count .opening := by
  have hcount := foldl_nest_of_none h
  have hpos := (splitAtBalance_of_none h []).2 hne
  omega

theorem head?_of_splitExpression {ts : List Token} (h : splitExpression ts = none)
    (hne : ts ≠ []) : ts.head? = some .opening := by
  obtain ⟨token, ts, rfl⟩ := List.exists_cons_of_ne_nil hne
  have hfirst := count_lt_of_splitExpression (splitExpression_of_append (p := [token]) h) (by simp)
  cases token <;> simp at hfirst ⊢

end Token

namespace Reader

/-- A reader waits for the end of the expression in front. -/
theorem Waits.splitExpression {reader : Reader} (h : reader.Waits) :
    Token.splitExpression reader.pending = none := by
  have hread := h {}
  have hopen : ∀ ts, reader.pending ≠ .closing :: ts := by
    intro ts hts
    rw [read_closing hts] at hread
    cases hread
  rw [read_eq hopen] at hread
  cases hsplit : Token.splitExpression reader.pending with
  | none => rfl
  | some cut =>
    rw [hsplit] at hread
    have hroot := congrArg Reading.root hread
    dsimp only at hroot
    cases hbuild : (Arena.build {} cut.1).1 <;> rw [hbuild] at hroot <;> cases hroot

theorem isPending_iff {reader : Reader} : reader.isPending = true ↔ reader.pending ≠ [] := by
  cases h : reader.pending <;> simp [isPending, h]

/-- Tokens wait if and only if they leave some list open. -/
theorem Waits.isPending_iff {reader : Reader} (h : reader.Waits) :
    reader.isPending = true ↔ reader.pending.count .closing < reader.pending.count .opening := by
  rw [Reader.isPending_iff]
  constructor
  · exact Token.count_lt_of_splitExpression h.splitExpression
  · intro hlt hnil
    rw [hnil] at hlt
    exact absurd hlt (Nat.lt_irrefl _)

/-- Tokens that wait start with an open list, and some list is open behind each of them. -/
theorem Waits.leavesOpen {reader : Reader} (h : reader.Waits) (hpending : reader.isPending = true) :
    reader.pending.head? = some .opening ∧
      ∀ p, p <+: reader.pending → p ≠ [] → p.count .closing < p.count .opening := by
  have hsplit := h.splitExpression
  refine ⟨Token.head?_of_splitExpression hsplit (Reader.isPending_iff.1 hpending), ?_⟩
  rintro p ⟨rest, hrest⟩ hne
  rw [← hrest] at hsplit
  exact Token.count_lt_of_splitExpression (Token.splitExpression_of_append hsplit) hne

/-- A root that is read comes from the tokens that are taken out. -/
theorem exists_of_root_eq_some {reader : Reader} {arena : Arena} {root : NodeId}
    (h : (reader.read arena).root = .ok (some root)) :
    ∃ p t u, reader.pending = p ++ (reader.read arena).reader.pending ∧ Derives t p ∧
      t.tree = .ok u ∧ (reader.read arena).arena.Holds u root := by
  rcases reader.root_cases arena with ⟨-, hread⟩ | ⟨-, hread⟩ | ⟨p, t, rest, hderives, hpending⟩
  · rw [hread] at h
    cases h
  · rw [hread] at h
    cases h
  · have hroot := root_of_derives hderives hpending arena
    cases hfind : p.findSome? Token.rejection? with
    | some e =>
      rw [hfind] at hroot
      dsimp only at hroot
      rw [hroot] at h
      cases h
    | none =>
      rw [hfind] at hroot
      obtain ⟨u, root', htree, hroot', hgains⟩ := hroot
      obtain rfl : root' = root := by simpa [hroot'] using h
      refine ⟨p, t, u, ?_, hderives, htree, hgains.root.1⟩
      rw [read_of_derives hderives hpending]
      exact hpending

end Reader

/-! ## Draining -/

namespace Session

/-- An expression that was read and evaluated. -/
structure Evaluation where
  /-- The tokens of the expression. -/
  tokens : List Token
  /-- The session in which it was evaluated. -/
  start : Session
  root : NodeId
  result : Result

/-- The root of the evaluation holds the expression that the tokens are. -/
def Evaluation.IsRead (ev : Evaluation) : Prop :=
  ∃ t u, Derives t ev.tokens ∧ t.tree = .ok u ∧ ev.start.arena.Holds u ev.root

/-- A session evaluates the expressions that wait, one after the other, and ends in
`last`.  It stops before tokens that wait or at something that cannot be read. -/
inductive Drains (budget : Nat) :
    Session → List Evaluation → (stop : Option SyntaxError) → (last : Session) → Prop
  | waits {session : Session} (hroot : (session.reader.read session.arena).root = .ok none) :
    Drains budget session [] none session.afterOwnRead
  | refuses {session : Session} {e : SyntaxError}
    (hroot : (session.reader.read session.arena).root = .error e) :
    Drains budget session [] (some e) session.afterOwnRead.resetInput
  | evaluates {session next last : Session} {tokens : List Token} {root : NodeId}
    {result : Result} {evaluations : List Evaluation} {stop : Option SyntaxError}
    (hroot : (session.reader.read session.arena).root = .ok (some root))
    (htokens : session.reader.pending = tokens ++ session.afterOwnRead.reader.pending)
    (hrun : session.afterOwnRead.evaluateRoot budget root = some (result, next))
    (h : Drains budget next evaluations stop last) :
    Drains budget session (⟨tokens, session.afterOwnRead, root, result⟩ :: evaluations) stop last

/-- The results of evaluations, and what could not be read after them. -/
def resultsOf (evaluations : List Evaluation) (stop : Option SyntaxError) : List Result :=
  evaluations.map (·.result) ++ stop.toList.map fun e => .error (.unreadable e)

/-- This is what a session does that is drained. -/
theorem exists_drains {budget : Nat} {session last : Session} {results : List Result}
    (h : session.drainAll budget = some (results, last)) :
    ∃ evaluations stop, Drains budget session evaluations stop last ∧
      results = resultsOf evaluations stop := by
  -- The induction is on the number of tokens that wait.
  induction hn : session.reader.pending.length using Nat.strongRecOn generalizing session results
    with
  | ind n ih =>
    rw [drainAll_eq] at h
    split at h
    · rename_i e hroot
      cases h
      exact ⟨[], some e, .refuses hroot, rfl⟩
    · rename_i hroot
      cases h
      exact ⟨[], none, .waits hroot, rfl⟩
    · rename_i root hroot
      split at h
      · cases h
      · rename_i result next hrun
        obtain ⟨⟨more, after⟩, hmore, heq⟩ := Option.map_eq_some_iff.1 h
        cases heq
        obtain ⟨evaluations, stop, hdrains, rfl⟩ :=
          ih _ (hn ▸ length_lt_of_evaluateRoot hroot hrun) hmore rfl
        obtain ⟨tokens, -, -, htokens, -⟩ := Reader.exists_of_root_eq_some hroot
        exact ⟨_, stop, .evaluates hroot htokens hrun hdrains, rfl⟩

section Drains

variable {budget : Nat} {session last : Session} {evaluations : List Evaluation}
  {stop : Option SyntaxError}

/-- What waited belongs to the expressions that were evaluated or still waits. -/
theorem Drains.pending_eq (h : Drains budget session evaluations none last) :
    session.reader.pending = evaluations.flatMap (·.tokens) ++ last.reader.pending := by
  generalize hstop : (none : Option SyntaxError) = stop at h
  induction h with
  | waits hroot =>
    rw [afterOwnRead_of_waits (Reader.waits_of_root_eq_none hroot)]
    rfl
  | refuses hroot => cases hstop
  | evaluates hroot htokens hrun h ih =>
    rw [htokens, List.flatMap_cons, List.append_assoc, ← ih hstop, (kept_of_evaluateRoot hrun).2.1]

theorem Drains.isRead (h : Drains budget session evaluations stop last) :
    ∀ ev ∈ evaluations, ev.IsRead := by
  induction h with
  | waits hroot => simp
  | refuses hroot => simp
  | evaluates hroot htokens hrun h ih =>
    rw [List.forall_mem_cons]
    refine ⟨?_, ih⟩
    obtain ⟨p, t, u, hp, hderives, htree, hholds⟩ := Reader.exists_of_root_eq_some hroot
    obtain rfl := List.append_cancel_right (hp.symm.trans htokens)
    exact ⟨t, u, hderives, htree, hholds⟩

/-- Nothing waits behind something that cannot be read. -/
theorem Drains.pending_eq_nil {e : SyntaxError}
    (h : Drains budget session evaluations (some e) last) : last.reader.pending = [] := by
  generalize hstop : some e = stop at h
  induction h with
  | waits hroot => cases hstop
  | refuses hroot => rfl
  | evaluates hroot htokens hrun h ih => exact ih hstop

/-- No evaluation has a result that says that something cannot be read. -/
theorem Drains.result_ne (h : Drains budget session evaluations stop last) (e : SyntaxError) :
    ∀ ev ∈ evaluations, ev.result ≠ .error (.unreadable e) := by
  induction h with
  | waits hroot => simp
  | refuses hroot => simp
  | evaluates hroot htokens hrun h ih =>
    rw [List.forall_mem_cons]
    refine ⟨?_, ih⟩
    rintro rfl
    obtain hordinary | ⟨l, -, heq⟩ := evaluateRoot_error_cases hrun
    · exact hordinary
    · cases heq

theorem Drains.stop_eq (h : Drains budget session evaluations stop last) (e : SyntaxError) :
    .error (.unreadable e) ∈ resultsOf evaluations stop ↔ stop = some e := by
  have hne := h.result_ne e
  rw [resultsOf, List.mem_append, List.mem_map]
  constructor
  · rintro (⟨ev, hev, heq⟩ | hmem)
    · exact absurd heq (hne ev hev)
    · cases stop <;> simp_all
  · rintro rfl
    exact .inr (by simp)

end Drains

/-! ## Chunks -/

/-- A session waits for more tokens after all chunks, if it has waited before them. -/
theorem waits_of_feedAll {budget : Nat} {session last : Session} {texts : List String}
    {results : List Result} (hwaits : session.reader.Waits)
    (h : session.feedAll budget texts = some (results, last)) : last.reader.Waits := by
  induction texts generalizing session results with
  | nil =>
    cases h
    exact hwaits
  | cons text texts ih =>
    obtain ⟨⟨first, next⟩, hfeed, hrest⟩ := Option.bind_eq_some_iff.1 h
    obtain ⟨⟨more, after⟩, hmore, heq⟩ := Option.map_eq_some_iff.1 hrest
    cases heq
    exact ih (waits_of_feed hfeed) hmore

/-- A session takes the tokens of one chunk after the other and can read all of them. -/
inductive Feeds (budget : Nat) :
    Session → (chunks : List (List Token)) → List Evaluation → (last : Session) → Prop
  | nil {session : Session} : Feeds budget session [] [] session
  | cons {session next last : Session} {ts : List Token} {chunks : List (List Token)}
    {evaluations more : List Evaluation}
    (h : Drains budget (session.addPending ts) evaluations none next)
    (hs : Feeds budget next chunks more last) :
    Feeds budget session (ts :: chunks) (evaluations ++ more) last

/-- This is what a session does with chunks that can be read. -/
theorem exists_feeds {budget : Nat} {session last : Session} {texts : List String}
    {results : List Result} (h : session.feedAll budget texts = some (results, last))
    (hread : ∀ e, .error (.unreadable e) ∉ results) :
    ∃ chunks evaluations, texts.map Token.lex = chunks.map .ok ∧
      Feeds budget session chunks evaluations last ∧ evaluations.map (·.result) = results := by
  induction texts generalizing session results with
  | nil =>
    cases h
    exact ⟨[], [], rfl, .nil, rfl⟩
  | cons text texts ih =>
    rw [feedAll] at h
    obtain ⟨⟨first, next⟩, hfeed, hrest⟩ := Option.bind_eq_some_iff.1 h
    obtain ⟨⟨more, after⟩, hmore, heq⟩ := Option.map_eq_some_iff.1 hrest
    cases heq
    have hfirst : ∀ e, .error (.unreadable e) ∉ first :=
      fun e he => hread e (List.mem_append_left _ he)
    cases hlex : Token.lex text with
    | error e =>
      rw [feed_of_lex_error hlex] at hfeed
      cases hfeed
      exact absurd List.mem_cons_self (hfirst e)
    | ok ts =>
      rw [feed_of_lex hlex] at hfeed
      obtain ⟨evaluations, stop, hdrains, rfl⟩ := exists_drains hfeed
      obtain ⟨chunks, later, htexts, hfeeds, hresults⟩ :=
        ih hmore fun e he => hread e (List.mem_append_right _ he)
      obtain rfl : stop = none := by
        cases stop with
        | none => rfl
        | some e => exact absurd ((hdrains.stop_eq e).2 rfl) (hfirst e)
      refine ⟨ts :: chunks, evaluations ++ later, ?_, .cons hdrains hfeeds, ?_⟩
      · rw [List.map_cons, List.map_cons, hlex, htexts]
      · simp [resultsOf, hresults]

/-- Nothing waits after a chunk in which something cannot be read. -/
theorem pending_eq_nil_of_mem {budget : Nat} {session next : Session} {text : String}
    {results : List Result} {e : SyntaxError} (h : session.feed budget text = some (results, next))
    (hmem : .error (.unreadable e) ∈ results) : next.reader.pending = [] := by
  cases hlex : Token.lex text with
  | error e' =>
    rw [feed_of_lex_error hlex] at h
    cases h
    rfl
  | ok ts =>
    rw [feed_of_lex hlex] at h
    obtain ⟨evaluations, stop, hdrains, rfl⟩ := exists_drains h
    obtain rfl := (hdrains.stop_eq e).1 hmem
    exact hdrains.pending_eq_nil

section Feeds

variable {budget : Nat} {session last : Session} {chunks : List (List Token)}
  {evaluations : List Evaluation}

/-- Every token of the chunks belongs to an expression that was evaluated or still
waits, and all of them are in order. -/
theorem Feeds.flatten_eq (h : Feeds budget session chunks evaluations last) :
    session.reader.pending ++ chunks.flatten =
      evaluations.flatMap (·.tokens) ++ last.reader.pending := by
  induction h with
  | nil => simp
  | cons h hs ih =>
    rw [List.flatten_cons, List.flatMap_append, List.append_assoc, ← ih, ← List.append_assoc,
      ← List.append_assoc, ← h.pending_eq]
    rfl

theorem Feeds.isRead (h : Feeds budget session chunks evaluations last) :
    ∀ ev ∈ evaluations, ev.IsRead := by
  induction h with
  | nil => simp
  | cons h hs ih =>
    rw [List.forall_mem_append]
    exact ⟨h.isRead, ih⟩

end Feeds

/-- Expressions that were read close all lists that they open. -/
theorem count_tokens_eq {evaluations : List Evaluation} (h : ∀ ev ∈ evaluations, ev.IsRead) :
    (evaluations.flatMap (·.tokens)).count .opening =
      (evaluations.flatMap (·.tokens)).count .closing := by
  induction evaluations with
  | nil => rfl
  | cons ev evaluations ih =>
    obtain ⟨⟨t, -, hderives, -⟩, hrest⟩ := List.forall_mem_cons.1 h
    rw [List.flatMap_cons, List.count_append, List.count_append, hderives.count_eq, ih hrest]

/-! ## Ends -/

section Ends

variable {budget budget' : Nat} {session start : Session} {root : NodeId}

theorem evaluateRoot_of_le {ended : Result × Session} (hle : budget ≤ budget')
    (h : session.evaluateRoot budget root = some ended) :
    session.evaluateRoot budget' root = some ended := by
  unfold evaluateRoot at h ⊢
  dsimp only at h ⊢
  cases hrun : Machine.run session.arena session.limit budget
      (.initial session.store session.sink root) with
  | none =>
    rw [hrun] at h
    cases h
  | some halted =>
    rw [hrun] at h
    rw [Machine.run_of_le hle hrun]
    exact h

theorem drainAll_of_le {drained : List Result × Session} (hle : budget ≤ budget')
    (h : session.drainAll budget = some drained) : session.drainAll budget' = some drained := by
  induction hn : session.reader.pending.length using Nat.strongRecOn generalizing session drained
    with
  | ind n ih =>
    rw [drainAll_eq] at h ⊢
    split at h
    · exact h
    · exact h
    · rename_i root hroot
      cases hrun : session.afterOwnRead.evaluateRoot budget root with
      | none =>
        rw [hrun] at h
        cases h
      | some ended =>
        rw [hrun] at h
        obtain ⟨more, hmore, rfl⟩ := Option.map_eq_some_iff.1 h
        dsimp only
        rw [evaluateRoot_of_le hle hrun]
        dsimp only
        rw [ih _ (hn ▸ length_lt_of_evaluateRoot hroot hrun) hmore rfl]
        rfl

theorem DrainsAt.of_le (hle : budget ≤ budget') (h : DrainsAt budget session start root) :
    DrainsAt budget' session start root := by
  induction h with
  | here hroot => exact .here hroot
  | later hfirst hrun _ ih => exact .later hfirst (evaluateRoot_of_le hle hrun) ih

/-- A session that waits evaluates nothing. -/
theorem not_drainsAt_of_waits (h : session.reader.Waits) :
    ¬ DrainsAt budget session start root := by
  have hnone : ∀ root', (session.reader.read session.arena).root ≠ .ok (some root') := by
    intro root' hroot
    rw [h] at hroot
    cases hroot
  intro hstart
  cases hstart with
  | here hroot => exact hnone _ hroot
  | later hfirst _ _ => exact hnone _ hfirst

/-- A session can be drained if each evaluation that this starts has an end. -/
theorem exists_drainAll
    (h : ∀ budget start root, DrainsAt budget session start root →
      ∃ n ended, start.evaluateRoot n root = some ended) :
    ∃ budget drained, session.drainAll budget = some drained := by
  induction hn : session.reader.pending.length using Nat.strongRecOn generalizing session with
  | ind n ih =>
    cases hroot : (session.reader.read session.arena).root with
    | error e => exact ⟨0, _, by rw [drainAll_eq, hroot]⟩
    | ok root? =>
      cases root? with
      | none => exact ⟨0, _, by rw [drainAll_eq, hroot]⟩
      | some root =>
        obtain ⟨first, ⟨result, next⟩, hrun⟩ := h 0 _ root (.here hroot)
        have hnext : ∀ budget start root, DrainsAt budget next start root →
            ∃ n ended, start.evaluateRoot n root = some ended := by
          intro budget start root' hstart
          -- The budget is large enough for both.
          have hlater := hstart.of_le (Nat.le_max_right first budget)
          exact h _ start root'
            (.later hroot (evaluateRoot_of_le (Nat.le_max_left first budget) hrun) hlater)
        obtain ⟨rest, ⟨more, last⟩, hmore⟩ :=
          ih _ (hn ▸ length_lt_of_evaluateRoot hroot hrun) hnext rfl
        refine ⟨max first rest, (result :: more, last), ?_⟩
        rw [drainAll_eq, hroot]
        dsimp only
        rw [evaluateRoot_of_le (Nat.le_max_left first rest) hrun]
        dsimp only
        rw [drainAll_of_le (Nat.le_max_right first rest) hmore]
        rfl

/-- A chunk is taken if each evaluation that it starts has an end. -/
theorem exists_feed {text : String}
    (h : ∀ budget start root, session.Starts budget (.feed text) start root →
      ∃ n ended, start.evaluateRoot n root = some ended) :
    ∃ budget answer, session.feed budget text = some answer := by
  cases hlex : Token.lex text with
  | error e => exact ⟨0, _, feed_of_lex_error hlex 0 session⟩
  | ok ts =>
    have hreader : session.reader.feed text = .ok ⟨session.reader.pending ++ ts⟩ := by
      rw [Reader.feed, hlex]
    simp only [feed_of_lex hlex]
    exact exists_drainAll fun budget start root hstart =>
      h budget start root ⟨_, hreader, hstart⟩

end Ends

/-! ## The result -/

/-- No token of a chunk is lost and none is there twice.  If a session takes chunks while
nothing waits, and all of them can be read, then their tokens are those of the
expressions that were evaluated, in order, and those that still wait.  Tokens wait if
and only if the chunks open more lists than they close.  They start with an open list,
and some list is open behind each of them.

If something in a chunk cannot be read, nothing waits after it.  Each reading that does
not ask for more tokens takes some, and so a chunk is taken if each evaluation that it
starts has an end. -/
theorem tokens_accounted :
    (∀ {budget : Nat} {session last : Session} {texts : List String} {results : List Result},
      session.isPending = false → session.feedAll budget texts = some (results, last) →
      (∀ e, .error (.unreadable e) ∉ results) →
        ∃ chunks evaluations, texts.map Token.lex = chunks.map .ok ∧
          Feeds budget session chunks evaluations last ∧
          evaluations.map (·.result) = results ∧ (∀ ev ∈ evaluations, ev.IsRead) ∧
          chunks.flatten = evaluations.flatMap (·.tokens) ++ last.reader.pending ∧
          (last.isPending = true ↔
            chunks.flatten.count .closing < chunks.flatten.count .opening) ∧
          (last.isPending = true → last.reader.pending.head? = some .opening ∧
            ∀ p, p <+: last.reader.pending → p ≠ [] → p.count .closing < p.count .opening)) ∧
    (∀ {budget : Nat} {session next : Session} {text : String} {results : List Result}
      {e : SyntaxError}, session.feed budget text = some (results, next) →
        .error (.unreadable e) ∈ results → next.reader.pending = []) ∧
    (∀ (reader : Reader) (arena : Arena), (reader.read arena).root ≠ .ok none →
      (reader.read arena).reader.pending.length < reader.pending.length) ∧
    ∀ (session : Session) (text : String),
      (∀ budget start root, session.Starts budget (.feed text) start root →
        ∃ n ended, start.evaluateRoot n root = some ended) →
      ∃ budget answer, session.feed budget text = some answer := by
  refine ⟨?_, ?_, fun _ _ => Reader.length_read_lt, ?_⟩
  · intro budget session last texts results hpending hfeed hread
    have hnil : session.reader.pending = [] := by
      simpa [isPending, Reader.isPending] using hpending
    have hwaits : session.reader.Waits :=
      Reader.eq_empty_of_length_le (Nat.le_of_eq (congrArg List.length hnil)) ▸ Reader.waits_empty
    obtain ⟨chunks, evaluations, htexts, hfeeds, hresults⟩ := exists_feeds hfeed hread
    have hflatten := hfeeds.flatten_eq
    rw [hnil, List.nil_append] at hflatten
    have hlast := waits_of_feedAll hwaits hfeed
    refine ⟨chunks, evaluations, htexts, hfeeds, hresults, hfeeds.isRead, hflatten, ?_,
      hlast.leavesOpen⟩
    rw [hflatten, List.count_append, List.count_append, count_tokens_eq hfeeds.isRead,
      Nat.add_lt_add_iff_left]
    exact hlast.isPending_iff
  · intro budget session next text results e hfeed hmem
    exact pending_eq_nil_of_mem hfeed hmem
  · intro session text hends
    exact exists_feed hends

/-- A definition, a name without a value and a call, in chunks that end anywhere between
two tokens.  The last chunk is too long by one parenthesis. -/
theorem tokens_accounted_call :
    ∃ (last : Session) (chunks : List (List Token)) (evaluations : List Evaluation),
      feedAll 60 { sink := .accepting, limit := none } ["(define (f", " x) x) y (f", "\n 2"] =
        some ([.ok .unspecified, .error (.unbound "y")], last) ∧
      evaluations.map (·.result) = [.ok .unspecified, .error (.unbound "y")] ∧
      chunks.flatten = evaluations.flatMap (·.tokens) ++ [.opening, .word "f", .word "2"] ∧
      chunks.flatten.count .closing < chunks.flatten.count .opening ∧
      (∃ answer budget, last.feed budget ")" = some answer) ∧
      ∃ next : Session, last.feed 60 "))" =
        some ([.ok (.integer 2), .error (.unreadable .unexpectedClose)], next) ∧
        next.reader.pending = [] := by
  have hfeed : ∃ last,
      feedAll 60 { sink := .accepting, limit := none } ["(define (f", " x) x) y (f", "\n 2"] =
        some ([.ok .unspecified, .error (.unbound "y")], last) ∧
      last.reader.pending = [.opening, .word "f", .word "2"] ∧
      (∃ first ended, (last.addPending [.closing]).afterOwnRead.evaluateRoot 60 first =
        some ended ∧ ((last.addPending [.closing]).reader.read last.arena).root =
          .ok (some first) ∧ ended.2.reader = {}) ∧
      ∃ next, last.feed 60 "))" =
        some ([.ok (.integer 2), .error (.unreadable .unexpectedClose)], next) :=
    ⟨_, rfl, rfl, ⟨_, _, rfl, rfl, rfl⟩, _, rfl⟩
  obtain ⟨last, hfeed, hpending, ⟨first, ended, hrun, hroot, hempty⟩, next, hnext⟩ := hfeed
  obtain ⟨chunks, evaluations, -, -, hresults, -, hflatten, hiff, -⟩ :=
    tokens_accounted.1 rfl hfeed (by simp)
  have hlast : last.isPending = true := Reader.isPending_iff.2 (by simp [hpending])
  rw [hpending] at hflatten
  -- The parenthesis ends the call, and nothing is left to evaluate after it.
  have hends : ∀ budget start root, last.Starts budget (.feed ")") start root →
      ∃ n ended, start.evaluateRoot n root = some ended := by
    rintro budget start root ⟨reader, hreader, hstart⟩
    cases hreader
    cases hstart with
    | here hroot' =>
      obtain rfl : first = root := by simpa using hroot.symm.trans hroot'
      exact ⟨60, ended, hrun⟩
    | @later _ after _ _ _ _ hfirst hrun' h =>
      have hafter : after.reader = {} := by
        rw [← hempty, (kept_of_evaluateRoot hrun).2.1, (kept_of_evaluateRoot hrun').2.1]
        rfl
      exact absurd h (not_drainsAt_of_waits (hafter ▸ Reader.waits_empty))
  obtain ⟨budget, answer, hanswer⟩ := tokens_accounted.2.2.2 last ")" hends
  exact ⟨last, chunks, evaluations, hfeed, hresults, hflatten, hiff.1 hlast,
    ⟨answer, budget, hanswer⟩, next, hnext,
    tokens_accounted.2.1 hnext (List.mem_cons_of_mem _ List.mem_cons_self)⟩

end Session

end StackScheme
