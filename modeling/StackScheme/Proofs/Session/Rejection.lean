import StackScheme.Proofs.Machine.Limits
import StackScheme.Proofs.Machine.Renaming
import StackScheme.Proofs.Session.Lines
import StackScheme.Proofs.Session.Safety

/-!
# Chunks that cannot be read

A chunk that cannot be read leaves nodes in the arena that nothing refers to.  All nodes
that are read later get other names because of them, but nobody can see this.

* Moving.  `Session.moved` is a session under new names, and `evaluateRoot_moved` says
  that an expression has the same result in it.
* `Session.Settled` says that a session names no node behind the end of its arena.  All
  sessions that requests lead to are settled.
* Twins.  `Session.Twin` says that a session has more trees in the middle of its arena
  than another one.  Requests have the same results in twins, and lead to twins.
* Observing.  `Session.observe` is what a caller can see.
  `rejected_feed_eq_resetInput` compares a chunk that cannot be read with dropping the
  input.
-/

namespace StackScheme

open SExpr

/-- The result with the nodes of its values under new names. -/
def Result.rename (ρ : NodeId → NodeId) (result : Result) : Result :=
  result.mapError (Error.rename ρ)

/-- If a store names no node from `n` on, then it names none further on. -/
theorem Store.rename_shift_add {store : Store} {n : Nat}
    (h : ∀ d, store.rename (shift n d) = store) (k d : Nat) :
    store.rename (shift (n + k) d) = store := by
  have hshift : (fun id => shift (n + k) d (shift n k id)) = shift n (k + d) :=
    funext (shift_shift n k d)
  calc store.rename (shift (n + k) d)
    _ = (store.rename (shift n k)).rename (shift (n + k) d) := by rw [h k]
    _ = store.rename (shift n (k + d)) := by rw [Store.rename_rename, hshift]
    _ = store := h (k + d)

namespace Session

/-! ## Moving -/

/-- The session with its nodes under new names, in another arena. -/
def moved (ρ : NodeId → NodeId) (arena : Arena) (session : Session) : Session :=
  { session with arena, store := session.store.rename ρ }

theorem withFlush_rename (ρ : NodeId → NodeId) (outcome : Except Error Value)
    (refusal : Option String) :
    withFlush ((outcome.mapError (Error.rename ρ)).map (Value.rename ρ)) refusal =
      Result.rename ρ (withFlush outcome refusal) := by
  cases outcome with
  | error e => rfl
  | ok v =>
    cases refusal with
    | none => exact congrArg Except.ok (Value.answer_rename ρ v)
    | some reason => rfl

/-- An expression has the same result under new names. -/
theorem evaluateRoot_moved {session : Session} {ρ : NodeId → NodeId} {arena : Arena}
    (h : session.arena.Renames ρ arena) (budget : Nat) (root : NodeId) :
    (session.moved ρ arena).evaluateRoot budget (ρ root) =
      (session.evaluateRoot budget root).map fun (result, next) =>
        (result.rename ρ, next.moved ρ arena) := by
  have hrun := Machine.run_rename h session.limit budget
    (.initial session.store session.sink root)
  have hinitial : (Machine.State.initial session.store session.sink root).rename ρ =
      .initial (session.store.rename ρ) session.sink (ρ root) := rfl
  rw [hinitial] at hrun
  unfold evaluateRoot
  dsimp only [moved]
  rw [hrun]
  cases Machine.run session.arena session.limit budget
      (.initial session.store session.sink root) with
  | none => rfl
  | some ended =>
    obtain ⟨outcome, t⟩ := ended
    dsimp only [Option.map_some]
    rw [withFlush_rename]
    rfl

/-! ## Settled sessions -/

/-- No node behind the end of the arena has a name in the store. -/
def Settled (session : Session) : Prop :=
  ∀ d, session.store.rename (shift session.arena.size d) = session.store

theorem settled_fresh (sink : Sink) (limit : Option Nat) : Settled { sink, limit } :=
  fun _ => Store.rename_initial _

/-- The arena grows when an expression is read, and so there are fewer nodes behind its
end. -/
theorem Settled.afterRead {session : Session} (h : session.Settled) (hsound : session.Sound)
    (reader : Reader) : (session.afterRead reader).Settled := by
  intro d
  obtain ⟨k, hk⟩ := Nat.exists_eq_add_of_le (hsound.grown.size_le_read reader)
  have hsize : (session.afterRead reader).arena.size = session.arena.size + k := hk
  rw [hsize]
  exact Store.rename_shift_add h k d

/-- The store after an evaluation names no node that the store and the arena before it
did not have. -/
theorem Settled.evaluateRoot {session next : Session} (h : session.Settled)
    (hsound : session.Sound) {budget root : Nat} {result : Result}
    (hroot : root < session.arena.size)
    (hrun : session.evaluateRoot budget root = some (result, next)) : next.Settled := by
  intro d
  obtain ⟨trees, harena⟩ := hsound.grown.exists_eq_ofForest
  have hrenames : session.arena.Renames (shift session.arena.size d) session.arena := by
    rw [harena]
    exact Arena.renames_self trees d
  -- The same run takes place under new names, and so it has ended in the same session.
  have hsame : session.moved (shift session.arena.size d) session.arena = session :=
    congrArg (fun store => { session with store }) (h d)
  have hmoved := evaluateRoot_moved hrenames budget root
  rw [hsame, shift_of_lt hroot, hrun] at hmoved
  have hnext := congrArg Prod.snd (Option.some.inj hmoved)
  rw [(kept_of_evaluateRoot hrun).1]
  exact (congrArg Session.store hnext).symm

theorem keeps_settled (budget : Nat) :
    Keeps budget (fun session => session.Sound ∧ session.Settled) fun _ => True where
  withReader h _ := ⟨⟨h.1.grown, h.1.store⟩, h.2⟩
  read h reader := ⟨h.1.afterRead reader, h.2.afterRead h.1 reader⟩
  unreadable _ := trivial
  evaluateRoot {_ _ reader _ _} h hroot hrun := by
    have hsound := h.1.afterRead reader
    have hlt := h.1.grown.root_lt_size hroot
    exact ⟨fun _ _ => trivial, (hsound.evaluateRoot hlt hrun).2,
      (h.2.afterRead h.1 reader).evaluateRoot hsound hlt hrun⟩

theorem Reachable.settled {session : Session} (h : session.Reachable) : session.Settled :=
  (Keeps.reachable keeps_settled (fun sink limit => ⟨sound_fresh sink limit,
    settled_fresh sink limit⟩) h).2

/-! ## Twins -/

variable {ts new : List SExpr}

/-- The second session has the trees `new` in its arena behind the trees `ts`, and its
nodes have other names because of this. -/
def Twin (ts new : List SExpr) (s s' : Session) : Prop :=
  ∃ us, s.arena = .ofForest (ts ++ us) ∧
    s' = s.moved (shift (count ts) (count new)) (.ofForest (ts ++ new ++ us))

/-- There is no outcome, or both outcomes are the same under new names and lead to
twins. -/
def Alike {α : Type} (ts new : List SExpr) (rename : (NodeId → NodeId) → α → α) :
    Option (α × Session) → Option (α × Session) → Prop :=
  Option.Rel fun ended ended' =>
    ended'.1 = rename (shift (count ts) (count new)) ended.1 ∧ Twin ts new ended.2 ended'.2

theorem Alike.cases {α : Type} {rename : (NodeId → NodeId) → α → α}
    {outcome outcome' : Option (α × Session)} (h : Alike ts new rename outcome outcome') :
    (outcome = none ∧ outcome' = none) ∨
      ∃ a next next', outcome = some (a, next) ∧
        outcome' = some (rename (shift (count ts) (count new)) a, next') ∧
        Twin ts new next next' := by
  cases h with
  | none => exact .inl ⟨rfl, rfl⟩
  | @some ended ended' h =>
    obtain ⟨a, next⟩ := ended
    obtain ⟨a', next'⟩ := ended'
    obtain ⟨rfl, htwin⟩ := h
    exact .inr ⟨a, next, next', rfl, rfl, htwin⟩

namespace Twin

variable {s s' : Session}

theorem withReader (h : Twin ts new s s') (reader : Reader) :
    Twin ts new { s with reader } { s' with reader } := by
  obtain ⟨us, harena, rfl⟩ := h
  exact ⟨us, harena, rfl⟩

theorem reader_eq (h : Twin ts new s s') : s'.reader = s.reader := by
  obtain ⟨us, -, rfl⟩ := h
  rfl

/-- Twins read the same expression. -/
theorem read (h : Twin ts new s s') (reader : Reader) :
    (reader.read s'.arena).root =
        (reader.read s.arena).root.map (Option.map (shift (count ts) (count new))) ∧
      (reader.read s'.arena).reader = (reader.read s.arena).reader ∧
      Twin ts new (s.afterRead reader) (s'.afterRead reader) := by
  obtain ⟨us, harena, rfl⟩ := h
  obtain ⟨more, hmore, hread⟩ := reader.read_insert ts new us
  rw [← harena] at hmore hread
  have harena' : (s.moved (shift (count ts) (count new)) (.ofForest (ts ++ new ++ us))).arena =
      .ofForest (ts ++ new ++ us) := rfl
  rw [afterRead, afterRead, harena', hread]
  exact ⟨rfl, rfl, us ++ more, hmore, rfl⟩

theorem readOwn (h : Twin ts new s s') :
    (s'.reader.read s'.arena).root =
        (s.reader.read s.arena).root.map (Option.map (shift (count ts) (count new))) ∧
      Twin ts new s.afterOwnRead s'.afterOwnRead := by
  obtain ⟨hroot, hreader, hafter⟩ := h.read s.reader
  rw [afterOwnRead, afterOwnRead, h.reader_eq, hreader]
  exact ⟨hroot, hafter.withReader _⟩

theorem evaluateRoot (h : Twin ts new s s') (budget : Nat) (root : NodeId) :
    Alike ts new Result.rename (s.evaluateRoot budget root)
      (s'.evaluateRoot budget (shift (count ts) (count new) root)) := by
  obtain ⟨us, harena, rfl⟩ := h
  have hrenames : s.arena.Renames (shift (count ts) (count new)) (.ofForest (ts ++ new ++ us)) := by
    rw [harena]
    exact Arena.renames_insert ts new us
  rw [evaluateRoot_moved hrenames]
  cases hrun : s.evaluateRoot budget root with
  | none => exact .none
  | some ended => exact .some ⟨rfl, us, (kept_of_evaluateRoot hrun).1.trans harena, rfl⟩

theorem evaluateAll (h : Twin ts new s s') (budget fuel : Nat) (reader : Reader)
    (last : Answer) :
    Alike ts new Result.rename (s.evaluateAll budget fuel reader last)
      (s'.evaluateAll budget fuel reader last) := by
  have hend : ∀ pending : Bool, ∀ last : Answer,
      (if pending then .error (.unreadable .incomplete) else .ok last : Result) =
        Result.rename (shift (count ts) (count new))
          (if pending then .error (.unreadable .incomplete) else .ok last) := by
    intro pending last
    cases pending <;> rfl
  induction fuel generalizing s s' reader last with
  | zero => exact .some ⟨hend _ _, h⟩
  | succ fuel ih =>
    obtain ⟨hroot, hreader, hafter⟩ := h.read reader
    rw [evaluateAll_succ, evaluateAll_succ, hroot, hreader]
    rcases (reader.read s.arena).root with e | _ | root
    · exact .some ⟨rfl, hafter⟩
    · exact .some ⟨hend _ _, hafter⟩
    · dsimp only [Except.map, Option.map_some]
      rcases (hafter.evaluateRoot budget root).cases with
        ⟨hrun, hrun'⟩ | ⟨result, next, next', hrun, hrun', hnext⟩ <;> rw [hrun, hrun']
      · exact .none
      · cases result with
        | error e => exact .some ⟨rfl, hnext⟩
        | ok answer => exact ih hnext _ answer

theorem drain (h : Twin ts new s s') (budget fuel : Nat) (done : List Result) :
    Alike ts new (fun ρ => List.map (Result.rename ρ)) (s.drain budget fuel done)
      (s'.drain budget fuel (done.map (Result.rename (shift (count ts) (count new))))) := by
  induction fuel generalizing s s' done with
  | zero => exact .some ⟨List.map_reverse.symm, h⟩
  | succ fuel ih =>
    obtain ⟨hroot, hafter⟩ := h.readOwn
    rw [drain_succ, drain_succ, hroot]
    rcases (s.reader.read s.arena).root with e | _ | root
    · have hdone := List.map_reverse (f := Result.rename (shift (count ts) (count new)))
        (l := .error (.unreadable e) :: done)
      exact .some ⟨hdone.symm, hafter.withReader {}⟩
    · exact .some ⟨List.map_reverse.symm, hafter⟩
    · dsimp only [Except.map, Option.map_some]
      rcases (hafter.evaluateRoot budget root).cases with
        ⟨hrun, hrun'⟩ | ⟨result, next, next', hrun, hrun', hnext⟩ <;> rw [hrun, hrun']
      · exact .none
      · exact ih hnext (result :: done)

/-- Twins answer a request in the same way. -/
theorem handle (h : Twin ts new s s') (budget : Nat) (request : Request) :
    Alike ts new (fun ρ => List.map (Result.rename ρ)) (s.handle budget request)
      (s'.handle budget request) := by
  cases request with
  | evaluate text =>
    rw [Session.handle, Session.handle, Session.evaluate, Session.evaluate]
    cases ({} : Reader).feed text with
    | error e => exact .some ⟨rfl, h⟩
    | ok reader =>
      dsimp only
      rcases (h.evaluateAll budget reader.pending.length reader .unspecified).cases with
        ⟨heval, heval'⟩ | ⟨result, next, next', heval, heval', hnext⟩ <;> rw [heval, heval']
      · exact .none
      · exact .some ⟨rfl, hnext⟩
  | feed text =>
    rw [Session.handle, Session.handle, feed, feed, h.reader_eq]
    cases s.reader.feed text with
    | error e => exact .some ⟨rfl, h.withReader {}⟩
    | ok reader => exact (h.withReader reader).drain budget reader.pending.length []
  | resetInput => exact .some ⟨rfl, h.withReader {}⟩

/-- Twins answer all requests in the same way. -/
theorem handleAll (h : Twin ts new s s') (budget : Nat) (requests : List Request) :
    Alike ts new (fun ρ => List.map (List.map (Result.rename ρ))) (s.handleAll budget requests)
      (s'.handleAll budget requests) := by
  induction requests generalizing s s' with
  | nil => exact .some ⟨rfl, h⟩
  | cons request requests ih =>
    rw [Session.handleAll, Session.handleAll]
    rcases (h.handle budget request).cases with
      ⟨hfirst, hfirst'⟩ | ⟨results, next, next', hfirst, hfirst', hnext⟩ <;> rw [hfirst, hfirst']
    · exact .none
    · dsimp only
      rcases (ih hnext).cases with
        ⟨hrest, hrest'⟩ | ⟨answers, last, last', hrest, hrest', hlast⟩ <;> rw [hrest, hrest']
      · exact .none
      · exact .some ⟨rfl, hlast⟩

end Twin

/-! ## Observing -/

/-- What a caller can see of a result: the value, or the kind of the error and its text. -/
def view (result : Result) : Except (String × String) Answer :=
  result.mapError fun e => (e.kind, e.message)

/-- What a caller can see. -/
structure View where
  results : List (List (Except (String × String) Answer))
  isPending : Bool
  sink : Sink
  stats : Machine.Stats

/-- What a caller can see of answers and of the session after them. -/
def observe (answered : List (List Result) × Session) : View where
  results := answered.1.map (List.map view)
  isPending := answered.2.isPending
  sink := answered.2.sink
  stats := answered.2.stats

theorem view_rename (ρ : NodeId → NodeId) (result : Result) :
    view (result.rename ρ) = view result := by
  cases result with
  | ok answer => rfl
  | error e =>
    show Except.error ((e.rename ρ).kind, (e.rename ρ).message) = _
    rw [Error.kind_rename, Error.message_rename]
    rfl

/-- A caller cannot tell twins from each other. -/
theorem Twin.observe_eq {s s' : Session} (h : Twin ts new s s') (budget : Nat)
    (requests : List Request) :
    (s'.handleAll budget requests).map observe = (s.handleAll budget requests).map observe := by
  rcases (h.handleAll budget requests).cases with
    ⟨hall, hall'⟩ | ⟨answers, next, next', hall, hall', us, -, rfl⟩
  · rw [hall, hall']
  · have hviews : (answers.map (List.map (Result.rename (shift (count ts) (count new))))).map
        (List.map view) = answers.map (List.map view) := by
      simp [Function.comp_def, view_rename]
    rw [hall, hall']
    dsimp only [Option.map_some, observe]
    rw [hviews]
    rfl

/-! ## Rejected chunks -/

/-- If the only result of a chunk is that it cannot be read, then nothing was evaluated.
The text is no sequence of tokens, or the first expression cannot be read. -/
theorem eq_of_rejected_feed {budget : Nat} {session next : Session} {text : String}
    {cause : SyntaxError}
    (h : session.feed budget text = some ([.error (.unreadable cause)], next)) :
    next = session.resetInput ∨
      ∃ ts, next = (session.addPending ts).afterOwnRead.resetInput := by
  cases hlex : Token.lex text with
  | error e =>
    rw [feed_of_lex_error hlex] at h
    cases h
    exact .inl rfl
  | ok ts =>
    rw [feed_of_lex hlex, drainAll_eq] at h
    split at h
    · cases h
      exact .inr ⟨ts, rfl⟩
    · cases h
    · split at h
      · cases h
      · rename_i result after hrun
        obtain ⟨⟨more, last⟩, -, heq⟩ := Option.map_eq_some_iff.1 h
        cases heq
        rcases evaluateRoot_error_cases hrun with hordinary | ⟨l, -, hdeep⟩
        · exact hordinary.elim
        · cases hdeep

/-- A chunk that cannot be read leaves no trace.  If its only result is a syntax error,
then the session cannot be told from the session in which the input was dropped instead,
whatever is asked of it.  The requests are any requests, and so this is the case after
each of them. -/
theorem rejected_feed_eq_resetInput {session next : Session} (hreachable : session.Reachable)
    {budget : Nat} {text : String} {cause : SyntaxError}
    (hfeed : session.feed budget text = some ([.error (.unreadable cause)], next))
    (budget' : Nat) (requests : List Request) :
    (next.handleAll budget' requests).map observe =
      (session.resetInput.handleAll budget' requests).map observe := by
  rcases eq_of_rejected_feed hfeed with rfl | ⟨tokens, rfl⟩
  · rfl
  obtain ⟨trees, harena⟩ := hreachable.sound.grown.exists_eq_ofForest
  obtain ⟨new, hnew⟩ := (session.addPending tokens).reader.exists_read_arena_eq trees
  rw [← harena] at hnew
  have hstore := hreachable.settled (count new)
  rw [harena, Arena.size_ofForest] at hstore
  have htwin : Twin trees new session.resetInput
      (session.addPending tokens).afterOwnRead.resetInput := by
    refine ⟨[], ?_, ?_⟩
    · rw [List.append_nil]
      exact harena
    · rw [List.append_nil, ← hnew]
      show _ = { session with
        arena := _, reader := {}, store := session.store.rename (shift (count trees) (count new)) }
      rw [hstore]
      rfl
  exact htwin.observe_eq budget' requests

/-- The nodes of a string and of a call are left behind.  The later strings are other
strings than the first one, and the later errors show the later expressions. -/
theorem rejected_feed_eq_resetInput_literals :
    ∃ session next : Session, session.Reachable ∧ session.isPending = true ∧
      session.feed 30 "\"b\" (s) 1x) (display s)" =
        some ([.error (.unreadable (.invalidIdentifier "1x"))], next) ∧
      session.arena.size < next.arena.size ∧
      ((next.handleAll 30 [.evaluate "(eq? s \"a\")", .feed "(if) (display s) (s"]).map
          observe).map (fun seen => (seen.results, seen.isPending, seen.sink.text)) =
        some ([[.ok (.boolean false)],
          [.error ("MalformedSpecialForm", "malformed special form: (if)"), .ok .unspecified]],
          true, "a") := by
  have hbegun : ∃ session, handle 30 { sink := .accepting, limit := some 9 }
        (.feed "(define s \"a\") (s") = some ([.ok .unspecified], session) ∧
      session.isPending = true ∧
      ∃ next, session.feed 30 "\"b\" (s) 1x) (display s)" =
          some ([.error (.unreadable (.invalidIdentifier "1x"))], next) ∧
        session.arena.size < next.arena.size ∧
        ((session.resetInput.handleAll 30
            [.evaluate "(eq? s \"a\")", .feed "(if) (display s) (s"]).map
            observe).map (fun seen => (seen.results, seen.isPending, seen.sink.text)) =
          some ([[.ok (.boolean false)],
            [.error ("MalformedSpecialForm", "malformed special form: (if)"),
              .ok .unspecified]], true, "a") :=
    ⟨_, rfl, rfl, _, rfl, by decide, rfl⟩
  obtain ⟨session, hhandle, hpending, next, hfeed, hsize, hseen⟩ := hbegun
  have hreachable : session.Reachable := .handle (.fresh .accepting (some 9)) hhandle
  refine ⟨session, next, hreachable, hpending, hfeed, hsize, ?_⟩
  rw [rejected_feed_eq_resetInput hreachable hfeed, hseen]

end Session

end StackScheme
