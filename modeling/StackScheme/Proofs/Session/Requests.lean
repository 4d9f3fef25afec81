import StackScheme.Session

/-!
# Requests to a session

A session is asked to evaluate texts, to take chunks and to drop its input.

* `Session.handle` answers a request, `Session.handleAll` answers several of them,
  and `Session.Reachable` are the sessions that requests lead to.
* Reading.  `Session.afterRead` and `Session.afterOwnRead` are the sessions in
  which an expression that was read is evaluated.  The two loops over the
  expressions of a text are given in terms of them.
* Invariants.  `Session.Keeps` says that reading and evaluating one expression keep
  a property of sessions and have errors of some kind.  `Session.Keeps.handle` says
  the same of whole requests, and `Session.Keeps.reachable` of several of them.
-/

namespace StackScheme.Session

/-! ## Requests -/

/-- What a session is asked to do. -/
inductive Request where
  /-- Evaluate a whole text. -/
  | evaluate (text : String)
  /-- Take a chunk of text. -/
  | feed (text : String)
  /-- Drop the input that waits. -/
  | resetInput

/-- Answers a request.  A whole text has one result. -/
def handle (budget : Nat) (session : Session) : Request → Option (List Result × Session)
  | .evaluate text => (session.evaluate budget text).map fun (result, next) => ([result], next)
  | .feed text => session.feed budget text
  | .resetInput => some ([], session.resetInput)

/-- Answers requests one after the other, and gives the results of each. -/
def handleAll (budget : Nat) : Session → List Request → Option (List (List Result) × Session)
  | session, [] => some ([], session)
  | session, request :: requests =>
    match session.handle budget request with
    | none => none
    | some (results, next) =>
      (next.handleAll budget requests).map fun (answers, last) => (results :: answers, last)

/-- The sessions that requests lead to, from a session with any sink and limit. -/
inductive Reachable : Session → Prop
  | fresh (sink : Sink) (limit : Option Nat) : Reachable { sink, limit }
  | handle {session next : Session} {budget : Nat} {request : Request} {results : List Result}
    (h : Reachable session) (hhandle : session.handle budget request = some (results, next)) :
    Reachable next

/-- An evaluation changes neither the arena nor the input nor the limit. -/
theorem kept_of_evaluateRoot {budget : Nat} {session next : Session} {root : NodeId}
    {result : Result} (h : session.evaluateRoot budget root = some (result, next)) :
    next.arena = session.arena ∧ next.reader = session.reader ∧ next.limit = session.limit := by
  unfold evaluateRoot at h
  dsimp only at h
  split at h
  · cases h
  · cases h
    exact ⟨rfl, rfl, rfl⟩

/-- An expression that has a result is a run that ended. -/
theorem exists_run_of_evaluateRoot {budget : Nat} {session next : Session} {root : NodeId}
    {result : Result} (h : session.evaluateRoot budget root = some (result, next)) :
    ∃ outcome t, Machine.run session.arena session.limit budget
        (.initial session.store session.sink root) = some (outcome, t) ∧
      result = withFlush outcome t.sink.flush.1 ∧ next.store = t.store := by
  unfold evaluateRoot at h
  dsimp only at h
  split at h
  · cases h
  · rename_i hrun
    cases h
    exact ⟨_, _, hrun, rfl, rfl⟩

/-! ## Reading -/

/-- The session after an expression was read from a reader. -/
def afterRead (session : Session) (reader : Reader) : Session :=
  { session with arena := (reader.read session.arena).arena }

/-- The session after an expression was read from its own input. -/
def afterOwnRead (session : Session) : Session :=
  { session with
    arena := (session.reader.read session.arena).arena
    reader := (session.reader.read session.arena).reader }

theorem evaluateAll_succ (budget fuel : Nat) (session : Session) (reader : Reader)
    (last : Answer) :
    session.evaluateAll budget (fuel + 1) reader last =
      match (reader.read session.arena).root with
      | .error e => some (.error (.unreadable e), session.afterRead reader)
      | .ok none =>
        some (if (reader.read session.arena).reader.isPending then .error (.unreadable .incomplete)
          else .ok last, session.afterRead reader)
      | .ok (some root) =>
        match (session.afterRead reader).evaluateRoot budget root with
        | none => none
        | some (.error e, next) => some (.error e, next)
        | some (.ok answer, next) =>
          next.evaluateAll budget fuel (reader.read session.arena).reader answer := rfl

/-- An empty reader has nothing to evaluate. -/
theorem evaluateAll_empty (budget fuel : Nat) (session : Session) (last : Answer) :
    session.evaluateAll budget fuel {} last = some (.ok last, session) := by
  cases fuel <;> rfl

theorem drain_succ (budget fuel : Nat) (session : Session) (done : List Result) :
    session.drain budget (fuel + 1) done =
      match (session.reader.read session.arena).root with
      | .error e => some ((.error (.unreadable e) :: done).reverse, session.afterOwnRead.resetInput)
      | .ok none => some (done.reverse, session.afterOwnRead)
      | .ok (some root) =>
        match session.afterOwnRead.evaluateRoot budget root with
        | none => none
        | some (result, next) => next.drain budget fuel (result :: done) := rfl

/-- An evaluation does not look at the tokens that wait, and leaves them. -/
theorem evaluateRoot_withReader (budget : Nat) (session : Session) (reader : Reader)
    (root : NodeId) :
    evaluateRoot budget { session with reader } root =
      (session.evaluateRoot budget root).map fun (result, next) =>
        (result, { next with reader }) := by
  unfold evaluateRoot
  dsimp only
  cases Machine.run session.arena session.limit budget
    (.initial session.store session.sink root) <;> rfl

/-! ## Invariants -/

/-- Whatever waits, reading and evaluating one expression keep the property `P` of
sessions, and their errors have the property `Q`. -/
structure Keeps (budget : Nat) (P : Session → Prop) (Q : Error → Prop) : Prop where
  withReader {session : Session} (h : P session) (reader : Reader) : P { session with reader }
  read {session : Session} (h : P session) (reader : Reader) : P (session.afterRead reader)
  unreadable (cause : SyntaxError) : Q (.unreadable cause)
  evaluateRoot {session next : Session} {reader : Reader} {root : NodeId} {result : Result}
    (h : P session) (hroot : (reader.read session.arena).root = .ok (some root))
    (hrun : (session.afterRead reader).evaluateRoot budget root = some (result, next)) :
    (∀ e, result = .error e → Q e) ∧ P next

namespace Keeps

variable {P : Session → Prop} {Q : Error → Prop} {budget : Nat} {session next : Session}

theorem evaluateAll (hkeeps : Keeps budget P Q) {fuel : Nat} {reader : Reader} {last : Answer}
    {result : Result} (h : P session)
    (heval : session.evaluateAll budget fuel reader last = some (result, next)) :
    (∀ e, result = .error e → Q e) ∧ P next := by
  have hend : ∀ (pending : Bool) (last : Answer) e,
      (if pending then .error (.unreadable .incomplete) else .ok last : Result) = .error e →
        Q e := by
    intro pending last e he
    cases pending with
    | false => cases he
    | true =>
      cases he
      exact hkeeps.unreadable _
  induction fuel generalizing session reader last with
  | zero =>
    cases heval
    exact ⟨hend _ last, h⟩
  | succ fuel ih =>
    have hread := hkeeps.read h reader
    rw [evaluateAll_succ] at heval
    split at heval
    · rename_i cause _
      cases heval
      refine ⟨fun e he => ?_, hread⟩
      cases he
      exact hkeeps.unreadable cause
    · cases heval
      exact ⟨hend _ last, hread⟩
    · rename_i root hroot
      split at heval
      · cases heval
      · rename_i hrun
        cases heval
        exact hkeeps.evaluateRoot h hroot hrun
      · rename_i hrun
        exact ih (hkeeps.evaluateRoot h hroot hrun).2 heval

/-- An expression of the session's own input keeps the property too. -/
theorem evaluateOwnRoot (hkeeps : Keeps budget P Q) {root : NodeId} {result : Result}
    (h : P session) (hroot : (session.reader.read session.arena).root = .ok (some root))
    (hrun : session.afterOwnRead.evaluateRoot budget root = some (result, next)) :
    (∀ e, result = .error e → Q e) ∧ P next := by
  -- The run does not depend on what waits behind the expression.
  have hrest := evaluateRoot_withReader budget (session.afterRead session.reader)
    (session.reader.read session.arena).reader root
  obtain ⟨⟨_, before⟩, hbefore, heq⟩ := Option.map_eq_some_iff.1 (hrest.symm.trans hrun)
  cases heq
  obtain ⟨hresult, hnext⟩ := hkeeps.evaluateRoot h hroot hbefore
  exact ⟨hresult, hkeeps.withReader hnext _⟩

theorem drain (hkeeps : Keeps budget P Q) {fuel : Nat} {done results : List Result}
    (h : P session) (hdone : ∀ e, .error e ∈ done → Q e)
    (hdrain : session.drain budget fuel done = some (results, next)) :
    (∀ e, .error e ∈ results → Q e) ∧ P next := by
  induction fuel generalizing session done with
  | zero =>
    cases hdrain
    exact ⟨fun e he => hdone e (List.mem_reverse.1 he), h⟩
  | succ fuel ih =>
    have hread := hkeeps.withReader (hkeeps.read h session.reader)
      (session.reader.read session.arena).reader
    rw [drain_succ] at hdrain
    split at hdrain
    · rename_i cause _
      cases hdrain
      refine ⟨fun e he => ?_, hkeeps.withReader hread {}⟩
      rcases List.mem_cons.1 (List.mem_reverse.1 he) with heq | he
      · cases heq
        exact hkeeps.unreadable cause
      · exact hdone e he
    · cases hdrain
      exact ⟨fun e he => hdone e (List.mem_reverse.1 he), hread⟩
    · rename_i root hroot
      split at hdrain
      · cases hdrain
      · rename_i result after hrun
        obtain ⟨hresult, hnext⟩ := hkeeps.evaluateOwnRoot h hroot hrun
        refine ih hnext (fun e he => ?_) hdrain
        rcases List.mem_cons.1 he with heq | he
        · exact hresult e heq.symm
        · exact hdone e he

/-- Requests keep the property as well, and their errors are of the same kind. -/
theorem handle (hkeeps : Keeps budget P Q) {request : Request} {results : List Result}
    (h : P session) (hhandle : session.handle budget request = some (results, next)) :
    (∀ e, .error e ∈ results → Q e) ∧ P next := by
  have hnone : ∀ e, .error e ∈ ([] : List Result) → Q e :=
    fun _ he => absurd he List.not_mem_nil
  cases request with
  | evaluate text =>
    obtain ⟨⟨result, after⟩, heval, heq⟩ := Option.map_eq_some_iff.1 hhandle
    cases heq
    rw [evaluate] at heval
    split at heval
    · rename_i cause _
      cases heval
      refine ⟨fun e he => ?_, h⟩
      cases List.mem_singleton.1 he
      exact hkeeps.unreadable cause
    · obtain ⟨hresult, hnext⟩ := hkeeps.evaluateAll h heval
      exact ⟨fun e he => hresult e (List.mem_singleton.1 he).symm, hnext⟩
  | feed text =>
    rw [Session.handle, feed] at hhandle
    split at hhandle
    · rename_i cause _
      cases hhandle
      refine ⟨fun e he => ?_, hkeeps.withReader h {}⟩
      cases List.mem_singleton.1 he
      exact hkeeps.unreadable cause
    · rename_i reader _
      exact hkeeps.drain (hkeeps.withReader h reader) hnone hhandle
  | resetInput =>
    cases hhandle
    exact ⟨hnone, hkeeps.withReader h {}⟩

theorem reachable (hkeeps : ∀ budget, Keeps budget P Q)
    (hfresh : ∀ sink limit, P { sink, limit }) (h : session.Reachable) : P session := by
  induction h with
  | fresh sink limit => exact hfresh sink limit
  | @handle _ _ budget _ _ _ hhandle ih => exact ((hkeeps budget).handle ih hhandle).2

end Keeps

end StackScheme.Session
