import StackScheme.Proofs.Machine.Safety
import StackScheme.Proofs.Session.Requests

/-!
# No request to a session has a fault

A session is asked to evaluate texts, to take chunks and to drop its input.
Whatever it is asked, and in whatever order, no run of the machine that a request
starts ever has a fault.

* `Session.Starts` are the runs that a request starts, each with the session at
  its start.  `exists_starts_of_handle_eq_none` says that a request without an
  answer has started a run that is still going on.
* `Session.Sound` is the invariant of sessions: the arena comes from reading, and
  the store is inside of it.
-/

namespace StackScheme.Session

open Machine

/-! ## Runs of a request -/

/-- Evaluating a text starts a run at `root`, in the session `start`.  A run
starts only if there was no error before. -/
inductive EvaluatesAt (budget : Nat) : Session → Reader → (start : Session) → (root : NodeId) → Prop
  | here {session : Session} {reader : Reader} {root : NodeId}
    (hroot : (reader.read session.arena).root = .ok (some root)) :
    EvaluatesAt budget session reader (session.afterRead reader) root
  | later {session next start : Session} {reader : Reader} {first root : NodeId} {answer : Answer}
    (hfirst : (reader.read session.arena).root = .ok (some first))
    (hrun : (session.afterRead reader).evaluateRoot budget first = some (.ok answer, next))
    (h : EvaluatesAt budget next (reader.read session.arena).reader start root) :
    EvaluatesAt budget session reader start root

/-- Taking a chunk starts a run at `root`, in the session `start`. -/
inductive DrainsAt (budget : Nat) : Session → (start : Session) → (root : NodeId) → Prop
  | here {session : Session} {root : NodeId}
    (hroot : (session.reader.read session.arena).root = .ok (some root)) :
    DrainsAt budget session session.afterOwnRead root
  | later {session next start : Session} {first root : NodeId} {result : Result}
    (hfirst : (session.reader.read session.arena).root = .ok (some first))
    (hrun : session.afterOwnRead.evaluateRoot budget first = some (result, next))
    (h : DrainsAt budget next start root) : DrainsAt budget session start root

/-- A request starts a run at `root`, in the session `start`. -/
def Starts (budget : Nat) (session : Session) (request : Request) (start : Session)
    (root : NodeId) : Prop :=
  match request with
  | .evaluate text =>
    ∃ reader, ({} : Reader).feed text = .ok reader ∧ EvaluatesAt budget session reader start root
  | .feed text =>
    ∃ reader, session.reader.feed text = .ok reader ∧
      DrainsAt budget { session with reader } start root
  | .resetInput => False

section Kept

variable {budget : Nat} {P : Session → Prop} {Q : Error → Prop} (hkeeps : Keeps budget P Q)
  {session start : Session} {root : NodeId}
include hkeeps

theorem EvaluatesAt.kept {reader : Reader} (h : EvaluatesAt budget session reader start root)
    (hsession : P session) : P start := by
  induction h with
  | here _ => exact hkeeps.read hsession _
  | later hfirst hrun _ ih => exact ih (hkeeps.evaluateRoot hsession hfirst hrun).2

theorem DrainsAt.kept (h : DrainsAt budget session start root) (hsession : P session) :
    P start := by
  induction h with
  | here _ => exact hkeeps.withReader (hkeeps.read hsession _) _
  | later hfirst hrun _ ih => exact ih (hkeeps.evaluateOwnRoot hsession hfirst hrun).2

/-- What requests keep holds in the session at the start of each run. -/
theorem Starts.kept {request : Request} (h : session.Starts budget request start root)
    (hsession : P session) : P start := by
  cases request with
  | evaluate text =>
    obtain ⟨reader, -, h⟩ := h
    exact h.kept hkeeps hsession
  | feed text =>
    obtain ⟨reader, -, h⟩ := h
    exact h.kept hkeeps (hkeeps.withReader hsession reader)
  | resetInput => exact h.elim

end Kept

/-- The state in which the run at `root` starts. -/
def firstState (session : Session) (root : NodeId) : State :=
  .initial session.store session.sink root

/-! ## The invariant -/

/-- The arena comes from reading, and procedures have their bodies in it. -/
structure Sound (session : Session) : Prop where
  grown : session.arena.Grown
  store : session.store.Inside session.arena.size

theorem sound_fresh (sink : Sink) (limit : Option Nat) : Sound { sink, limit } :=
  ⟨.empty, Store.inside_initial _⟩

theorem Sound.afterRead {session : Session} (h : session.Sound) (reader : Reader) :
    (session.afterRead reader).Sound :=
  ⟨.read reader h.grown, h.store.mono (h.grown.size_le_read reader)⟩

theorem Sound.afterOwnRead {session : Session} (h : session.Sound) : session.afterOwnRead.Sound :=
  ⟨.read session.reader h.grown, h.store.mono (h.grown.size_le_read session.reader)⟩

theorem evaluateRoot_eq_none_iff {budget : Nat} {session : Session} {root : NodeId} :
    session.evaluateRoot budget root = none ↔
      run session.arena session.limit budget (session.firstState root) = none := by
  rw [evaluateRoot, firstState]
  cases run session.arena session.limit budget (.initial session.store session.sink root) <;> simp

/-- An expression that was read is evaluated without a fault. -/
theorem Sound.evaluateRoot {session next : Session} (h : session.Sound) {budget root : Nat}
    {result : Result} (hroot : root < session.arena.size)
    (heval : session.evaluateRoot budget root = some (result, next)) :
    NoFault result ∧ next.Sound := by
  obtain ⟨outcome, t, hrun, rfl, hstore⟩ := exists_run_of_evaluateRoot heval
  obtain ⟨harena, -, -⟩ := kept_of_evaluateRoot heval
  have hend := Machine.Sound.of_leads h.grown.wellLinked (sound_initial hroot h.store)
    (leads_of_run_eq_some hrun)
  refine ⟨?_, harena ▸ h.grown, ?_⟩
  · cases outcome with
    | error e => exact hend.1
    | ok v =>
      cases t.sink.flush.1 with
      | none => trivial
      | some reason => exact id
  · rw [hstore, harena]
    exact hend.2

/-! ## Whole requests -/

/-- Expressions are evaluated without a fault, and sessions stay sound. -/
theorem keeps_sound (budget : Nat) : Keeps budget Sound fun e => ¬ e.IsFault where
  withReader h _ := ⟨h.grown, h.store⟩
  read h reader := h.afterRead reader
  unreadable _ := id
  evaluateRoot {_ _ reader _ _} h hroot hrun := by
    obtain ⟨hresult, hnext⟩ := (h.afterRead reader).evaluateRoot (h.grown.root_lt_size hroot) hrun
    refine ⟨fun e he => ?_, hnext⟩
    rw [he] at hresult
    exact hresult

theorem Reachable.sound {session : Session} (h : session.Reachable) : session.Sound :=
  Keeps.reachable keeps_sound sound_fresh h

/-! ## Runs of requests -/

theorem EvaluatesAt.sound {budget : Nat} {session start : Session} {reader : Reader} {root : Nat}
    (h : EvaluatesAt budget session reader start root) (hsession : session.Sound) :
    start.Sound ∧ root < start.arena.size := by
  induction h with
  | here hroot => exact ⟨hsession.afterRead _, hsession.grown.root_lt_size hroot⟩
  | later hfirst hrun _ ih =>
    have hlt := hsession.grown.root_lt_size hfirst
    exact ih ((hsession.afterRead _).evaluateRoot hlt hrun).2

theorem DrainsAt.sound {budget : Nat} {session start : Session} {root : Nat}
    (h : DrainsAt budget session start root) (hsession : session.Sound) :
    start.Sound ∧ root < start.arena.size := by
  induction h with
  | here hroot => exact ⟨hsession.afterOwnRead, hsession.grown.root_lt_size hroot⟩
  | later hfirst hrun _ ih =>
    have hlt := hsession.grown.root_lt_size hfirst
    exact ih (hsession.afterOwnRead.evaluateRoot hlt hrun).2

theorem Starts.sound {budget : Nat} {session start : Session} {request : Request} {root : Nat}
    (h : session.Starts budget request start root) (hsession : session.Sound) :
    start.Sound ∧ root < start.arena.size := by
  cases request with
  | evaluate text =>
    obtain ⟨reader, -, h⟩ := h
    exact h.sound hsession
  | feed text =>
    obtain ⟨reader, -, h⟩ := h
    exact h.sound ⟨hsession.grown, hsession.store⟩
  | resetInput => exact h.elim

theorem exists_evaluatesAt_of_eq_none {budget fuel : Nat} {session : Session} {reader : Reader}
    {last : Answer} (h : session.evaluateAll budget fuel reader last = none) :
    ∃ start root, EvaluatesAt budget session reader start root ∧
      run start.arena start.limit budget (start.firstState root) = none := by
  induction fuel generalizing session reader last with
  | zero => cases h
  | succ fuel ih =>
    rw [evaluateAll_succ] at h
    split at h
    · cases h
    · cases h
    · rename_i root hroot
      split at h
      · rename_i hrun
        exact ⟨_, root, .here hroot, evaluateRoot_eq_none_iff.1 hrun⟩
      · cases h
      · rename_i answer next hrun
        obtain ⟨start, root', hstart, hnone⟩ := ih h
        exact ⟨start, root', .later hroot hrun hstart, hnone⟩

theorem exists_drainsAt_of_eq_none {budget fuel : Nat} {session : Session} {done : List Result}
    (h : session.drain budget fuel done = none) :
    ∃ start root, DrainsAt budget session start root ∧
      run start.arena start.limit budget (start.firstState root) = none := by
  induction fuel generalizing session done with
  | zero => cases h
  | succ fuel ih =>
    rw [drain_succ] at h
    split at h
    · cases h
    · cases h
    · rename_i root hroot
      split at h
      · rename_i hrun
        exact ⟨_, root, .here hroot, evaluateRoot_eq_none_iff.1 hrun⟩
      · rename_i result next hrun
        obtain ⟨start, root', hstart, hnone⟩ := ih h
        exact ⟨start, root', .later hroot hrun hstart, hnone⟩

/-- A request that has no answer within the budget started a run that is still
going on. -/
theorem exists_starts_of_handle_eq_none {budget : Nat} {session : Session} {request : Request}
    (h : session.handle budget request = none) :
    ∃ start root, session.Starts budget request start root ∧
      run start.arena start.limit budget (start.firstState root) = none := by
  cases request with
  | evaluate text =>
    rw [Session.handle, Option.map_eq_none_iff, Session.evaluate] at h
    split at h
    · cases h
    · rename_i reader hfeed
      obtain ⟨start, root, hstart, hnone⟩ := exists_evaluatesAt_of_eq_none h
      exact ⟨start, root, ⟨reader, hfeed, hstart⟩, hnone⟩
  | feed text =>
    rw [Session.handle, Session.feed] at h
    split at h
    · cases h
    · rename_i reader hfeed
      obtain ⟨start, root, hstart, hnone⟩ := exists_drainsAt_of_eq_none h
      exact ⟨start, root, ⟨reader, hfeed, hstart⟩, hnone⟩
  | resetInput => cases h

/-- Every state of a run in a sound session is safe, and its step is no fault. -/
theorem Sound.safe_of_leads {session : Session} (h : session.Sound) {root : Nat}
    (hroot : root < session.arena.size) {s : State}
    (hleads : Leads session.arena session.limit (.running (session.firstState root))
      (.running s)) :
    s.Safe session.arena ∧
      ∀ fault t, step session.arena session.limit s ≠ .halted (.error (.internal fault)) t := by
  have hlinks := h.grown.wellLinked
  have hsound := Machine.Sound.of_leads hlinks (sound_initial hroot h.store) hleads
  refine ⟨hsound.safe, fun fault t hstep => ?_⟩
  have hnext : Machine.Sound session.arena (step session.arena session.limit s) :=
    sound_step hlinks hsound
  rw [hstep] at hnext
  exact hnext.1 trivial

/-- No request has a fault, whatever was asked before.  In each run that the
request starts, links stay in the arena, and in each state of the run the
registers are safe and the next step is no fault.  No result is a fault, and if
there is no result yet, some run is still going on. -/
theorem no_fault_of_reachable {session : Session} (h : session.Reachable) (budget : Nat)
    (request : Request) :
    (∀ start root, session.Starts budget request start root →
      start.arena.WellLinked ∧
        ∀ s, Leads start.arena start.limit (.running (start.firstState root)) (.running s) →
          s.Safe start.arena ∧
            ∀ fault t, step start.arena start.limit s ≠ .halted (.error (.internal fault)) t) ∧
      match session.handle budget request with
      | some (results, _) => ∀ fault, Except.error (.internal fault) ∉ results
      | none =>
        ∃ start root, session.Starts budget request start root ∧
          run start.arena start.limit budget (start.firstState root) = none := by
  have hsession := h.sound
  refine ⟨fun start root hstart => ?_, ?_⟩
  · obtain ⟨hsound, hroot⟩ := hstart.sound hsession
    exact ⟨hsound.grown.wellLinked, fun s hleads => hsound.safe_of_leads hroot hleads⟩
  · cases hhandle : session.handle budget request with
    | none => exact exists_starts_of_handle_eq_none hhandle
    | some answered =>
      intro fault hmem
      exact ((keeps_sound budget).handle hsession hhandle).1 _ hmem trivial

/-- A call that is completed by a second chunk is safe from its first state on. -/
theorem no_fault_of_reachable_feed :
    ∃ (session start : Session) (root : NodeId), session.Reachable ∧ session.isPending = true ∧
      session.Starts 60 (.feed " #t)") start root ∧
      (start.firstState root).Safe start.arena := by
  have hhandle : ∃ next, handle 60 { sink := .accepting, limit := some 9 }
      (.feed "(define (f x) (if x (f #f) (display x))) (f") = some ([.ok .unspecified], next) ∧
        next.isPending = true ∧ ∃ start root, next.Starts 60 (.feed " #t)") start root :=
    ⟨_, rfl, rfl, _, _, _, rfl, .here rfl⟩
  obtain ⟨session, hhandle, hpending, start, root, hstarts⟩ := hhandle
  have hreachable : session.Reachable := .handle (.fresh .accepting (some 9)) hhandle
  have hsafe := ((no_fault_of_reachable hreachable 60 (.feed " #t)")).1 start root hstarts).2
  exact ⟨session, start, root, hreachable, hpending, hstarts, (hsafe _ (.refl _)).1⟩

end StackScheme.Session
