import StackScheme.Proofs.Machine.Makings
import StackScheme.Proofs.Session.Scopes

/-!
# Procedures of a session

A procedure may be called long after it was made, by another request and in a greater
arena.  Whatever was asked of a session, each procedure that is around is as the form that
made it left it.

* `Session.Makes` is the record of the procedures that a session has made.  It follows the
  session through reading and evaluating, which is all that requests come to:
  `exists_makes_of_reachable` says that every session has its record.
* `Session.Informed` is the invariant: all procedures of a session stand in its record.
* `procedures_of_reachable` is the result for the runs that requests start.
-/

namespace StackScheme

/-- The procedure that a value is. -/
def Value.closure? : Value → Option Closure
  | .closure c => some c
  | _ => none

theorem Value.mem_of_mem_closures {c : Closure} {vs : List Value}
    (h : c ∈ vs.filterMap closure?) : .closure c ∈ vs := by
  obtain ⟨v, hv, heq⟩ := List.mem_filterMap.1 h
  cases v with
  | closure d =>
    obtain rfl := Option.some.inj heq
    exact hv
  | _ => cases heq

namespace Session

open Machine

/-! ## Records -/

/-- The record of the procedures that a session has made, the oldest first. -/
inductive Makes : Session → List Making → Prop
  | fresh (sink : Sink) (limit : Option Nat) : Makes { sink, limit } []
  | withReader {session : Session} {ms : List Making} (h : Makes session ms) (reader : Reader) :
    Makes { session with reader } ms
  | read {session : Session} {ms : List Making} (h : Makes session ms) (reader : Reader) :
    Makes (session.afterRead reader) ms
  | evaluateRoot {session next : Session} {budget : Nat} {root : NodeId} {result : Result}
    {outcome : Except Error Value} {t : State} {ms new : List Making} (h : Makes session ms)
    (heval : session.evaluateRoot budget root = some (result, next))
    (hnew : Machine.Makes session.arena session.limit (session.firstState root)
      (.halted outcome t) new) : Makes next (ms ++ new)

theorem keeps_makes (budget : Nat) :
    Keeps budget (fun session => ∃ ms, session.Makes ms) fun _ => True where
  withReader h reader := h.imp fun _ h => h.withReader reader
  read h reader := h.imp fun _ h => h.read reader
  unreadable _ := trivial
  evaluateRoot {_ _ reader _ _} h _ heval := by
    obtain ⟨ms, hms⟩ := h
    obtain ⟨outcome, t, hrun, -, -⟩ := exists_run_of_evaluateRoot heval
    obtain ⟨new, hnew⟩ := exists_makes (leads_of_run_eq_some hrun)
    exact ⟨fun _ _ => trivial, ms ++ new, (hms.read reader).evaluateRoot heval hnew⟩

/-- Every session has its record. -/
theorem exists_makes_of_reachable {session : Session} (h : session.Reachable) :
    ∃ ms, session.Makes ms :=
  Keeps.reachable keeps_makes (fun sink limit => ⟨[], .fresh sink limit⟩) h

/-! ## The invariant -/

/-- All procedures stand in the record. -/
structure Informed (session : Session) (ms : List Making) : Prop where
  grown : session.arena.Grown
  nested : session.store.Nested
  bindings : session.store.Holds (Recorded session.arena ms session.store.scopes.size)

/-- All procedures stand in the record at each stage of a run. -/
theorem Informed.carries {session : Session} {ms : List Making} (h : session.Informed ms)
    {root : NodeId} {p : Progress} {new : List Making}
    (hnew : Machine.Makes session.arena session.limit (session.firstState root) p new) :
    Carries (Recorded session.arena (ms ++ new)) session.store p :=
  hnew.carries h.grown.wellLinked (carries_initial h.nested h.bindings session.sink root)

theorem Informed.evaluateRoot {session next : Session} {ms : List Making}
    (h : session.Informed ms) {budget : Nat} {root : NodeId} {result : Result}
    (heval : session.evaluateRoot budget root = some (result, next))
    {outcome : Except Error Value} {t : State} {new : List Making}
    (hnew : Machine.Makes session.arena session.limit (session.firstState root)
      (.halted outcome t) new) : next.Informed (ms ++ new) := by
  obtain ⟨harena, -, -⟩ := kept_of_evaluateRoot heval
  have hcarries : ∀ outcome' t', Leads session.arena session.limit
      (.running (session.firstState root)) (.halted outcome' t') →
        Carries (Recorded session.arena (ms ++ new)) session.store (.halted outcome' t') := by
    intro outcome' t' hp
    obtain ⟨rfl, rfl⟩ := hp.halted_inj hnew.leads
    exact h.carries hnew
  obtain ⟨hnested, hbindings⟩ := holds_of_evaluateRoot heval hcarries
  rw [← harena] at hbindings
  exact ⟨harena ▸ h.grown, hnested, hbindings⟩

theorem Makes.informed {session : Session} {ms : List Making} (h : session.Makes ms) :
    session.Informed ms := by
  induction h with
  | fresh sink limit =>
    exact ⟨.empty, Store.nested_initial,
      Store.holds_initial (fun _ => trivial) fun _ => trivial⟩
  | withReader _ _ ih => exact ⟨ih.grown, ih.nested, ih.bindings⟩
  | read _ reader ih =>
    have hbindings := Store.Holds.imp ih.bindings fun _ hv =>
      hv.extends (ih.grown.extends_read reader) ih.grown.wellLinked fun _ hm => hm
    exact ⟨.read reader ih.grown, ih.nested, hbindings⟩
  | evaluateRoot _ heval hnew ih => exact ih.evaluateRoot heval hnew

/-! ## Stages of runs -/

/-- Every procedure that is around is well formed, at each stage of each run that a request
starts.  Let `before` be the record of the session and `new` that of the run so far.

* The procedure stands in one of the records.  It is written as the form that made it, with
  the operands behind the first one as its body, and its scope was the current one when the
  form was performed.
* Its parameters are distinct.  Its body is not empty, because a form without a body is
  refused before (`prepare_of_length_lt`), and lies in the arena.
* Applied to as many arguments as it has parameters, it finds each argument under the
  parameter at the same position. -/
theorem procedures_of_reachable {session : Session} (h : session.Reachable) {budget : Nat}
    {request : Request} {start : Session} {root : NodeId}
    (hstart : session.Starts budget request start root) {p : Progress}
    (hp : Leads start.arena start.limit (.running (start.firstState root)) p) :
    (∃ before new, start.Makes before ∧
        Machine.Makes start.arena start.limit (start.firstState root) p new) ∧
      ∀ before new, start.Makes before →
        Machine.Makes start.arena start.limit (start.firstState root) p new →
        ∀ c, p.Has (.closure c) →
          (∃ m ∈ before ++ new, m.closure = c ∧ c.WrittenAt start.arena m.node m.form ∧
              c.scope = m.state.scope) ∧
            c.parameters.Nodup ∧ c.body ≠ [] ∧ (∀ node ∈ c.body, node < start.arena.size) ∧
            BindsArguments c := by
  refine ⟨?_, fun before new hbefore hnew c hc => ?_⟩
  · obtain ⟨before, hbefore⟩ := hstart.kept (keeps_makes budget) (exists_makes_of_reachable h)
    obtain ⟨new, hnew⟩ := exists_makes hp
    exact ⟨before, new, hbefore, hnew⟩
  · obtain ⟨-, m, hm, rfl, hformed⟩ := (hbefore.informed.carries hnew).of_has hc
    exact ⟨⟨m, hm, rfl, hformed.written, hformed.scope⟩, hformed.distinct, List.cons_ne_nil _ _,
      List.forall_mem_cons.2 hformed.inside, bindsArguments_of_nodup hformed.distinct⟩

/-- A procedure that one chunk has defined is around when the next one asks for it. -/
theorem procedures_of_reachable_define :
    ∃ (session start : Session) (root : NodeId) (p : Progress) (c : Closure),
      session.Reachable ∧ session.Starts 60 (.feed "f") start root ∧
      Leads start.arena start.limit (.running (start.firstState root)) p ∧
      p.Has (.closure c) ∧ c.parameters = ["x"] ∧
      (∃ m : Making, m.closure = c ∧ c.WrittenAt start.arena m.node m.form) ∧
      BindsArguments c := by
  have hhandle : ∃ next, handle 60 { sink := .accepting, limit := some 9 }
      (.feed "(define (f x) x)") = some ([.ok .unspecified], next) ∧
        ∃ start root, next.Starts 60 (.feed "f") start root ∧
          (step start.arena start.limit (start.firstState root)).state.operands.items.filterMap
            Value.closure? = [⟨0, some "f", ["x"], 4, [], 0⟩] :=
    ⟨_, rfl, _, _, ⟨_, rfl, .here rfl⟩, by decide +kernel⟩
  obtain ⟨session, hhandle, start, root, hstarts, hclosures⟩ := hhandle
  have hreachable : session.Reachable := .handle (.fresh .accepting (some 9)) hhandle
  let p := step start.arena start.limit (start.firstState root)
  have hleads : Leads start.arena start.limit (.running (start.firstState root)) p :=
    .step (.refl _)
  have hhas : p.Has (.closure ⟨0, some "f", ["x"], 4, [], 0⟩) :=
    .inl (.inl (Value.mem_of_mem_closures (hclosures ▸ List.mem_cons_self)))
  obtain ⟨⟨before, new, hbefore, hnew⟩, hprocedures⟩ :=
    procedures_of_reachable hreachable hstarts hleads
  obtain ⟨⟨m, -, hclosure, hwritten, -⟩, -, -, -, hbinds⟩ :=
    hprocedures before new hbefore hnew _ hhas
  exact ⟨session, start, root, p, _, hreachable, hstarts, hleads, hhas, rfl,
    ⟨m, hclosure, hwritten⟩, hbinds⟩

end Session

end StackScheme
