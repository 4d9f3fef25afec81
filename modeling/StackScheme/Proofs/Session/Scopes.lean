import StackScheme.Proofs.Machine.Applications
import StackScheme.Proofs.Machine.Values
import StackScheme.Proofs.Session.Safety

/-!
# Scopes of a session

Procedures hold scopes, and so all scopes of a session are a tree that many procedures
change at once.  Whatever was asked of a session, the tree is well founded at each stage of
each run, nothing in it goes away, and a change to a name is seen by the scopes for which
the changed slot is the nearest one, and by no others.

* `Value.InScope` says that the scope of a procedure is there, and `sourced_inScope` that
  all new values are of this kind.
* `Session.Scoped` is the invariant of sessions, and `Scoped.carries` what follows for the
  stages of a run.
* `Store.Rebinds` is what a change to a slot does.  `Store.rebinds_bind` says it of binding a
  name, and `performStep_assign_cases` of the form that assigns.
* `scopes_of_reachable` is the result for the runs that requests start.
-/

namespace StackScheme

/-- The scope of a procedure is one of the first `n` scopes. -/
def Value.InScope (n : Nat) : Value → Prop
  | .closure c => c.scope < n
  | _ => True

namespace Machine

theorem sourced_inScope (arena : Arena) : Sourced arena Value.InScope where
  mono {n m v} hle h := by
    cases v with
    | closure c => exact Nat.lt_of_lt_of_le h hle
    | _ => trivial
  plain {n v} h := by
    cases v with
    | closure c => exact h.elim
    | _ => trivial
  literal {n id a next} _ := by
    cases a <;> trivial
  scope_lt h := h
  closure _ hscope := hscope

/-- Assigning to a name fails and leaves the store if no scope on the chain binds it, and
changes the nearest slot otherwise. -/
theorem performStep_assign_cases {s : State} (h : s.store.Nested) (arena : Arena)
    (f : CallFrame) (form : SpecialForm) (name : String) (v : Value) :
    ¬ s.store.Contains s.scope name ∧
        performStep arena f form (.assign name v) s = s.fail (.unbound name) ∨
      s.store.Contains s.scope name ∧ ∃ holder, s.store.Nearest s.scope name holder ∧
        s.store.Rebinds (s.store.bind holder name v) holder name v ∧
        performStep arena f form (.assign name v) s =
          deliver arena f.node .unspecified { s with store := s.store.bind holder name v } := by
  rcases Store.holder?_cases h s.scope name with
    ⟨hnone, hcontains⟩ | ⟨holder, hholder, hcontains, hnearest, hrebinds⟩
  · refine .inl ⟨hcontains, ?_⟩
    simp only [performStep, hnone]
  · refine .inr ⟨hcontains, holder, hnearest, hrebinds v, ?_⟩
    simp only [performStep, hholder]

end Machine

namespace Session

open Machine

/-! ## The invariant -/

/-- What a run carries to its end holds of the store that the evaluation leaves. -/
theorem holds_of_evaluateRoot {P : Nat → Value → Prop} {session next : Session} {budget : Nat}
    {root : NodeId} {result : Result}
    (heval : session.evaluateRoot budget root = some (result, next))
    (hcarries : ∀ outcome t, Leads session.arena session.limit
      (.running (session.firstState root)) (.halted outcome t) →
        Carries P session.store (.halted outcome t)) :
    next.store.Nested ∧ next.store.Holds (P next.store.scopes.size) := by
  obtain ⟨outcome, t, hrun, -, hstore⟩ := exists_run_of_evaluateRoot heval
  have hend := (hcarries outcome t (leads_of_run_eq_some hrun)).holds
  rw [hstore]
  exact ⟨hend.nested, hend.bindings⟩

/-- The scopes are nested, and all procedures have their scopes among them. -/
structure Scoped (session : Session) : Prop where
  nested : session.store.Nested
  bindings : session.store.Holds (Value.InScope session.store.scopes.size)

theorem scoped_fresh (sink : Sink) (limit : Option Nat) : Scoped { sink, limit } :=
  ⟨Store.nested_initial, Store.holds_initial (fun _ => trivial) fun _ => trivial⟩

/-- All scopes in use are there at each stage of a run. -/
theorem Scoped.carries {session : Session} (h : session.Scoped) {root : NodeId} {p : Progress}
    (hp : Leads session.arena session.limit (.running (session.firstState root)) p) :
    Carries Value.InScope session.store p :=
  (carries_initial h.nested h.bindings session.sink root).of_leads
    (sourced_inScope session.arena) hp

theorem Scoped.evaluateRoot {session next : Session} (h : session.Scoped) {budget : Nat}
    {root : NodeId} {result : Result}
    (heval : session.evaluateRoot budget root = some (result, next)) : next.Scoped := by
  obtain ⟨hnested, hbindings⟩ := holds_of_evaluateRoot heval fun _ _ hp => h.carries hp
  exact ⟨hnested, hbindings⟩

theorem keeps_scoped (budget : Nat) : Keeps budget Scoped fun _ => True where
  withReader h _ := ⟨h.nested, h.bindings⟩
  read h _ := ⟨h.nested, h.bindings⟩
  unreadable _ := trivial
  evaluateRoot {session _ reader _ _} h _ hrun := by
    have hread : (session.afterRead reader).Scoped := ⟨h.nested, h.bindings⟩
    exact ⟨fun _ _ => trivial, hread.evaluateRoot hrun⟩

theorem Reachable.scoped {session : Session} (h : session.Reachable) : session.Scoped :=
  Keeps.reachable keeps_scoped scoped_fresh h

/-! ## Stages of runs -/

/-- Scopes are well founded and are changed one slot at a time, at each stage of each run
that a request starts.

* All scopes that registers and procedures hold are there.  The chain of a scope is finite,
  has no scope twice and ends at the global scope.
* Binding a name in a scope changes the slot of this scope, and assigning to a name changes
  the nearest slot, if there is one, and otherwise fails and leaves the store.
* Later stages have the same scopes with the same parents and have lost no binding. -/
theorem scopes_of_reachable {session : Session} (h : session.Reachable) {budget : Nat}
    {request : Request} {start : Session} {root : NodeId}
    (hstart : session.Starts budget request start root) {p : Progress}
    (hp : Leads start.arena start.limit (.running (start.firstState root)) p) :
    (p.state.Holds Value.InScope ∧
      ∀ id, id < p.state.store.scopes.size → ∃ ids, p.state.store.Chain id ids ∧
        ids.Nodup ∧ ids.getLast? = some Store.globalScope) ∧
      (∀ id name v, id < p.state.store.scopes.size →
        p.state.store.Rebinds (p.state.store.bind id name v) id name v) ∧
      (∀ id arena f form name v,
        let s := { p.state with scope := id }
        ¬ s.store.Contains id name ∧
            performStep arena f form (.assign name v) s = s.fail (.unbound name) ∨
          s.store.Contains id name ∧ ∃ holder, s.store.Nearest id name holder ∧
            s.store.Rebinds (s.store.bind holder name v) holder name v ∧
            performStep arena f form (.assign name v) s =
              deliver arena f.node .unspecified
                { s with store := s.store.bind holder name v }) ∧
      ∀ q, Leads start.arena start.limit p q → p.state.store.Grows q.state.store := by
  have hcarries := (hstart.kept (keeps_scoped budget) h.scoped).carries hp
  have hnested := hcarries.holds.nested
  refine ⟨⟨hcarries.holds, fun id hid => ?_⟩, fun id name v hid => Store.rebinds_bind hid hnested,
    fun id arena f form name v => ?_, fun q hq => ?_⟩
  · obtain ⟨ids, hids⟩ := hnested.exists_chain hid
    exact ⟨ids, hids, hids.nodup hnested, hids.getLast? hnested⟩
  · exact performStep_assign_cases (s := { p.state with scope := id }) hnested arena f form name v
  · have hself : Carries Value.InScope p.state.store p :=
      ⟨hcarries.holds, .refl _, hcarries.outcome⟩
    exact (hself.of_leads (sourced_inScope start.arena) hq).grows

/-- In `((lambda (x) (set! x 2)) 1)`, the scope of the call is inside of the global scope. -/
theorem scopes_of_reachable_call :
    ∃ (session start : Session) (root : NodeId) (p : Progress), session.Reachable ∧
      session.Starts 60 (.feed "((lambda (x) (set! x 2)) 1)") start root ∧
      Leads start.arena start.limit (.running (start.firstState root)) p ∧
      p.state.store.scopes.size = 2 ∧
      ∃ ids, p.state.store.Chain 1 ids ∧ ids.Nodup ∧ ids.getLast? = some Store.globalScope := by
  let session : Session := { sink := .accepting, limit := some 9 }
  let reader : Reader := ⟨[.opening, .opening, .word "lambda", .opening, .word "x", .closing,
    .opening, .word "set!", .word "x", .word "2", .closing, .closing, .word "1", .closing]⟩
  let start : Session := afterOwnRead { session with reader }
  let p := (Progress.next (step start.arena start.limit))^[8] (.running (start.firstState 9))
  have hreachable : session.Reachable := .fresh .accepting (some 9)
  have hroot : (reader.read {}).root = .ok (some 9) := rfl
  have hstarts : session.Starts 60 (.feed "((lambda (x) (set! x 2)) 1)") start 9 :=
    ⟨reader, rfl, .here hroot⟩
  have hleads : Leads start.arena start.limit (.running (start.firstState 9)) p :=
    leads_iterate_next _ _ _ _
  have hsize : p.state.store.scopes.size = 2 := by decide +kernel
  have hscopes := scopes_of_reachable hreachable hstarts hleads
  have hid : 1 < p.state.store.scopes.size := by
    rw [hsize]
    decide
  exact ⟨session, start, 9, p, hreachable, hstarts, hleads, hsize, hscopes.1.2 1 hid⟩

end Session

end StackScheme
