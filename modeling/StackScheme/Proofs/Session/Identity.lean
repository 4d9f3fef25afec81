import StackScheme.Proofs.Builtin.Equivalence
import StackScheme.Proofs.Builtin.StringOrder
import StackScheme.Proofs.Reader.Growth
import StackScheme.Proofs.Session.Scopes

/-!
# Strings of a session

A string is the object of the literal that it was read as.  It may be bound, passed on,
returned and quoted in any order, and no builtin makes a string, so that whatever was asked
of a session, each string that is around still has its literal in the arena.

* `Value.FromLiteral` says that a string has its literal, and `sourced_fromLiteral` that
  all new values are of this kind.
* `Session.Anchored` is the invariant of sessions.  Reading keeps it because it leaves the
  nodes of the arena as they are.
* `Session.Holding` are the values that are around in a run, and `identity_of_reachable`
  says what the predicates of equivalence come to on them.
-/

namespace StackScheme

/-! ## Literals -/

/-- A string is the object of a literal with its contents.  The scope of a procedure is one
of the first `n` scopes. -/
def Value.FromLiteral (arena : Arena) (n : Nat) : Value → Prop
  | .string contents literal =>
    ∃ next, arena.node? literal = some ⟨.atom (.string contents), next⟩
  | v => v.InScope n

/-- More nodes and scopes leave strings with their literals. -/
theorem Value.FromLiteral.extends {arena arena' : Arena} (hextends : arena.Extends arena')
    {n : Nat} {v : Value} (h : v.FromLiteral arena n) : v.FromLiteral arena' n := by
  cases v with
  | string contents literal =>
    obtain ⟨next, hnode⟩ := h
    exact ⟨next, (hextends.node? (Arena.lt_size_of_node?_eq_some hnode)).trans hnode⟩
  | _ => exact h

/-- The contents of a string and its literal. -/
def Value.literal? : Value → Option (String × NodeId)
  | .string contents literal => some (contents, literal)
  | _ => none

theorem Value.mem_of_mem_literals {contents : String} {literal : NodeId} {vs : List Value}
    (h : (contents, literal) ∈ vs.filterMap literal?) : .string contents literal ∈ vs := by
  obtain ⟨v, hv, heq⟩ := List.mem_filterMap.1 h
  cases v with
  | string a id =>
    cases heq
    exact hv
  | _ => cases heq

namespace Machine

theorem sourced_fromLiteral (arena : Arena) : Sourced arena (Value.FromLiteral arena) where
  mono {n m v} hle h := by
    cases v with
    | closure c => exact Nat.lt_of_lt_of_le h hle
    | _ => exact h
  plain {n v} h := by
    cases v with
    | string contents literal => exact h.elim
    | closure c => exact h.elim
    | _ => trivial
  literal {n id a next} h := by
    cases a with
    | string contents => exact ⟨next, h⟩
    | _ => trivial
  scope_lt h := h
  closure _ hscope := hscope

end Machine

namespace Session

open Machine

/-! ## The invariant -/

/-- All strings have their literals. -/
structure Anchored (session : Session) : Prop where
  grown : session.arena.Grown
  nested : session.store.Nested
  bindings : session.store.Holds (Value.FromLiteral session.arena session.store.scopes.size)

theorem anchored_fresh (sink : Sink) (limit : Option Nat) : Anchored { sink, limit } :=
  ⟨.empty, Store.nested_initial, Store.holds_initial (fun _ => trivial) fun _ => trivial⟩

/-- All strings have their literals at each stage of a run. -/
theorem Anchored.carries {session : Session} (h : session.Anchored) {root : NodeId}
    {p : Progress}
    (hp : Leads session.arena session.limit (.running (session.firstState root)) p) :
    Carries (Value.FromLiteral session.arena) session.store p :=
  (carries_initial h.nested h.bindings session.sink root).of_leads
    (sourced_fromLiteral session.arena) hp

theorem Anchored.afterRead {session : Session} (h : session.Anchored) (reader : Reader) :
    (session.afterRead reader).Anchored :=
  ⟨.read reader h.grown, h.nested,
    Store.Holds.imp h.bindings fun _ hv => hv.extends (h.grown.extends_read reader)⟩

theorem Anchored.evaluateRoot {session next : Session} (h : session.Anchored) {budget : Nat}
    {root : NodeId} {result : Result}
    (heval : session.evaluateRoot budget root = some (result, next)) : next.Anchored := by
  obtain ⟨harena, -, -⟩ := kept_of_evaluateRoot heval
  obtain ⟨hnested, hbindings⟩ := holds_of_evaluateRoot heval fun _ _ hp => h.carries hp
  rw [← harena] at hbindings
  exact ⟨harena ▸ h.grown, hnested, hbindings⟩

theorem keeps_anchored (budget : Nat) : Keeps budget Anchored fun _ => True where
  withReader h _ := ⟨h.grown, h.nested, h.bindings⟩
  read h reader := h.afterRead reader
  unreadable _ := trivial
  evaluateRoot {_ _ reader _ _} h _ hrun :=
    ⟨fun _ _ => trivial, (h.afterRead reader).evaluateRoot hrun⟩

theorem Reachable.anchored {session : Session} (h : session.Reachable) : session.Anchored :=
  Keeps.reachable keeps_anchored anchored_fresh h

/-! ## Values in a run -/

/-- The value is around at some stage of the run at `root`. -/
def Holding (session : Session) (root : NodeId) (v : Value) : Prop :=
  ∃ p, Leads session.arena session.limit (.running (session.firstState root)) p ∧ p.Has v

theorem Anchored.fromLiteral {session : Session} (h : session.Anchored) {root : NodeId}
    {v : Value} (hv : session.Holding root v) : ∃ n, v.FromLiteral session.arena n := by
  obtain ⟨p, hp, hv⟩ := hv
  exact ⟨_, (h.carries hp).of_has hv⟩

/-- Strings of one literal have one contents. -/
theorem Anchored.contents_eq {session : Session} (h : session.Anchored) {root : NodeId}
    {a b : String} {literal : NodeId} (ha : session.Holding root (.string a literal))
    (hb : session.Holding root (.string b literal)) : a = b := by
  obtain ⟨-, next, hnode⟩ := h.fromLiteral ha
  obtain ⟨-, next', hnode'⟩ := h.fromLiteral hb
  rw [hnode] at hnode'
  simpa using congrArg (Option.map Node.shape) hnode'

/-- Strings come from literals alone, and identity is finer than equality, in each run that
a request starts.

* A string that is around is the object of a literal of the arena, and has its contents.
* Two strings are the same thing exactly if they are of one literal, and then they are
  equal and have the same contents.
* The predicates of equivalence decide any two values.  On the values that are around and
  are no floating point numbers, they are equivalences.
* Values that are the same thing are equal, and only strings are equal without being the
  same thing. -/
theorem identity_of_reachable {session : Session} (h : session.Reachable) {budget : Nat}
    {request : Request} {start : Session} {root : NodeId}
    (hstart : session.Starts budget request start root) :
    (∀ a literal, start.Holding root (.string a literal) →
        ∃ next, start.arena.node? literal = some ⟨.atom (.string a), next⟩) ∧
      (∀ a b i j, start.Holding root (.string a i) → start.Holding root (.string b j) →
        (Builtin.isEqv.Accepts (.string a i) (.string b j) ↔ i = j) ∧
          (Builtin.isEq.Accepts (.string a i) (.string b j) ↔ i = j) ∧
          (i = j → Builtin.isEqual.Accepts (.string a i) (.string b j) ∧
            (Builtin.compareStrings .equal).Accepts (.string a i) (.string b j))) ∧
      (∀ b ∈ [Builtin.isEqv, Builtin.isEq, Builtin.isEqual],
        (∀ v w, ∃ answer, b.call [v, w] = .ok (.value (.boolean answer))) ∧
          Equivalence fun v w : {v // start.Holding root v ∧ ¬ v.IsFloat} =>
            b.Accepts v.1 w.1) ∧
      ∀ v w, start.Holding root v → start.Holding root w →
        (Builtin.isEqv.Accepts v w → Builtin.isEqual.Accepts v w) ∧
          (Builtin.isEqual.Accepts v w → ¬ Builtin.isEqv.Accepts v w →
            v.IsString ∧ w.IsString) := by
  have hanchored := hstart.kept (keeps_anchored budget) h.anchored
  refine ⟨fun a literal ha => ?_, fun a b i j ha hb => ⟨?_, ?_, ?_⟩,
    Builtin.equivalence_accepts fun _ => And.right, fun v w hv hw => ?_⟩
  · obtain ⟨_, hliteral⟩ := hanchored.fromLiteral ha
    exact hliteral
  · rw [Builtin.accepts_isEqv]
    simp [Value.isEqv]
  · rw [Builtin.accepts_isEq]
    simp [Value.isEqv]
  · rintro rfl
    obtain rfl := hanchored.contents_eq ha hb
    refine ⟨?_, (Comparison.holds_equal_iff.2 rfl) i i⟩
    rw [Builtin.accepts_isEqual]
    simp [Value.isEqual]
  · rw [Builtin.accepts_isEqv, Builtin.accepts_isEqual]
    refine ⟨Value.isEqual_of_isEqv fun a b i ha hb => ?_, Value.strings_of_isEqual⟩
    exact hanchored.contents_eq (ha ▸ hv) (hb ▸ hw)

/-- In `((lambda (x) (eqv? x "a")) "a")`, two literals with one contents are compared.  Each
of them is the same thing as itself alone. -/
theorem identity_of_reachable_literals :
    ∃ (session start : Session) (root : NodeId), session.Reachable ∧
      session.Starts 60 (.feed "((lambda (x) (eqv? x \"a\")) \"a\")") start root ∧
      start.Holding root (.string "a" 8) ∧ start.Holding root (.string "a" 5) ∧
      Builtin.isEqv.Accepts (.string "a" 8) (.string "a" 8) ∧
      ¬ Builtin.isEqv.Accepts (.string "a" 8) (.string "a" 5) := by
  let session : Session := { sink := .accepting, limit := some 9 }
  let reader : Reader := ⟨[.opening, .opening, .word "lambda", .opening, .word "x", .closing,
    .opening, .word "eqv?", .word "x", .string "a", .closing, .closing, .string "a", .closing]⟩
  let start : Session := afterOwnRead { session with reader }
  let p := (Progress.next (step start.arena start.limit))^[10] (.running (start.firstState 9))
  have hreachable : session.Reachable := .fresh .accepting (some 9)
  have hroot : (reader.read {}).root = .ok (some 9) := rfl
  have hstarts : session.Starts 60 (.feed "((lambda (x) (eqv? x \"a\")) \"a\")") start 9 :=
    ⟨reader, rfl, .here hroot⟩
  have hleads : Leads start.arena start.limit (.running (start.firstState 9)) p :=
    leads_iterate_next _ _ _ _
  have hstrings : p.state.operands.items.filterMap Value.literal? = [("a", 5), ("a", 8)] := by
    decide +kernel
  have hfirst : start.Holding 9 (.string "a" 8) :=
    ⟨p, hleads, .inl (.inl (Value.mem_of_mem_literals (by simp [hstrings])))⟩
  have hsecond : start.Holding 9 (.string "a" 5) :=
    ⟨p, hleads, .inl (.inl (Value.mem_of_mem_literals (by simp [hstrings])))⟩
  have hidentity := (identity_of_reachable hreachable hstarts).2.1
  refine ⟨session, start, 9, hreachable, hstarts, hfirst, hsecond, ?_, ?_⟩
  · exact (hidentity "a" "a" 8 8 hfirst hfirst).1.2 rfl
  · rw [(hidentity "a" "a" 8 5 hfirst hsecond).1]
    decide

end Session

end StackScheme
