import StackScheme.Proofs.Machine.Runs
import StackScheme.Proofs.Session.Safety

/-!
# How far a limit is exceeded

The depth is compared with the limit before a combination is opened and before a
procedure is entered.  Opening a combination adds a frame.  Entering a procedure
adds a frame and a continuation, so the depth may get above the limit by one.

* `State.Bounded` is the invariant: the depth is within the limit, or it is one
  above the limit and the innermost frame is a body.
* There is one lemma for each function of the machine.  A combination that ends
  has given up its frame, and what comes after it has room for one more frame.
* `depth_le_succ_of_leads` is the bound for whole runs.
  `not_forall_depth_le_limit` says that the limit itself is no bound.
-/

namespace StackScheme.Machine

/-! ## The invariant -/

/-- The depth is within the limit, except for the continuation of a body that is
being started or gone on with. -/
def State.Bounded (l : Nat) (s : State) : Prop :=
  s.depth ≤ l ∨ s.depth = l + 1 ∧ ∃ base, s.frames.top? = some (.body base)

variable {arena : Arena} {l : Nat} {s : State}

theorem depth_lt_of_reachedLimit? (h : s.reachedLimit? (some l) = none) : s.depth < l := by
  simpa [State.reachedLimit?, Option.filter] using h

/-- The parts of the depth when the innermost frame is gone. -/
theorem depth_of_pop? {frame : Frame} {frames : Stack Frame} (operands : Stack Value)
    (h : s.frames.pop? = some (frame, frames)) :
    s.depth = { s with frames, operands }.depth + 1 := by
  simp only [State.depth, Stack.eq_push_of_pop? h, Stack.size_push]
  omega

/-- A state that is not at a body is within the limit. -/
theorem State.Bounded.depth_le (h : s.Bounded l) {frame : Frame} {frames : Stack Frame}
    (hpop : s.frames.pop? = some (frame, frames)) (hframe : ∀ base, frame ≠ .body base) :
    s.depth ≤ l := by
  rcases h with h | ⟨-, base, htop⟩
  · exact h
  · rw [Stack.eq_push_of_pop? hpop, Stack.top?_push] at htop
    exact absurd (Option.some.inj htop) (hframe base)

/-- A state at a body may be one above the limit. -/
theorem State.bounded_of_body {base : Nat} (hdepth : s.depth ≤ l + 1)
    (htop : s.frames.top? = some (.body base)) : s.Bounded l := by
  by_cases hle : s.depth ≤ l
  · exact .inl hle
  · exact .inr ⟨by omega, base, htop⟩

/-! ## Values of nodes -/

/-- Delivering a value changes the innermost frame at most. -/
theorem depth_deliver (node : NodeId) (v : Value) :
    (deliver arena node v s).state.depth = s.depth := by
  unfold deliver
  split
  · rename_i f frames hpop
    split
    · rfl
    · split
      · split
        · rfl
        · simp [Progress.state, State.depth, Stack.eq_push_of_pop? hpop]
      · simp [Progress.state, State.depth, Stack.eq_push_of_pop? hpop]
  · rfl

theorem bounded_deliver (h : s.Bounded l) (node : NodeId) (v : Value) :
    (deliver arena node v s).state.Bounded l := by
  rcases h with h | ⟨h, base, htop⟩
  · left
    rw [depth_deliver]
    exact h
  · right
    refine ⟨by rw [depth_deliver]; exact h, base, ?_⟩
    unfold deliver
    split
    · rename_i f frames hpop
      rw [Stack.eq_push_of_pop? hpop, Stack.top?_push] at htop
      cases htop
    · exact htop

theorem bounded_enter (h : s.Bounded l) (node : NodeId) :
    (enter arena (some l) node s).state.Bounded l := by
  unfold enter
  split
  · exact h
  · split
    · exact bounded_deliver h _ _
    · exact h
  · exact bounded_deliver h _ _
  · exact bounded_deliver h _ _
  · split
    · exact h
    · rename_i hlimit
      have hlt := depth_lt_of_reachedLimit? hlimit
      left
      simp only [State.depth, Progress.state, Stack.size_push] at hlt ⊢
      omega

/-! ## Ends of combinations -/

/-- A procedure that is entered in its own continuation needs a frame and a
continuation, and only the first of them was checked for. -/
theorem bounded_apply (h : s.depth ≤ l) (node : NodeId) (c : Closure) (args : List Value) :
    (apply (some l) node c args s).state.Bounded l := by
  unfold apply
  split
  · exact .inl h
  · split
    · left
      unfold tailCall
      split
      · exact h
      · rename_i k continuations hpop
        simp only [State.depth, Stack.eq_push_of_pop? hpop, Progress.state, Stack.size_push,
          Stack.size_drop] at h ⊢
        omega
    · split
      · exact .inl h
      · rename_i hlimit
        have hlt := depth_lt_of_reachedLimit? hlimit
        refine State.bounded_of_body ?_ rfl
        simp only [nestedCall, State.depth, Progress.state, Stack.size_push] at hlt ⊢
        omega

theorem bounded_callBuiltin (h : s.depth ≤ l) (node : NodeId) (b : Builtin)
    (args : List Value) : (callBuiltin arena node b args s).state.Bounded l := by
  unfold callBuiltin
  split
  · exact .inl h
  · exact bounded_deliver (.inl h) _ _
  · unfold writeText
    split
    · rename_i sink _
      have hsink : { s with sink }.depth ≤ l := h
      exact bounded_deliver (.inl hsink) _ _
    · exact .inl h

/-- A form that goes through its operands once more gets its frame back. -/
theorem bounded_performStep (h : s.depth + 1 ≤ l) (f : CallFrame) (form : SpecialForm)
    (next : FormStep) : (performStep arena f form next s).state.Bounded l := by
  have hstore : ∀ store v, (deliver arena f.node v { s with store }).state.Bounded l := by
    intro store v
    have hdepth : { s with store }.depth ≤ l := Nat.le_of_succ_le h
    exact bounded_deliver (.inl hdepth) _ _
  cases next with
  | value v => exact hstore s.store v
  | bind name v => exact hstore _ _
  | assign name v =>
    unfold performStep
    dsimp only
    split
    · exact hstore _ _
    · exact .inl (Nat.le_of_succ_le h)
  | lambda parameters first rest => exact hstore _ _
  | procedure name parameters first rest => exact hstore _ _
  | again t =>
    left
    simp only [performStep, State.depth, Progress.state, Stack.size_push] at h ⊢
    omega

theorem bounded_dispatch (h : s.depth + 1 ≤ l) (f : CallFrame) (values : List Value) :
    (dispatch arena (some l) f values s).state.Bounded l := by
  have hle : s.depth ≤ l := Nat.le_of_succ_le h
  unfold dispatch
  split
  · exact .inl hle
  · exact bounded_callBuiltin hle _ _ _
  · unfold callForm
    split
    · exact .inl hle
    · split
      · exact .inl hle
      · exact bounded_performStep h _ _ _
  · exact bounded_apply hle _ _ _
  · exact .inl hle

/-! ## Ends of frames -/

/-- The next expression of a body takes the place of the one before it. -/
theorem bounded_leaveBody (h : s.depth ≤ l) (v : Value) :
    (leaveBody arena v s).state.Bounded l := by
  unfold leaveBody
  split
  · exact .inl h
  · rename_i k continuations hpop
    split
    · refine State.bounded_of_body ?_ rfl
      simp only [State.depth, Stack.eq_push_of_pop? hpop, Progress.state, Stack.size_push] at h ⊢
      omega
    · refine bounded_deliver (.inl ?_) _ _
      simp only [State.depth, Stack.eq_push_of_pop? hpop, Stack.size_push] at h ⊢
      omega

theorem bounded_reduce (h : s.Bounded l) : (reduce arena (some l) s).state.Bounded l := by
  have hdepth : s.depth ≤ l + 1 := by
    rcases h with h | ⟨h, -⟩ <;> omega
  unfold reduce
  split
  · exact h
  · rename_i frames hpop
    have hle := h.depth_le hpop (by simp)
    split
    · exact h
    · rename_i v operands _
      left
      have hpopped := depth_of_pop? operands hpop
      simp only [Progress.state]
      omega
  · rename_i base frames hpop
    split
    · exact h
    · rename_i v operands _
      split
      · refine bounded_leaveBody ?_ v
        have hpopped := depth_of_pop? operands hpop
        omega
      · exact h
  · rename_i f frames hpop
    have hle := h.depth_le hpop (by simp)
    split
    · exact h
    · rename_i values operands _
      refine bounded_dispatch ?_ f values
      have hpopped := depth_of_pop? operands hpop
      omega

/-! ## Runs -/

/-- Passing over children changes the innermost frame at most, and no body. -/
theorem bounded_skipUnwanted (h : s.Bounded l) {s' : State}
    (hskip : skipUnwanted arena s = .ok s') : s'.Bounded l := by
  unfold skipUnwanted at hskip
  split at hskip
  · rename_i f frames hpop
    have hle := h.depth_le hpop (by simp)
    split at hskip
    · cases hskip
      exact h
    · split at hskip
      · cases hskip
        left
        simpa [State.depth, Stack.eq_push_of_pop? hpop] using hle
      · cases hskip
  · cases hskip
    exact h

theorem bounded_step (h : s.Bounded l) : (step arena (some l) s).state.Bounded l := by
  have htick : (tick s).Bounded l := h
  unfold step
  dsimp only
  split
  · exact htick
  · rename_i s' hskip
    have hskipped := bounded_skipUnwanted htick hskip
    split
    · exact bounded_enter hskipped _
    · exact bounded_reduce hskipped

theorem bounded_of_leads {p q : Progress} (h : p.state.Bounded l)
    (hleads : Leads arena (some l) p q) : q.state.Bounded l := by
  induction hleads with
  | refl => exact h
  | step _ ih => exact ih (bounded_step h)

/-- Under a limit of at least one, no state of a run is deeper than one more than
the limit, and the limit is exceeded only while the innermost frame is a body. -/
theorem depth_le_succ_of_leads (hl : 1 ≤ l) (store : Store) (sink : Sink) (root : NodeId)
    {p : Progress} (h : Leads arena (some l) (.running (.initial store sink root)) p) :
    p.state.depth ≤ l + 1 ∧
      (l < p.state.depth → ∃ base, p.state.frames.top? = some (.body base)) := by
  have hinitial : (State.initial store sink root).Bounded l := .inl hl
  rcases bounded_of_leads (p := .running _) hinitial h with hle | ⟨heq, htop⟩
  · exact ⟨by omega, fun hlt => by omega⟩
  · exact ⟨by omega, fun _ => htop⟩

/-! ## The limit itself -/

/-- Under a limit of two, `(f)` has a depth of three once a procedure without
parameters is entered, which was defined under the same limit. -/
theorem exists_call_above_limit :
    ∃ (session start : Session) (root : NodeId) (s : State), session.Reachable ∧
      session.limit = some 2 ∧ session.Starts 20 (.evaluate "(f)") start root ∧
      Leads start.arena (some 2) (.running (start.firstState root)) (.running s) ∧
      s.depth = 3 := by
  have hhandle : ∃ session, Session.handle 20 { sink := .accepting, limit := some 2 }
      (.evaluate "(define (f) 1)") = some ([.ok .unspecified], session) ∧
        session.limit = some 2 ∧
        ∃ start root, session.Starts 20 (.evaluate "(f)") start root ∧
          ∃ s, Leads start.arena (some 2) (.running (start.firstState root)) (.running s) ∧
            s.depth = 3 :=
    ⟨_, rfl, rfl, _, _, ⟨_, rfl, .here rfl⟩, _, .step (.step (.step (.refl _))), rfl⟩
  obtain ⟨session, hhandle, hlimit, start, root, hstarts, s, hleads, hdepth⟩ := hhandle
  exact ⟨session, start, root, s, .handle (.fresh .accepting (some 2)) hhandle, hlimit, hstarts,
    hleads, hdepth⟩

/-- The bound is met by a call without operands, in the body that it enters. -/
theorem depth_le_succ_of_leads_call :
    ∃ (start : Session) (root : NodeId) (s : State),
      Leads start.arena (some 2) (.running (start.firstState root)) (.running s) ∧
      s.depth = 3 ∧ ∃ base, s.frames.top? = some (.body base) := by
  obtain ⟨-, start, root, s, -, -, -, hleads, hdepth⟩ := exists_call_above_limit
  have hbound := depth_le_succ_of_leads (by decide) start.store start.sink root hleads
  refine ⟨start, root, s, hleads, hdepth, hbound.2 ?_⟩
  show 2 < s.depth
  omega

/-- The depth is not within the limit in every run of every session. -/
theorem not_forall_depth_le_limit :
    ¬ ∀ (session start : Session) (l budget : Nat) (request : Session.Request) (root : NodeId)
      (s : State), 1 ≤ l → session.Reachable → session.limit = some l →
        session.Starts budget request start root →
        Leads start.arena (some l) (.running (start.firstState root)) (.running s) →
        s.depth ≤ l := by
  intro hle
  obtain ⟨session, start, root, s, hreachable, hlimit, hstarts, hleads, hdepth⟩ :=
    exists_call_above_limit
  have := hle session start 2 20 _ root s (by decide) hreachable hlimit hstarts hleads
  omega

end StackScheme.Machine
