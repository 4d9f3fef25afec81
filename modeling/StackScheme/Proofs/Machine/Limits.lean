import StackScheme.Proofs.Machine.Applications
import StackScheme.Proofs.Session.Requests

/-!
# Runs under different limits

The limit is looked at in two places only, before a combination is opened and before
a procedure is entered.  There the machine ends with an error if the limit is reached,
and otherwise it does what it does without a limit.  A smaller limit therefore cuts a
run short and changes nothing else.

* Errors.  `Error.IsOrdinary` are the errors that have nothing to do with the limit.
* Checks.  `Guarded` says how a function of the machine depends on the limit.  There is
  one lemma for each function, and `guarded_step` puts them together.
* Runs.  `run_of_run_eq_some` is about runs that are not cut short, and
  `exists_cut_of_run` about the others.
* Sessions.  `Session.keeps_hasCause` says where the errors in an answer come from.
-/

namespace StackScheme

/-! ## Errors -/

/-- The error comes neither from reading nor from the limit. -/
def Error.IsOrdinary : Error → Prop
  | .unreadable _ | .tooDeep _ => False
  | _ => True

theorem Error.OfBuiltin.isOrdinary {e : Error} (h : e.OfBuiltin) : e.IsOrdinary := by
  cases e with
  | unreadable cause => exact h
  | tooDeep l => exact h
  | _ => trivial

namespace Machine

theorem isOrdinary_of_prepare {arena : Arena} {node : NodeId} {form : SpecialForm} {e : Error}
    (h : prepare arena node form = .error e) : e.IsOrdinary := by
  rw [eq_malformed_of_prepare h]
  trivial

theorem isOrdinary_of_perform {arena : Arena} {node : NodeId} {t : FormTask}
    {values : List Value} {e : Error} (h : perform arena node t values = .error e) :
    e.IsOrdinary := by
  rw [perform] at h
  cases hform : t.form with
  | ifForm | andForm | orForm =>
    rw [hform] at h
    cases h
  | lambdaForm | defineForm | setForm | quoteForm =>
    rw [hform] at h
    simp only [performLambda, performDefine, performSet, performQuote, malformed] at h
    repeat' split at h
    all_goals first | cases h; trivial | cases h

/-! ## Checks -/

/-- The stage comes after `s` within one step, and if it is an error, then an ordinary
one. -/
structure Ordinary (s : State) (p : Progress) : Prop where
  steps : p.state.stats.steps = s.stats.steps
  error {e : Error} {t : State} (h : p = .halted (.error e) t) : e.IsOrdinary

theorem ordinary_running (s : State) {t : State} (h : t.stats.steps = s.stats.steps) :
    Ordinary s (.running t) :=
  ⟨h, nofun⟩

theorem ordinary_fail (s : State) {t : State} {e : Error} (h : t.stats.steps = s.stats.steps)
    (he : e.IsOrdinary) : Ordinary s (t.fail e) := by
  refine ⟨h, fun heq => ?_⟩
  cases heq
  exact he

/-- How a function of the machine that starts in `s` depends on the limit. -/
inductive Guarded (s : State) (f : Option Nat → Progress) : Prop
  /-- Not at all. -/
  | free {p : Progress} (h : ∀ limit, f limit = p) (hp : Ordinary s p)
  /-- The depth of a state is compared with the limit, before anything has changed
  outside of the stacks. -/
  | checks {t : State} {p : Progress} (hstore : t.store = s.store) (hsink : t.sink = s.sink)
    (hstats : t.stats = s.stats)
    (hreached : ∀ limit l, t.reachedLimit? limit = some l → f limit = t.fail (.tooDeep l))
    (hfree : ∀ limit, t.reachedLimit? limit = none → f limit = p) (hp : Ordinary s p)

section Functions

variable (arena : Arena) {s : State}

theorem ordinary_deliver (node : NodeId) (v : Value) : Ordinary s (deliver arena node v s) := by
  unfold deliver
  split
  · split
    · exact ordinary_fail s rfl trivial
    · split
      · split
        · rename_i hprepare
          exact ordinary_fail s rfl (isOrdinary_of_prepare hprepare)
        · exact ordinary_running s rfl
      · exact ordinary_running s rfl
  · exact ordinary_running s rfl

theorem ordinary_callBuiltin (node : NodeId) (b : Builtin) (args : List Value) :
    Ordinary s (callBuiltin arena node b args s) := by
  have hcall := b.computes_call args
  unfold callBuiltin
  split
  · rename_i e he
    rw [he] at hcall
    exact ordinary_fail s rfl (Error.OfBuiltin.isOrdinary hcall)
  · exact ordinary_deliver arena node _
  · unfold writeText
    split
    · rename_i sink _
      have hdeliver : Ordinary { s with sink } _ := ordinary_deliver arena node .unspecified
      exact ⟨hdeliver.steps, hdeliver.error⟩
    · exact ordinary_fail s rfl trivial

theorem ordinary_performStep (f : CallFrame) (form : SpecialForm) (next : FormStep) :
    Ordinary s (performStep arena f form next s) := by
  have hdeliver : ∀ store v, Ordinary s (deliver arena f.node v { s with store }) := by
    intro store v
    have h : Ordinary { s with store } _ := ordinary_deliver arena f.node v
    exact ⟨h.steps, h.error⟩
  cases next with
  | value v => exact ordinary_deliver arena f.node v
  | bind name v => exact hdeliver _ _
  | assign name v =>
    unfold performStep
    dsimp only
    split
    · exact hdeliver _ _
    · exact ordinary_fail s rfl trivial
  | lambda parameters first rest => exact hdeliver _ _
  | procedure name parameters first rest => exact hdeliver _ _
  | again t => exact ordinary_running s rfl

theorem ordinary_callForm (f : CallFrame) (form : SpecialForm) (values : List Value) :
    Ordinary s (callForm arena f form values s) := by
  unfold callForm
  split
  · exact ordinary_fail s rfl trivial
  · split
    · rename_i hperform
      exact ordinary_fail s rfl (isOrdinary_of_perform hperform)
    · exact ordinary_performStep arena f form _

theorem ordinary_leaveBody (v : Value) : Ordinary s (leaveBody arena v s) := by
  unfold leaveBody
  split
  · exact ordinary_fail s rfl trivial
  · rename_i k continuations _
    split
    · exact ordinary_running s rfl
    · have h : Ordinary { s with scope := k.callerScope, continuations } _ :=
        ordinary_deliver arena k.returnNode v
      exact ⟨h.steps, h.error⟩

/-- A combination is opened if the limit allows it. -/
theorem guarded_enter (node : NodeId) :
    Guarded s fun limit => enter arena limit node s := by
  unfold enter
  rcases arena.node? node with _ | ⟨shape, next⟩
  · exact .free (fun _ => rfl) (ordinary_fail s rfl trivial)
  cases shape with
  | empty => exact .free (fun _ => rfl) (ordinary_deliver arena node .unspecified)
  | compound operator =>
    let opened : State := { s with
      frames := s.frames.push (.call { node, base := s.operands.size })
      pc := some operator }
    have hopened : Ordinary s (.running opened) := ordinary_running s rfl
    refine .checks (t := s) rfl rfl rfl (fun limit l hl => ?_) (fun limit hl => ?_) hopened
    · simp only [hl]
    · simp only [hl]
      rfl
  | atom a =>
    cases a with
    | symbol name =>
      dsimp only
      cases s.store.lookup? s.scope name with
      | some v => exact .free (fun _ => rfl) (ordinary_deliver arena node v)
      | none => exact .free (fun _ => rfl) (ordinary_fail s rfl trivial)
    | _ => exact .free (fun _ => rfl) (ordinary_deliver arena node _)

/-- A procedure is entered if the limit allows it, and in tail position in any case. -/
theorem guarded_apply (node : NodeId) (c : Closure) (args : List Value) :
    Guarded s fun limit => apply limit node c args s := by
  unfold apply
  by_cases hargs : args.length ≠ c.parameters.length
  · exact .free (fun _ => if_pos hargs) (ordinary_fail s rfl trivial)
  by_cases htail : s.inTailPosition = true
  · have hcall : Ordinary s (tailCall c args s) := by
      unfold tailCall
      split
      · exact ordinary_fail s rfl trivial
      · exact ordinary_running s rfl
    exact .free (fun _ => by rw [if_neg hargs, if_pos htail]) hcall
  · have hcall : Ordinary s (nestedCall node c args s) := ordinary_running s rfl
    refine .checks (t := s) rfl rfl rfl (fun limit l hl => ?_) (fun limit hl => ?_) hcall
    · rw [if_neg hargs, if_neg htail, hl]
    · rw [if_neg hargs, if_neg htail, hl]

theorem guarded_dispatch (f : CallFrame) (values : List Value) :
    Guarded s fun limit => dispatch arena limit f values s := by
  unfold dispatch
  rcases values with _ | ⟨operator, args⟩
  · exact .free (fun _ => rfl) (ordinary_fail s rfl trivial)
  cases operator with
  | builtin b => exact .free (fun _ => rfl) (ordinary_callBuiltin arena f.node b args)
  | special form => exact .free (fun _ => rfl) (ordinary_callForm arena f form args)
  | closure c => exact guarded_apply f.node c args
  | _ => exact .free (fun _ => rfl) (ordinary_fail s rfl trivial)

/-- The stacks play no part in what `Guarded` says about its state. -/
theorem Guarded.of_stacks {f : Option Nat → Progress} {s s' : State} (h : Guarded s' f)
    (hstore : s'.store = s.store) (hsink : s'.sink = s.sink) (hstats : s'.stats = s.stats) :
    Guarded s f := by
  have hordinary : ∀ {p}, Ordinary s' p → Ordinary s p := fun hp =>
    ⟨hp.steps.trans (congrArg Stats.steps hstats), hp.error⟩
  cases h with
  | free hf hp => exact .free hf (hordinary hp)
  | checks hstore' hsink' hstats' hreached hfree hp =>
    exact .checks (hstore'.trans hstore) (hsink'.trans hsink) (hstats'.trans hstats) hreached
      hfree (hordinary hp)

theorem guarded_reduce : Guarded s fun limit => reduce arena limit s := by
  unfold reduce
  rcases s.frames.pop? with _ | ⟨frame, frames⟩
  · exact .free (fun _ => rfl) (ordinary_fail s rfl trivial)
  cases frame with
  | topLevel =>
    dsimp only
    rcases s.operands.pop? with _ | ⟨v, operands⟩
    · exact .free (fun _ => rfl) (ordinary_fail s rfl trivial)
    · exact .free (fun _ => rfl) ⟨rfl, nofun⟩
  | body base =>
    dsimp only
    rcases s.operands.pop? with _ | ⟨v, operands⟩
    · exact .free (fun _ => rfl) (ordinary_fail s rfl trivial)
    · dsimp only
      split
      · have h : Ordinary { s with frames, operands } _ := ordinary_leaveBody arena v
        exact .free (fun _ => rfl) ⟨h.steps, h.error⟩
      · exact .free (fun _ => rfl) (ordinary_fail s rfl trivial)
  | call f =>
    dsimp only
    rcases s.operands.splitOff? f.base with _ | ⟨values, operands⟩
    · exact .free (fun _ => rfl) (ordinary_fail s rfl trivial)
    · exact (guarded_dispatch arena f values).of_stacks rfl rfl rfl

/-- Passing over children changes the stacks alone. -/
theorem skipUnwanted_eq_ok {s' : State} (h : skipUnwanted arena s = .ok s') :
    s'.store = s.store ∧ s'.sink = s.sink ∧ s'.stats = s.stats := by
  unfold skipUnwanted at h
  split at h
  · split at h
    · cases h
      exact ⟨rfl, rfl, rfl⟩
    · split at h
      · cases h
        exact ⟨rfl, rfl, rfl⟩
      · cases h
  · cases h
    exact ⟨rfl, rfl, rfl⟩

/-- A step compares the depth with the limit at most once, before it changes anything
that outlasts the run. -/
theorem guarded_step (arena : Arena) (s : State) :
    Guarded (tick s) fun limit => step arena limit s := by
  unfold step
  dsimp only
  cases hskip : skipUnwanted arena (tick s) with
  | error fault => exact .free (fun _ => rfl) (ordinary_fail (tick s) rfl trivial)
  | ok s' =>
    obtain ⟨hstore, hsink, hstats⟩ := skipUnwanted_eq_ok arena hskip
    dsimp only
    cases s'.pc with
    | some node => exact (guarded_enter arena node).of_stacks hstore hsink hstats
    | none => exact (guarded_reduce arena).of_stacks hstore hsink hstats

end Functions

/-! ## Steps -/

section Steps

variable {s : State} {f : Option Nat → Progress}

theorem Guarded.steps_eq (h : Guarded s f) (limit : Option Nat) :
    (f limit).state.stats.steps = s.stats.steps := by
  cases h with
  | free hf hp =>
    rw [hf]
    exact hp.steps
  | @checks t p _ _ hstats hreached hfree hp =>
    cases hl : t.reachedLimit? limit with
    | some l =>
      rw [hreached limit l hl]
      exact congrArg Stats.steps hstats
    | none =>
      rw [hfree limit hl]
      exact hp.steps

/-- An error that is not ordinary comes from the limit, and nothing was changed. -/
theorem Guarded.error_cases (h : Guarded s f) {limit : Option Nat} {e : Error} {t : State}
    (hf : f limit = .halted (.error e) t) :
    e.IsOrdinary ∨ ∃ l, limit = some l ∧ e = .tooDeep l ∧ t.store = s.store ∧
      t.sink = s.sink ∧ t.stats = s.stats := by
  cases h with
  | free hfree hp => exact .inl (hp.error ((hfree limit).symm.trans hf))
  | @checks t' p hstore hsink hstats hreached hfree hp =>
    cases hl : t'.reachedLimit? limit with
    | none => exact .inl (hp.error ((hfree limit hl).symm.trans hf))
    | some l =>
      rw [hreached limit l hl] at hf
      cases hf
      exact .inr ⟨l, (Option.filter_eq_some_iff.1 hl).1, rfl, hstore, hsink, hstats⟩

/-- Under a smaller limit the same happens, or the limit is reached. -/
theorem Guarded.eq_or_tooDeep (h : Guarded s f) {l : Nat} {limit : Option Nat}
    (hle : ∀ l' ∈ limit, l ≤ l') :
    f (some l) = f limit ∨ ∃ t, f (some l) = .halted (.error (.tooDeep l)) t := by
  cases h with
  | free hf hp => exact .inl ((hf (some l)).trans (hf limit).symm)
  | @checks t p _ _ _ hreached hfree hp =>
    by_cases hdepth : l ≤ t.depth
    · have hl : t.reachedLimit? (some l) = some l := by simp [State.reachedLimit?, hdepth]
      exact .inr ⟨t, hreached (some l) l hl⟩
    · have hl : t.reachedLimit? (some l) = none := by
        simpa [State.reachedLimit?] using hdepth
      have hnone : t.reachedLimit? limit = none := by
        rw [State.reachedLimit?, Option.filter_eq_none_iff]
        intro l' hl'
        have := hle l' hl'
        simp only [decide_eq_true_eq]
        omega
      exact .inl ((hfree (some l) hl).trans (hfree limit hnone).symm)

end Steps

/-! ## Runs -/

section Runs

variable {arena : Arena} {l : Nat} {limit : Option Nat} {n : Nat} {s t : State}

/-- A run that is not cut short does not depend on the limit. -/
theorem run_of_run_eq_some {r : Except Error Value} (hle : ∀ l' ∈ limit, l ≤ l')
    (hr : ∀ m, r ≠ .error (.tooDeep m)) (h : run arena (some l) n s = some (r, t)) :
    run arena limit n s = some (r, t) := by
  induction n generalizing s with
  | zero => cases h
  | succ n ih =>
    rw [run] at h ⊢
    rcases (guarded_step arena s).eq_or_tooDeep hle with heq | ⟨t', hcut⟩
    · rw [← heq]
      cases hstep : step arena (some l) s with
      | running s' =>
        rw [hstep] at h
        exact ih h
      | halted r' t' =>
        rw [hstep] at h
        exact h
    · rw [hcut] at h
      cases h
      exact absurd rfl (hr l)

/-- A run that is cut short was the same run up to the last step, which has changed
nothing. -/
theorem exists_cut_of_run {m : Nat} (hle : ∀ l' ∈ limit, l ≤ l')
    (h : run arena (some l) n s = some (.error (.tooDeep m), t)) :
    m = l ∧ ∃ k u, (Progress.next (step arena limit))^[k] (.running s) = .running u ∧
      t.stats.steps = s.stats.steps + k + 1 ∧ t.store = u.store ∧ t.sink = u.sink ∧
      t.stats = (tick u).stats := by
  induction n generalizing s with
  | zero => cases h
  | succ n ih =>
    rw [run] at h
    cases hstep : step arena (some l) s with
    | halted r t' =>
      rw [hstep] at h
      cases h
      rcases (guarded_step arena s).error_cases hstep with hordinary | ⟨l', hl', he, hcut⟩
      · exact hordinary.elim
      · cases hl'
        cases he
        refine ⟨rfl, 0, s, rfl, ?_, hcut⟩
        rw [hcut.2.2]
        rfl
    | running s' =>
      rw [hstep] at h
      obtain ⟨hm, k, u, hiterate, hsteps, hcut⟩ := ih h
      have hsame : step arena limit s = .running s' := by
        rcases (guarded_step arena s).eq_or_tooDeep hle with heq | ⟨t', hcut⟩
        · rw [← heq, hstep]
        · rw [hstep] at hcut
          cases hcut
      have hs' : s'.stats.steps = s.stats.steps + 1 := by
        have := (guarded_step arena s).steps_eq (some l)
        rwa [hstep] at this
      refine ⟨hm, k + 1, u, ?_, by omega, hcut⟩
      rw [Function.iterate_succ_apply, Progress.next, hsame]
      exact hiterate

/-- What a run may end with: a value, an ordinary error, or the limit. -/
theorem run_error_cases {e : Error} (h : run arena limit n s = some (.error e, t)) :
    e.IsOrdinary ∨ ∃ l, limit = some l ∧ e = .tooDeep l := by
  induction n generalizing s with
  | zero => cases h
  | succ n ih =>
    rw [run] at h
    cases hstep : step arena limit s with
    | running s' =>
      rw [hstep] at h
      exact ih h
    | halted r t' =>
      rw [hstep] at h
      cases h
      rcases (guarded_step arena s).error_cases hstep with hordinary | ⟨l, hl, he, -⟩
      · exact .inl hordinary
      · exact .inr ⟨l, hl, he⟩

end Runs

end Machine

/-! ## Sessions -/

namespace Session

variable {budget fuel : Nat} {session next : Session} {e : Error}

/-- What the evaluation of an expression may fail with. -/
theorem evaluateRoot_error_cases {root : NodeId}
    (h : session.evaluateRoot budget root = some (.error e, next)) :
    e.IsOrdinary ∨ ∃ l, session.limit = some l ∧ e = .tooDeep l := by
  unfold evaluateRoot at h
  dsimp only at h
  split at h
  · cases h
  · rename_i outcome pc operands frames scope continuations store sink stats hrun
    simp only [Option.some.injEq, Prod.mk.injEq] at h
    obtain ⟨hresult, -⟩ := h
    cases outcome with
    | error e' =>
      cases hresult
      exact Machine.run_error_cases hrun
    | ok v =>
      cases hflush : sink.flush.1 with
      | none =>
        rw [hflush] at hresult
        cases hresult
      | some reason =>
        rw [hflush] at hresult
        cases hresult
        exact .inl trivial

/-- The error is about what was read, or some expression has failed with it. -/
def HasCause (budget : Nat) (limit : Option Nat) (e : Error) : Prop :=
  (∃ cause, e = .unreadable cause) ∨
    ∃ start root after, start.limit = limit ∧
      Session.evaluateRoot budget start root = some (.error e, after)

/-- Every error in an answer has a cause. -/
theorem keeps_hasCause (budget : Nat) (limit : Option Nat) :
    Keeps budget (·.limit = limit) (HasCause budget limit) where
  withReader h _ := h
  read h _ := h
  unreadable cause := .inl ⟨cause, rfl⟩
  evaluateRoot {session _ reader root _} h _ hrun := by
    refine ⟨fun e he => ?_, (kept_of_evaluateRoot hrun).2.2.trans h⟩
    rw [he] at hrun
    exact .inr ⟨session.afterRead reader, root, _, h, hrun⟩

end Session

/-! ## The result -/

namespace Machine

/-- A limit only cuts runs short.  A run under a limit that is not cut short is the same
run under every greater limit and without a limit.  A run that is cut short leaves the
store and the sink of a state that the other run has been in after the same number of
completed steps.  No other limit than the one that was set is ever reported, neither by
a run nor in the answer to a request. -/
theorem limit_only_cuts (arena : Arena) (store : Store) (sink : Sink) (root : NodeId) {l : Nat}
    {limit : Option Nat} (hle : ∀ l' ∈ limit, l ≤ l') :
    (∀ n r t, run arena (some l) n (.initial store sink root) = some (r, t) →
      (∀ m, r ≠ .error (.tooDeep m)) →
        run arena limit n (.initial store sink root) = some (r, t)) ∧
    (∀ n m t, run arena (some l) n (.initial store sink root) = some (.error (.tooDeep m), t) →
      ∃ k u, (Progress.next (step arena limit))^[k] (.running (.initial store sink root)) =
          .running u ∧
        t.stats.steps = k + 1 ∧ t.store = u.store ∧ t.sink = u.sink) ∧
    (∀ set n m t, run arena set n (.initial store sink root) = some (.error (.tooDeep m), t) →
      set = some m) ∧
    ∀ (session next : Session) (budget : Nat) (request : Session.Request)
      (results : List Result) (m : Nat),
      session.handle budget request = some (results, next) → .error (.tooDeep m) ∈ results →
        session.limit = some m := by
  refine ⟨fun n r t hrun hr => run_of_run_eq_some hle hr hrun, fun n m t hrun => ?_,
    fun set n m t hrun => ?_, fun session next budget request results m hhandle hmem => ?_⟩
  · obtain ⟨-, k, u, hiterate, hsteps, hstore, hsink, -⟩ := exists_cut_of_run hle hrun
    have hzero : (State.initial store sink root).stats.steps = 0 := rfl
    exact ⟨k, u, hiterate, by omega, hstore, hsink⟩
  · rcases run_error_cases hrun with hordinary | ⟨l', hset, heq⟩
    · exact hordinary.elim
    · cases heq
      exact hset
  · rcases ((Session.keeps_hasCause budget _).handle rfl hhandle).1 _ hmem with
      ⟨cause, heq⟩ | ⟨start, root', after, hlimit, hrun⟩
    · cases heq
    · rcases Session.evaluateRoot_error_cases hrun with hordinary | ⟨l', hset, heq⟩
      · exact hordinary.elim
      · cases heq
        exact hlimit ▸ hset

/-- Under a limit of three, `(+ (display 1) (+ 1 (+ 2 3)))` is cut short after its output,
in the tenth step. -/
theorem limit_only_cuts_display :
    ∃ (arena : Arena) (root : NodeId) (t : State),
      run arena (some 3) 20 (.initial .initial .accepting root) =
          some (.error (.tooDeep 3), t) ∧
        t.sink.text = "1" ∧
        ∃ u, (Progress.next (step arena none))^[9] (.running (.initial .initial .accepting root)) =
            .running u ∧
          t.store = u.store ∧ t.sink = u.sink := by
  have hparse : ∃ root arena, parse "(+ (display 1) (+ 1 (+ 2 3)))" = .ok (root, arena) ∧
      ∃ t, run arena (some 3) 20 (.initial .initial .accepting root) =
          some (.error (.tooDeep 3), t) ∧
        t.sink.text = "1" ∧ t.stats.steps = 10 :=
    ⟨_, _, rfl, _, rfl, rfl, rfl⟩
  obtain ⟨root, arena, -, t, hrun, htext, hsteps⟩ := hparse
  have hle : ∀ l' ∈ (none : Option Nat), 3 ≤ l' := by simp
  obtain ⟨k, u, hiterate, hk, hcut⟩ :=
    (limit_only_cuts arena .initial .accepting root hle).2.1 20 3 t hrun
  obtain rfl : k = 9 := by omega
  exact ⟨arena, root, t, hrun, htext, u, hiterate, hcut⟩

end Machine

end StackScheme
