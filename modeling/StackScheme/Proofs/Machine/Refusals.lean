import StackScheme.Proofs.Machine.Limits

/-!
# Runs with sinks that refuse

The machine asks the sink in one place only, where a builtin writes a text.  There it
goes on if the text is taken and ends with an error if it is refused.  A sink that
refuses a text therefore cuts a run short and changes nothing else.

* Sinks.  `Sink.taking` is a sink after it took some texts, and `Sink.AcceptsAll` are the
  sinks that refuse nothing.
* Functions.  `Writes` says what a function of the machine does with the sink.  There is
  one lemma for each function, and `writes_step` puts them together.
* Runs.  `stage` is a run after so many steps.  `Alike` says that two stages differ in
  their sinks alone, and `Cut` that the second sink has refused the next text of the run.
  `alike_or_cut` is about whole runs.
* Sessions.  `Session.Agrees` compares the results of an expression and what is left
  behind by its evaluation.
* `refusals_only_cut` is the result.
-/

namespace StackScheme

/-! ## Sinks -/

namespace Sink

/-- The sink after it took a text. -/
def took (sink : Sink) (text : String) : Sink :=
  sink.note (.write text true) text.utf8ByteSize

/-- The sink after it took one text after the other. -/
def taking (sink : Sink) (texts : List String) : Sink :=
  texts.foldl took sink

/-- The sink after it refused a text. -/
def refused (sink : Sink) (text : String) : Sink :=
  sink.note (.write text false) 0

/-- The sink takes every text and every flush. -/
structure AcceptsAll (sink : Sink) : Prop where
  write : sink.refuseWrite = fun _ _ => none
  flush : sink.refuseFlush = fun _ => none

theorem acceptsAll_accepting : accepting.AcceptsAll :=
  ⟨rfl, rfl⟩

theorem taking_concat (sink : Sink) (texts : List String) (text : String) :
    sink.taking (texts ++ [text]) = (sink.taking texts).took text := by
  simp [taking]

/-- Taking texts changes no answer. -/
theorem answers_taking (sink : Sink) (texts : List String) :
    (sink.taking texts).refuseWrite = sink.refuseWrite ∧
      (sink.taking texts).refuseFlush = sink.refuseFlush := by
  induction texts generalizing sink with
  | nil => exact ⟨rfl, rfl⟩
  | cons text texts ih => exact ih (sink.took text)

theorem AcceptsAll.write_taking {sink : Sink} (h : sink.AcceptsAll) (texts : List String) :
    (sink.taking texts).refuseWrite = fun _ _ => none :=
  (sink.answers_taking texts).1.trans h.write

theorem write_eq_took {sink : Sink} {text : String} (hne : ¬ text.isEmpty = true)
    (h : sink.refuseWrite sink.history text = none) : sink.write text = (none, sink.took text) := by
  rw [write, if_neg hne, h]
  rfl

theorem write_eq_refused {sink : Sink} {text reason : String} (hne : ¬ text.isEmpty = true)
    (h : sink.refuseWrite sink.history text = some reason) :
    sink.write text = (some reason, sink.refused text) := by
  rw [write, if_neg hne, h]
  rfl

/-- What was accepted does not depend on requests that were refused. -/
theorem text_note_of_none (sink : Sink) {request : Request} (h : request.accepted? = none)
    (bytes : Nat) : (sink.note request bytes).text = sink.text := by
  simp [text, note, acceptedText, h]

theorem text_took (sink : Sink) (text : String) :
    (sink.took text).text = sink.text ++ text := by
  simp [Sink.text, took, note, acceptedText, Request.accepted?]

theorem text_taking (sink : Sink) (texts : List String) :
    (sink.taking texts).text = sink.text ++ String.join texts := by
  induction texts generalizing sink with
  | nil => simp [taking]
  | cons text texts ih =>
    rw [String.join_cons, ← String.append_assoc, ← text_took]
    exact ih (sink.took text)

theorem text_refused (sink : Sink) (text : String) : (sink.refused text).text = sink.text :=
  text_note_of_none sink rfl 0

theorem text_flush (sink : Sink) : sink.flush.2.text = sink.text := by
  unfold flush
  split <;> exact text_note_of_none sink rfl 0

end Sink

namespace Machine

/-! ## Functions -/

namespace State

variable (s : State) (sink : Sink)

/-- The state with another sink. -/
def withSink : State :=
  { s with sink }

@[simp] theorem pc_withSink : (s.withSink sink).pc = s.pc := rfl

@[simp] theorem operands_withSink : (s.withSink sink).operands = s.operands := rfl

@[simp] theorem frames_withSink : (s.withSink sink).frames = s.frames := rfl

@[simp] theorem scope_withSink : (s.withSink sink).scope = s.scope := rfl

@[simp] theorem continuations_withSink : (s.withSink sink).continuations = s.continuations := rfl

@[simp] theorem store_withSink : (s.withSink sink).store = s.store := rfl

@[simp] theorem sink_withSink : (s.withSink sink).sink = sink := rfl

@[simp] theorem stats_withSink : (s.withSink sink).stats = s.stats := rfl

@[simp] theorem reachedLimit?_withSink (limit : Option Nat) :
    (s.withSink sink).reachedLimit? limit = s.reachedLimit? limit := rfl

@[simp] theorem inTailPosition_withSink :
    (s.withSink sink).inTailPosition = s.inTailPosition := rfl

@[simp] theorem tick_withSink : tick (s.withSink sink) = (tick s).withSink sink := rfl

end State

/-- The stage with another sink. -/
def Progress.withSink : Progress → Sink → Progress
  | .running s, sink => .running (s.withSink sink)
  | .halted outcome s, sink => .halted outcome (s.withSink sink)

@[simp] theorem Progress.state_withSink (p : Progress) (sink : Sink) :
    (p.withSink sink).state = p.state.withSink sink := by
  cases p <;> rfl

@[simp] theorem Progress.withSink_withSink (p : Progress) (sink sink' : Sink) :
    (p.withSink sink).withSink sink' = p.withSink sink' := by
  cases p <;> rfl

/-- What a function of the machine that starts in `s` does with the sink. -/
inductive Writes (s : State) (f : Sink → Progress) : Prop
  /-- Nothing. -/
  | silent (h : ∀ sink sink', f sink' = (f sink).withSink sink')
  /-- It writes a text, before anything has changed outside of the stacks.  If the text is
  refused, this is all that it does. -/
  | asks (text : String) {t : State} {p : Progress} (hstore : t.store = s.store)
    (hstats : t.stats = s.stats)
    (htaken : ∀ sink sink', sink.write text = (none, sink') → f sink = p.withSink sink')
    (hrefused : ∀ sink sink' reason, sink.write text = (some reason, sink') →
      f sink = (t.withSink sink').fail (.output reason))

section Functions

variable (arena : Arena) (limit : Option Nat) (s : State) (sink : Sink)

theorem deliver_withSink (node : NodeId) (v : Value) :
    deliver arena node v (s.withSink sink) = (deliver arena node v s).withSink sink := by
  unfold deliver
  rw [State.frames_withSink]
  rcases s.frames.pop? with _ | ⟨frame, frames⟩
  · rfl
  cases frame with
  | call f =>
    rcases arena.node? node with _ | ⟨shape, next⟩
    · rfl
    dsimp only
    split
    · split <;> rfl
    · rfl
  | _ => rfl

theorem enter_withSink (node : NodeId) :
    enter arena limit node (s.withSink sink) = (enter arena limit node s).withSink sink := by
  unfold enter
  rcases arena.node? node with _ | ⟨shape, next⟩
  · rfl
  cases shape with
  | empty => exact deliver_withSink arena s sink node _
  | compound operator =>
    dsimp only
    rw [State.reachedLimit?_withSink]
    cases s.reachedLimit? limit <;> rfl
  | atom a =>
    cases a with
    | symbol name =>
      dsimp only
      rw [State.store_withSink, State.scope_withSink]
      cases s.store.lookup? s.scope name with
      | some v => exact deliver_withSink arena s sink node v
      | none => rfl
    | _ => exact deliver_withSink arena s sink node _

theorem apply_withSink (node : NodeId) (c : Closure) (args : List Value) :
    apply limit node c args (s.withSink sink) = (apply limit node c args s).withSink sink := by
  unfold apply
  rw [State.inTailPosition_withSink, State.reachedLimit?_withSink]
  split
  · rfl
  split
  · unfold tailCall
    rw [State.continuations_withSink]
    cases s.continuations.pop? <;> rfl
  · cases s.reachedLimit? limit <;> rfl

theorem performStep_withSink (f : CallFrame) (form : SpecialForm) (next : FormStep) :
    performStep arena f form next (s.withSink sink) =
      (performStep arena f form next s).withSink sink := by
  have hdeliver : ∀ store v, deliver arena f.node v { s.withSink sink with store } =
      (deliver arena f.node v { s with store }).withSink sink :=
    fun store v => deliver_withSink arena { s with store } sink f.node v
  cases next with
  | value v => exact deliver_withSink arena s sink f.node v
  | assign name v =>
    unfold performStep
    dsimp only
    rw [State.store_withSink, State.scope_withSink]
    cases s.store.holder? s.scope name with
    | some holder => exact hdeliver _ _
    | none => rfl
  | again t => rfl
  | _ => exact hdeliver _ _

theorem callForm_withSink (f : CallFrame) (form : SpecialForm) (values : List Value) :
    callForm arena f form values (s.withSink sink) =
      (callForm arena f form values s).withSink sink := by
  unfold callForm
  split
  · rfl
  split
  · rfl
  · exact performStep_withSink arena s sink f form _

theorem leaveBody_withSink (v : Value) :
    leaveBody arena v (s.withSink sink) = (leaveBody arena v s).withSink sink := by
  unfold leaveBody
  rw [State.continuations_withSink]
  rcases s.continuations.pop? with _ | ⟨k, continuations⟩
  · rfl
  dsimp only
  split
  · rfl
  · exact deliver_withSink arena { s with scope := k.callerScope, continuations } sink
      k.returnNode v

theorem skipUnwanted_withSink :
    skipUnwanted arena (s.withSink sink) = (skipUnwanted arena s).map (·.withSink sink) := by
  unfold skipUnwanted
  rw [State.frames_withSink, State.pc_withSink]
  rcases s.frames.pop? with _ | ⟨frame, frames⟩
  · rfl
  cases frame with
  | call f =>
    dsimp only
    split
    · rfl
    · split <;> rfl
  | _ => rfl

/-- A builtin is the only thing that writes. -/
theorem writes_callBuiltin (node : NodeId) (b : Builtin) (args : List Value) :
    Writes s fun sink => callBuiltin arena node b args (s.withSink sink) := by
  unfold callBuiltin
  rcases b.call args with e | ⟨v | text⟩
  · exact .silent fun _ _ => rfl
  · exact .silent fun before sink => deliver_withSink arena (s.withSink before) sink node v
  · refine .asks text (t := s) (p := deliver arena node .unspecified s) rfl rfl
      (fun sink sink' hwrite => ?_) (fun sink sink' reason hwrite => ?_)
    · unfold writeText
      dsimp only
      rw [State.sink_withSink, hwrite]
      exact deliver_withSink arena s sink' node .unspecified
    · unfold writeText
      dsimp only
      rw [State.sink_withSink, hwrite]
      rfl

theorem writes_dispatch (f : CallFrame) (values : List Value) :
    Writes s fun sink => dispatch arena limit f values (s.withSink sink) := by
  unfold dispatch
  rcases values with _ | ⟨operator, args⟩
  · exact .silent fun _ _ => rfl
  cases operator with
  | builtin b => exact writes_callBuiltin arena s f.node b args
  | special form =>
    exact .silent fun before sink => callForm_withSink arena (s.withSink before) sink f form args
  | closure c =>
    exact .silent fun before sink => apply_withSink limit (s.withSink before) sink f.node c args
  | _ => exact .silent fun _ _ => rfl

/-- The stacks play no part in what `Writes` says about its state. -/
theorem Writes.of_stacks {f : Sink → Progress} {s s' : State} (h : Writes s' f)
    (hstore : s'.store = s.store) (hstats : s'.stats = s.stats) : Writes s f := by
  cases h with
  | silent h => exact .silent h
  | asks text hstore' hstats' htaken hrefused =>
    exact .asks text (hstore'.trans hstore) (hstats'.trans hstats) htaken hrefused

theorem writes_reduce : Writes s fun sink => reduce arena limit (s.withSink sink) := by
  unfold reduce
  simp only [State.frames_withSink, State.operands_withSink]
  rcases s.frames.pop? with _ | ⟨frame, frames⟩
  · exact .silent fun _ _ => rfl
  cases frame with
  | topLevel =>
    dsimp only
    rcases s.operands.pop? with _ | ⟨v, operands⟩
    · exact .silent fun _ _ => rfl
    · exact .silent fun _ _ => rfl
  | body base =>
    dsimp only
    rcases s.operands.pop? with _ | ⟨v, operands⟩
    · exact .silent fun _ _ => rfl
    · dsimp only
      split
      · exact .silent fun before sink =>
          leaveBody_withSink arena { s with frames, operands, sink := before } sink v
      · exact .silent fun _ _ => rfl
  | call f =>
    dsimp only
    rcases s.operands.splitOff? f.base with _ | ⟨values, operands⟩
    · exact .silent fun _ _ => rfl
    · have hdispatch := writes_dispatch arena limit { s with frames, operands } f values
      exact hdispatch.of_stacks rfl rfl

/-- A step asks the sink at most once, before it changes anything that outlasts the
run. -/
theorem writes_step : Writes (tick s) fun sink => step arena limit (s.withSink sink) := by
  unfold step
  simp only [State.tick_withSink, skipUnwanted_withSink]
  cases hskip : skipUnwanted arena (tick s) with
  | error fault => exact .silent fun _ _ => rfl
  | ok s' =>
    obtain ⟨hstore, -, hstats⟩ := skipUnwanted_eq_ok arena hskip
    simp only [Except.map, State.pc_withSink]
    cases s'.pc with
    | some node =>
      exact .silent fun before sink => enter_withSink arena limit (s'.withSink before) sink node
    | none => exact (writes_reduce arena limit s').of_stacks hstore hstats

end Functions

/-! ## Runs -/

/-- The run of the expression at `root` after `n` steps, or its end. -/
def stage (arena : Arena) (limit : Option Nat) (store : Store) (root : NodeId) (sink : Sink)
    (n : Nat) : Progress :=
  (Progress.next (step arena limit))^[n] (.running (.initial store sink root))

/-- Two stages that are the same up to their sinks.  Both sinks took the same texts since
they were `first` and `second`. -/
structure Alike (first second : Sink) (texts : List String) (p q : Progress) : Prop where
  sink : p.state.sink = first.taking texts
  same : q = p.withSink (second.taking texts)

/-- Two sinks that took the same texts lead to stages that are alike, or the second one
refuses a text that the first one takes. -/
theorem Writes.alike_or_refused {s : State} {f : Sink → Progress} (h : Writes s f) {first : Sink}
    (hfirst : first.AcceptsAll) (second : Sink) (texts : List String) :
    (∃ more, Alike first second more (f (first.taking texts)) (f (second.taking texts))) ∨
      ∃ text reason, ∃ t : State,
        (f (first.taking texts)).state.sink = first.taking (texts ++ [text]) ∧
        second.refuseWrite (second.taking texts).history text = some reason ∧
        f (second.taking texts) = t.fail (.output reason) ∧
        t.sink = (second.taking texts).refused text ∧ t.stats = s.stats ∧ t.store = s.store := by
  cases h with
  | silent h =>
    refine .inl ⟨texts, ?_, h _ _⟩
    rw [h (first.taking texts) (first.taking texts), Progress.state_withSink, State.sink_withSink]
  | @asks text t p hstore hstats htaken hrefused =>
    by_cases hempty : text.isEmpty = true
    · have hwrite : ∀ sink : Sink, sink.write text = (none, sink) := fun _ => if_pos hempty
      refine .inl ⟨texts, ?_, ?_⟩
      · rw [htaken _ _ (hwrite _), Progress.state_withSink, State.sink_withSink]
      · rw [htaken _ _ (hwrite _), htaken _ _ (hwrite _), Progress.withSink_withSink]
    have htakes : f (first.taking texts) = p.withSink (first.taking (texts ++ [text])) := by
      rw [Sink.taking_concat]
      exact htaken _ _ (Sink.write_eq_took hempty (by rw [hfirst.write_taking]))
    have hsink : (f (first.taking texts)).state.sink = first.taking (texts ++ [text]) := by
      rw [htakes, Progress.state_withSink, State.sink_withSink]
    have hanswer := congrFun (congrFun (second.answers_taking texts).1
      (second.taking texts).history) text
    cases hsecond : second.refuseWrite (second.taking texts).history text with
    | none =>
      refine .inl ⟨texts ++ [text], hsink, ?_⟩
      rw [htakes, htaken _ _ (Sink.write_eq_took hempty (hanswer.trans hsecond)),
        Progress.withSink_withSink, Sink.taking_concat]
    | some reason =>
      exact .inr ⟨text, reason, t.withSink ((second.taking texts).refused text), hsink, hsecond,
        hrefused _ _ _ (Sink.write_eq_refused hempty (hanswer.trans hsecond)), rfl, hstats, hstore⟩

section Runs

variable (arena : Arena) (limit : Option Nat) (store : Store) (root : NodeId)

/-- After `k` steps, in which both sinks took the same texts, the first run is in the state
`s`.  In the next step the first sink takes another text, which the second one refuses.
The run with the second sink ends there, in the state `t`, where nothing has changed but
the stacks and the count of steps. -/
structure Cut (first second : Sink) (k : Nat) (texts : List String) (text reason : String)
    (s t : State) : Prop where
  running : stage arena limit store root first k = .running s
  alike : Alike first second texts (.running s) (stage arena limit store root second k)
  taken : (stage arena limit store root first (k + 1)).state.sink =
    first.taking (texts ++ [text])
  refused : second.refuseWrite (second.taking texts).history text = some reason
  ends {n : Nat} (h : k < n) :
    stage arena limit store root second n = .halted (.error (.output reason)) t
  sink : t.sink = (second.taking texts).refused text
  stats : t.stats = { s.stats with steps := k + 1 }
  store : t.store = s.store

theorem stage_succ (sink : Sink) (n : Nat) :
    stage arena limit store root sink (n + 1) =
      (stage arena limit store root sink n).next (step arena limit) :=
  Function.iterate_succ_apply' _ _ _

variable {arena limit store root} {sink first second : Sink} {n m : Nat} {s t : State}
  {texts : List String} {outcome : Except Error Value}

theorem stage_of_halted (h : stage arena limit store root sink n = .halted outcome t)
    (hle : n ≤ m) : stage arena limit store root sink m = .halted outcome t := by
  induction hle with
  | refl => exact h
  | step hle ih => rw [stage_succ, ih, Progress.next]

theorem run_initial_eq_some_iff :
    run arena limit n (.initial store sink root) = some (outcome, t) ↔
      stage arena limit store root sink n = .halted outcome t := by
  rw [← runBy_apply]
  exact runBy_eq_some_iff

/-- A run counts its steps. -/
theorem steps_of_stage (h : stage arena limit store root sink n = .running s) :
    s.stats.steps = n := by
  induction n generalizing s with
  | zero =>
    cases h
    rfl
  | succ n ih =>
    rw [stage_succ] at h
    cases hstage : stage arena limit store root sink n with
    | halted outcome t =>
      rw [hstage] at h
      cases h
    | running s' =>
      rw [hstage, Progress.next] at h
      have hsteps := (guarded_step arena s').steps_eq limit
      rw [h] at hsteps
      rw [← ih hstage]
      exact hsteps

theorem alike_initial : Alike first second [] (stage arena limit store root first 0)
    (stage arena limit store root second 0) :=
  ⟨rfl, rfl⟩

/-- One more step keeps two runs alike, or the second sink refuses what the first one
takes. -/
theorem alike_or_cut_succ (hfirst : first.AcceptsAll)
    (h : Alike first second texts (stage arena limit store root first n)
      (stage arena limit store root second n)) :
    (∃ more, Alike first second more (stage arena limit store root first (n + 1))
        (stage arena limit store root second (n + 1))) ∨
      ∃ text reason s t, Cut arena limit store root first second n texts text reason s t := by
  obtain ⟨hsink, hsame⟩ := h
  cases hstage : stage arena limit store root first n with
  | halted outcome t =>
    rw [hstage] at hsame hsink
    rw [stage_of_halted hstage (Nat.le_succ n), stage_of_halted hsame (Nat.le_succ n)]
    exact .inl ⟨texts, hsink, rfl⟩
  | running s =>
    rw [hstage] at hsame hsink
    have hfirstNext : stage arena limit store root first (n + 1) =
        step arena limit (s.withSink (first.taking texts)) := by
      rw [stage_succ, hstage, ← hsink]
      rfl
    have hsecondNext : stage arena limit store root second (n + 1) =
        step arena limit (s.withSink (second.taking texts)) := by
      rw [stage_succ, hsame]
      rfl
    rcases (writes_step arena limit s).alike_or_refused hfirst second texts with
      halike | ⟨text, reason, t, htaken, hrefused, hends, hrefusedSink, hstats, hstore⟩
    · rw [hfirstNext, hsecondNext]
      exact .inl halike
    · rw [← hfirstNext] at htaken
      refine .inr ⟨text, reason, s, t, hstage, ⟨hsink, hsame⟩, htaken, hrefused,
        stage_of_halted (hsecondNext.trans hends), hrefusedSink, ?_, hstore⟩
      rw [hstats, ← steps_of_stage hstage]
      rfl

/-- Two runs are alike after any number of steps, or one of them was cut short. -/
theorem alike_or_cut (arena : Arena) (limit : Option Nat) (store : Store) (root : NodeId)
    (hfirst : first.AcceptsAll) (second : Sink) (n : Nat) :
    (∃ texts, Alike first second texts (stage arena limit store root first n)
        (stage arena limit store root second n)) ∨
      ∃ k texts text reason s t, k < n ∧
        Cut arena limit store root first second k texts text reason s t := by
  induction n with
  | zero => exact .inl ⟨[], alike_initial⟩
  | succ n ih =>
    rcases ih with ⟨texts, halike⟩ | ⟨k, texts, text, reason, s, t, hlt, hcut⟩
    · rcases alike_or_cut_succ hfirst halike with hnext | ⟨text, reason, s, t, hcut⟩
      · exact .inl hnext
      · exact .inr ⟨n, texts, text, reason, s, t, Nat.lt_succ_self n, hcut⟩
    · exact .inr ⟨k, texts, text, reason, s, t, Nat.lt_succ_of_lt hlt, hcut⟩

end Runs

end Machine

/-! ## Sessions -/

namespace Session

open Machine

/-- The session with another sink. -/
def withSink (session : Session) (sink : Sink) : Session :=
  { session with sink }

/-- The session after the evaluation of an expression that has left the state `t`. -/
def afterRun (session : Session) (t : State) : Session :=
  { session with store := t.store, sink := t.sink.flush.2, stats := t.stats }

/-- The evaluation of an expression as a stage of its run. -/
theorem evaluateRoot_eq_stage (session : Session) (sink : Sink) (budget : Nat) (root : NodeId) :
    (session.withSink sink).evaluateRoot budget root =
      match stage session.arena session.limit session.store root sink budget with
      | .running _ => none
      | .halted outcome t => some (withFlush outcome t.sink.flush.1, session.afterRun t) := by
  unfold evaluateRoot
  dsimp only [withSink]
  cases hstage : stage session.arena session.limit session.store root sink budget with
  | halted outcome t =>
    rw [run_initial_eq_some_iff.2 hstage]
    rfl
  | running s =>
    cases hrun : run session.arena session.limit budget (.initial session.store sink root) with
    | none => rfl
    | some ended =>
      rw [run_initial_eq_some_iff.1 hrun] at hstage
      cases hstage

/-- The second evaluation has the result of the first one, unless this is a value and its
own flush is refused.  Both sinks took the same texts, and everything else is the same. -/
structure Agrees (first second : Sink) (texts : List String) (ended ended' : Result × Session) :
    Prop where
  error {e : Error} (h : ended.1 = .error e) : ended'.1 = .error e
  value {answer : Answer} (h : ended.1 = .ok answer) :
    ended'.1 =
      match second.refuseFlush (second.taking texts).history with
      | some reason => .error (.output reason)
      | none => .ok answer
  same : ended'.2 = ended.2.withSink ended'.2.sink
  sink : ended.2.sink = (first.taking texts).flush.2
  sink' : ended'.2.sink = (second.taking texts).flush.2
  text : ended.2.sink.text = first.text ++ String.join texts
  text' : ended'.2.sink.text = second.text ++ String.join texts

theorem agrees_of_alike {first second : Sink} (hfirst : first.AcceptsAll) (session : Session)
    {texts : List String} {outcome : Except Error Value} {t : State}
    (h : t.sink = first.taking texts) :
    Agrees first second texts (withFlush outcome t.sink.flush.1, session.afterRun t)
      (withFlush outcome (second.taking texts).flush.1,
        session.afterRun (t.withSink (second.taking texts))) := by
  have hgranted : t.sink.flush.1 = none := by
    rw [Sink.flush, h, (first.answers_taking texts).2, hfirst.flush]
  have hflush : (second.taking texts).flush.1 =
      second.refuseFlush (second.taking texts).history := by
    rw [Sink.flush, (second.answers_taking texts).2]
    cases second.refuseFlush (second.taking texts).history <;> rfl
  rw [hgranted, hflush]
  refine ⟨fun he => ?_, fun hanswer => ?_, rfl, congrArg (·.flush.2) h, rfl, ?_, ?_⟩
  · cases outcome with
    | error e => exact he
    | ok v => cases he
  · cases outcome with
    | error e => cases hanswer
    | ok v =>
      cases hanswer
      cases second.refuseFlush (second.taking texts).history <;> rfl
  · show t.sink.flush.2.text = _
    rw [Sink.text_flush, h, Sink.text_taking]
  · show (second.taking texts).flush.2.text = _
    rw [Sink.text_flush, Sink.text_taking]

end Session

/-! ## The result -/

namespace Machine

/-- Refused writes only cut runs short.  Compare a run whose sink accepts everything with
the same run with another sink.  After any number of steps the two are the same up to the
sinks, which took the same texts, or the other sink has refused a text that the first one
took in the same step.  There the other run has ended with the sink's reason, in the store
that the first run had before the step, and nothing of the text was accepted.

If no text is refused, an expression has an error of its evaluation, or else the reason why
the flush was refused, or else its value.  A refused flush changes nothing that is left
behind. -/
theorem refusals_only_cut {first : Sink} (hfirst : first.AcceptsAll) (second : Sink) :
    (∀ (arena : Arena) (limit : Option Nat) (store : Store) (root : NodeId) (n : Nat),
      (∃ texts, Alike first second texts (stage arena limit store root first n)
          (stage arena limit store root second n) ∧
        (stage arena limit store root first n).state.sink.text =
          first.text ++ String.join texts ∧
        (stage arena limit store root second n).state.sink.text =
          second.text ++ String.join texts) ∨
      ∃ k texts text reason s t, k < n ∧
        Cut arena limit store root first second k texts text reason s t ∧
        t.sink.text = second.text ++ String.join texts) ∧
    ∀ (session : Session) (budget : Nat) (root : NodeId),
      ((session.withSink first).evaluateRoot budget root = none ∧
        (session.withSink second).evaluateRoot budget root = none) ∨
      (∃ texts ended ended', (session.withSink first).evaluateRoot budget root = some ended ∧
        (session.withSink second).evaluateRoot budget root = some ended' ∧
        Session.Agrees first second texts ended ended') ∨
      ∃ k texts text reason s t next, k < budget ∧
        Cut session.arena session.limit session.store root first second k texts text reason s t ∧
        (session.withSink second).evaluateRoot budget root =
          some (.error (.output reason), next) ∧
        next = { session with store := s.store, stats := t.stats, sink := next.sink } ∧
        next.sink.text = second.text ++ String.join texts := by
  constructor
  · intro arena limit store root n
    rcases alike_or_cut arena limit store root hfirst second n with
      ⟨texts, halike⟩ | ⟨k, texts, text, reason, s, t, hlt, hcut⟩
    · refine .inl ⟨texts, halike, ?_, ?_⟩
      · rw [halike.sink, Sink.text_taking]
      · rw [halike.same, Progress.state_withSink, State.sink_withSink, Sink.text_taking]
    · refine .inr ⟨k, texts, text, reason, s, t, hlt, hcut, ?_⟩
      rw [hcut.sink, Sink.text_refused, Sink.text_taking]
  · intro session budget root
    rw [session.evaluateRoot_eq_stage first, session.evaluateRoot_eq_stage second]
    rcases alike_or_cut session.arena session.limit session.store root hfirst second budget with
      ⟨texts, hsink, hsame⟩ | ⟨k, texts, text, reason, s, t, hlt, hcut⟩
    · rw [hsame]
      cases hstage : stage session.arena session.limit session.store root first budget with
      | running s => exact .inl ⟨rfl, rfl⟩
      | halted outcome t =>
        rw [hstage] at hsink
        exact .inr (.inl ⟨texts, _, _, rfl, rfl, Session.agrees_of_alike hfirst session hsink⟩)
    · rw [hcut.ends hlt]
      refine .inr (.inr ⟨k, texts, text, reason, s, t, _, hlt, hcut, rfl, ?_, ?_⟩)
      · rw [← hcut.store]
        rfl
      · show t.sink.flush.2.text = _
        rw [Sink.text_flush, hcut.sink, Sink.text_refused, Sink.text_taking]

/-- A sink of four bytes refuses the second text of
`(and (define x 7) (display 12) (display 345) (define x 8))`, and the first definition is
kept.  If the flush alone is refused, both definitions are kept. -/
theorem refusals_only_cut_define :
    ∃ (session : Session) (root : NodeId),
      (∃ k texts text s t next,
        Cut session.arena session.limit session.store root .accepting (.bounded 4 "full") k texts
          text "full" s t ∧
        (session.withSink (.bounded 4 "full")).evaluateRoot 60 root =
          some (.error (.output "full"), next) ∧
        next.store = s.store ∧ next.sink.text = "12" ∧
        next.store.lookup? Store.globalScope "x" = some (.integer 7)) ∧
      ∃ next next',
        (session.withSink .accepting).evaluateRoot 60 root = some (.ok .unspecified, next) ∧
        (session.withSink (Sink.accepting.withoutFlush "closed")).evaluateRoot 60 root =
          some (.error (.output "closed"), next') ∧
        next' = next.withSink next'.sink ∧ next'.sink.text = "12345" ∧
        next'.store.lookup? Store.globalScope "x" = some (.integer 8) := by
  have hparse : ∃ (session : Session) (root : NodeId),
      parse "(and (define x 7) (display 12) (display 345) (define x 8))" =
        .ok (root, session.arena) ∧
      (∃ next, (session.withSink (.bounded 4 "full")).evaluateRoot 60 root =
          some (.error (.output "full"), next) ∧ next.sink.text = "12" ∧
        next.store.lookup? Store.globalScope "x" = some (.integer 7)) ∧
      (∃ next, (session.withSink .accepting).evaluateRoot 60 root =
        some (.ok .unspecified, next)) ∧
      ∃ next, (session.withSink (Sink.accepting.withoutFlush "closed")).evaluateRoot 60 root =
          some (.error (.output "closed"), next) ∧ next.sink.text = "12345" ∧
        next.store.lookup? Store.globalScope "x" = some (.integer 8) :=
    ⟨{ arena := _ }, _, rfl, ⟨_, rfl, rfl, rfl⟩, ⟨_, rfl⟩, _, rfl, rfl, rfl⟩
  obtain ⟨session, root, -, ⟨cut, hcut, htext, hseven⟩, ⟨next, hnext⟩, next', hnext', htext',
    height⟩ := hparse
  refine ⟨session, root, ?_, next, next', hnext, hnext', ?_, htext', height⟩
  · rcases (refusals_only_cut Sink.acceptsAll_accepting (.bounded 4 "full")).2 session 60 root with
      ⟨-, hnone⟩ | ⟨texts, ended, ended', hfirst, hsecond, hagrees⟩ |
        ⟨k, texts, text, reason, s, t, last, -, hrefused, hsecond, hlast, -⟩
    · rw [hcut] at hnone
      cases hnone
    · -- The flush was granted, and so the results would be the same.
      obtain rfl : (.ok .unspecified, next) = ended := Option.some.inj (hnext.symm.trans hfirst)
      obtain rfl : (.error (.output "full"), cut) = ended' :=
        Option.some.inj (hcut.symm.trans hsecond)
      cases hagrees.value rfl
    · rw [hcut] at hsecond
      cases hsecond
      exact ⟨k, texts, text, s, t, cut, hrefused, hcut, congrArg Session.store hlast, htext, hseven⟩
  · rcases (refusals_only_cut Sink.acceptsAll_accepting
        (Sink.accepting.withoutFlush "closed")).2 session 60 root with
      ⟨-, hnone⟩ | ⟨texts, ended, ended', hfirst, hsecond, hagrees⟩ |
        ⟨k, texts, text, reason, s, t, last, -, hrefused, -⟩
    · rw [hnext'] at hnone
      cases hnone
    · obtain rfl : (.ok .unspecified, next) = ended := Option.some.inj (hnext.symm.trans hfirst)
      obtain rfl : (.error (.output "closed"), next') = ended' :=
        Option.some.inj (hnext'.symm.trans hsecond)
      exact hagrees.same
    · -- This sink refuses no text.
      cases hrefused.refused

end Machine

end StackScheme
