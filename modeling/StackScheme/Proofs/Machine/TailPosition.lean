import StackScheme.Proofs.Machine.Activations

/-!
# Tail position is detected exactly

Whether a call is a tail call is decided by a scan of the frames, which looks at passes
and counts.  The scan is right: it finds the calls whose expression is in tail position
of the body that is running, and a tail call costs no space.

* Tail position.  `TailPosition` is what it means, in terms of the expressions that the
  call lies in and of the operators that they were found to have.
* Detection.  `FormTask.forwards_iff` is about one form, and `isSome_runningBody?_iff`
  about the levels out to the running body.
* Entering.  `Application.Exact` is what is claimed about each procedure that is
  entered.
* Peaks.  `peak_of_leads` says that the peak is the greatest number of continuations,
  and `TailRun.peak_eq` that tail calls leave it alone.
-/

namespace StackScheme.Machine

/-! ## Tail position -/

/-- The value of the combination at `parent` is that of `node`, which is being evaluated:
it is a branch of `if`, or the last operand of `and` or `or`.  What counts is the operator
that the combination was found to have. -/
def PassesOn (arena : Arena) (operator? : Option Value) (parent node : NodeId) : Prop :=
  operator? = some (.special .ifForm) ∧
      ((arena.operands parent)[1]? = some node ∨ (arena.operands parent)[2]? = some node) ∨
    (operator? = some (.special .andForm) ∨ operator? = some (.special .orForm)) ∧
      (arena.operands parent).getLast? = some node

/-- The expression at `node` is in tail position of the body of `a`.  The frames are
those of the combinations that `node` lies in, the innermost first, and of the body.
`operands` has the values from the lowest up, so that the operator of a combination is
the value at its base. -/
inductive TailPosition (arena : Arena) (operands : List Value) (a : Activation) :
    NodeId → List Frame → Prop
  /-- The last expression of the body. -/
  | last {node : NodeId} {base : Nat} {frames : List Frame}
    (hnode : a.body[a.index]? = some node) (hlast : a.index + 1 = a.body.length) :
    TailPosition arena operands a node (.body base :: frames)
  /-- An operand whose value is passed on by a combination in tail position. -/
  | operand {node : NodeId} {f : CallFrame} {frames : List Frame}
    (hpasses : PassesOn arena operands[f.base]? f.node node)
    (h : TailPosition arena operands a f.node frames) :
    TailPosition arena operands a node (.call f :: frames)

/-! ## Detection -/

section Detection

variable {arena : Arena} (hlinks : arena.WellLinked)

include hlinks

/-- A form passes on the value of the operand that is wanted if and only if it is a
branch of `if`, or the last operand of `and` or `or`. -/
theorem FormTask.forwards_iff {t : FormTask} {parent node : NodeId} {position : Nat}
    (hfits : t.Fits arena parent) (hchild : (arena.children parent)[position]? = some node)
    (hwanted : t.wanted = some position) :
    t.forwards = true ↔
      t.form = .ifForm ∧ ((arena.operands parent)[1]? = some node ∨
          (arena.operands parent)[2]? = some node) ∨
        (t.form = .andForm ∨ t.form = .orForm) ∧
          (arena.operands parent).getLast? = some node := by
  have hpass := hfits.inPass
  have hcount := hfits.count
  have hrange := hfits.wanted_le hwanted
  have hat : ∀ i, (arena.operands parent)[i]? = some node ↔ position = i + 1 := by
    intro i
    rw [Arena.getElem?_operands]
    exact ⟨fun h => Arena.getElem?_children_inj hlinks hchild h, fun h => h ▸ hchild⟩
  have hlast : (arena.operands parent).getLast? = some node ↔ position = t.operandCount := by
    have hlen : (arena.operands parent).length = t.operandCount := by
      rw [Arena.operands, List.length_tail]
      omega
    rw [List.getLast?_eq_getElem?, hlen, hat]
    omega
  rw [hat, hat, hlast]
  rw [FormTask.InPass, hwanted] at hpass
  unfold FormTask.forwards
  cases hform : t.form with
  | ifForm =>
    simp only [hform, Option.some.injEq, reduceCtorEq, false_or] at hpass
    simp only [beq_iff_eq, true_and, reduceCtorEq, or_self, false_and, or_false]
    omega
  | andForm | orForm =>
    simp only [hform, Option.some.injEq, reduceCtorEq, false_and, and_false, false_or] at hpass
    simp only [Bool.and_eq_true, decide_eq_true_eq, beq_iff_eq, reduceCtorEq, false_and, false_or,
      or_false, true_and, or_true]
    omega
  | lambdaForm | defineForm | setForm | quoteForm => simp

/-- Only operands have their values passed on. -/
theorem exists_of_passesOn {operator? : Option Value} {parent node : NodeId} {position : Nat}
    (hchild : (arena.children parent)[position]? = some node)
    (h : PassesOn arena operator? parent node) :
    1 ≤ position ∧ ∃ form, operator? = some (.special form) := by
  have hmem : node ∈ arena.operands parent ∧ ∃ form, operator? = some (.special form) := by
    rcases h with ⟨hform, hnode | hnode⟩ | ⟨hform | hform, hnode⟩
    · exact ⟨List.mem_of_getElem? hnode, _, hform⟩
    · exact ⟨List.mem_of_getElem? hnode, _, hform⟩
    · exact ⟨List.mem_of_getLast? hnode, _, hform⟩
    · exact ⟨List.mem_of_getLast? hnode, _, hform⟩
  obtain ⟨i, hi⟩ := List.mem_iff_getElem?.1 hmem.1
  rw [Arena.getElem?_operands] at hi
  have hposition := Arena.getElem?_children_inj hlinks hchild hi
  exact ⟨by omega, hmem.2⟩

/-- What the scan asks of a frame is that the operand which is being evaluated has its
value passed on.  The operator is the lowest value of the frame. -/
theorem Task.forwards_iff {task : Task} {parent node : NodeId} {position : Nat} {vs : List Value}
    (hfits : task.Fits arena parent) (hchild : (arena.children parent)[position]? = some node)
    (hskips : task.skips position = false) (howns : task.Owns position vs) (above : List Value) :
    task.forwards = true ↔ PassesOn arena (vs.reverse ++ above)[0]? parent node := by
  cases task with
  | form t =>
    obtain ⟨-, hwanted, rfl⟩ := howns.before_of_child hfits hchild hskips
    have hoperator : ([Value.special t.form].reverse ++ above)[0]? = some (.special t.form) := rfl
    rw [hoperator, PassesOn]
    simp only [Option.some.injEq, Value.special.injEq]
    exact FormTask.forwards_iff hlinks hfits hchild hwanted
  | call =>
    cases howns with
    | call hlen hoperator =>
      refine ⟨fun h => absurd h Bool.false_ne_true, fun h => ?_⟩
      obtain ⟨hpos, form, hform⟩ := exists_of_passesOn hlinks hchild h
      -- Past its operator, an ordinary combination has an operator that is no form.
      have hlt : 0 < vs.reverse.length := by
        rw [List.length_reverse]
        omega
      rw [List.getElem?_append_left hlt, ← List.head?_eq_getElem?, List.head?_reverse] at hform
      exact absurd hform (hoperator form)

/-- The scan of the frames finds the calls in tail position. -/
theorem isSome_runningBody?_iff {ls : List Level} {node : NodeId} {as : List Activation}
    (hawaits : Awaits arena node ls) (htracks : Tracks (some node) ls as)
    {operands above : List Value} (hoperands : operands = (operandsOf ls).reverse ++ above) :
    (runningBody? ls).isSome ↔
      ∃ a rest, as = a :: rest ∧ TailPosition arena operands a node (framesOf ls) := by
  induction ls generalizing node above with
  | nil => exact hawaits.elim
  | cons l ls ih =>
    cases l with
    | top vs =>
      cases ls with
      | cons _ _ => exact hawaits.elim
      | nil =>
        obtain rfl : as = [] := htracks
        simp [runningBody?]
    | body k vs =>
      cases as with
      | nil => exact htracks.elim
      | cons a as =>
        obtain ⟨hnode, hremaining, -, -⟩ := htracks
        have hnode := hnode node rfl
        have hlt := (List.getElem?_eq_some_iff.1 hnode).1
        have hlast : k.remaining = [] ↔ a.index + 1 = a.body.length := by
          rw [← hremaining, List.drop_eq_nil_iff]
          omega
        rw [runningBody?, Option.isSome_ite, hlast]
        constructor
        · intro h
          exact ⟨a, as, rfl, .last hnode h⟩
        · rintro ⟨a', rest, heq, htail⟩
          cases heq
          cases htail with
          | last _ h => exact h
    | call parent position task vs =>
      obtain ⟨hchild, hskips, hfits, howns, hrest⟩ := hawaits
      have hcut : operands = (operandsOf ls).reverse ++ (vs.reverse ++ above) := by
        simpa [Level.values] using hoperands
      have hbase : operands[(operandsOf ls).length]? = (vs.reverse ++ above)[0]? := by
        rw [hcut, List.getElem?_append_right (by simp)]
        simp
      have hframe := Task.forwards_iff hlinks hfits hchild hskips howns above
      rw [← hbase] at hframe
      have hsome : (runningBody? (.call parent position task vs :: ls)).isSome ↔
          task.forwards = true ∧ (runningBody? ls).isSome := by
        rw [runningBody?]
        cases task.forwards <;> simp
      rw [hsome, hframe, ih hrest htracks hcut, framesOf_cons, Level.frame]
      constructor
      · rintro ⟨hpasses, a, rest, heq, htail⟩
        exact ⟨a, rest, heq, .operand hpasses htail⟩
      · rintro ⟨a, rest, heq, htail⟩
        cases htail with
        | operand hpasses htail => exact ⟨hpasses, a, rest, heq, htail⟩

end Detection

/-! ## Entering -/

/-- The application is in tail position of the innermost activation. -/
def Application.InTail (arena : Arena) (a : Application) (as : List Activation) : Prop :=
  ∃ act rest, as = act :: rest ∧
    TailPosition arena a.state.operands.items.reverse act a.node a.state.frames.items

/-- The continuation on top keeps its caller and gets the rest of the new body. -/
def Application.Reuses (a : Application) (s s' : State) : Prop :=
  ∃ k ks, s.continuations.items = k :: ks ∧
    s'.continuations.items = { k with remaining := a.closure.rest } :: ks

/-- What holds when the step from `s` to `s'` enters a procedure, where `as` are the
activations in `s`. -/
structure Application.Exact (arena : Arena) (a : Application) (as : List Activation)
    (s s' : State) : Prop where
  reuses_iff : a.Reuses s s' ↔ a.InTail arena as
  pushes (h : ¬ a.Reuses s s') :
    s'.continuations.items =
      { callerScope := s.scope, returnNode := a.node, remaining := a.closure.rest } ::
        s.continuations.items
  top : s'.frames.top? = some (.body s'.operands.size)
  /-- The stacks are as high as right after the activation was first entered. -/
  heights (h : a.Reuses s s') :
    ∃ act ∈ as.head?, s'.frames.size = act.frames ∧ s'.operands.size = act.operands ∧
      s'.continuations.size = act.continuations
  peak (h : a.Reuses s s') : s'.stats.peakContinuations = s.stats.peakContinuations

section Entering

variable {arena : Arena} {limit : Option Nat}

/-- A continuation was added, so none was reused. -/
theorem Application.not_reuses_of_push {a : Application} {s s' : State} {k : Continuation}
    (h : s'.continuations.items = k :: s.continuations.items) : ¬ a.Reuses s s' := by
  rintro ⟨k', ks, hs, hs'⟩
  have hlen := congrArg List.length (h.symm.trans hs')
  simp [hs] at hlen

theorem exact_of_tracks (hlinks : arena.WellLinked) {s s' : State} {pc : Option NodeId}
    {ls : List Level} {as : List Activation} {a : Application} (htracks : Tracks pc ls as)
    (hlaid : Laid arena pc ls) (happ : application? arena (s.withLevels pc ls) = some a)
    (hstep : step arena limit (s.withLevels pc ls) = .running s') :
    a.Exact arena as (s.withLevels pc ls) s' := by
  obtain ⟨position, vs, outer, rfl, hstate, hawaits, hcases⟩ := hlaid.enters_cases happ hstep
  have houter : Tracks (some a.node) outer as := htracks
  have htail : (runningBody? outer).isSome ↔ a.InTail arena as := by
    rw [Application.InTail, hstate]
    exact isSome_runningBody?_iff hlinks hawaits houter (List.append_nil _).symm
  rcases hcases with ⟨k, around, r, hbody, rfl, hpeak⟩ | ⟨r, hbody, rfl, -⟩
  · obtain ⟨act, rest, rfl, ⟨hframes, hoperands, hcontinuations⟩, -⟩ :=
      houter.of_runningBody? hbody
    obtain ⟨-, -, hcont, -⟩ := unwind_of_runningBody? hbody
    have hreuses : a.Reuses (s.withLevels pc (.call a.node position .call vs :: outer))
        (r.withLevels (some a.closure.first)
          (.body { k with remaining := a.closure.rest } [] :: around)) :=
      ⟨k, continuationsOf around, hcont, rfl⟩
    have hsome : (runningBody? outer).isSome := by rw [hbody]; rfl
    refine ⟨iff_of_true hreuses (htail.1 hsome), fun h => absurd hreuses h, rfl, fun _ => ?_,
      fun _ => hpeak⟩
    refine ⟨act, rfl, ?_, hoperands.symm, hcontinuations.symm⟩
    rw [hframes]
    exact congrArg (· + 1) (length_framesOf around)
  · have hnot : ¬ a.Reuses (s.withLevels pc (.call a.node position .call vs :: outer))
        (r.withLevels (some a.closure.first)
          (.body { callerScope := s.scope, returnNode := a.node, remaining := a.closure.rest }
            [] :: outer)) :=
      Application.not_reuses_of_push rfl
    have hnone : ¬ (runningBody? outer).isSome := by rw [hbody]; simp
    refine ⟨iff_of_false hnot (mt htail.2 hnone), fun _ => rfl, rfl, fun h => absurd h hnot,
      fun h => absurd h hnot⟩

end Entering

/-! ## Peaks -/

/-- A stretch of a run from `s` to `t` in which every procedure is entered in tail
position, with the activations at both ends. -/
inductive TailRun (arena : Arena) (limit : Option Nat) (s : State) (as : List Activation) :
    State → List Activation → Prop
  | refl : TailRun arena limit s as s as
  | step {t t' : State} {bs : List Activation} (h : TailRun arena limit s as t bs)
    (hstep : step arena limit t = .running t')
    (htail : ∀ a, application? arena t = some a → a.InTail arena bs) :
    TailRun arena limit s as t' (follow arena t t' bs)

section Peaks

variable {arena : Arena} {limit : Option Nat} {start s : State} {as : List Activation}
  (hlinks : arena.WellLinked) (hsound : Sound arena (.running start))
  (hstart : TrackedBy [] (.running start))

include hlinks hsound hstart

/-- The levels of a state whose activations were noted. -/
theorem History.exists_levels (h : History arena limit start s as) :
    ∃ pc ls, s = s.withLevels pc ls ∧ Tracks pc ls as ∧ Laid arena pc ls := by
  obtain ⟨pc, ls, hs, htracks⟩ := h.tracked hlinks hsound hstart
  have hreached := hsound.of_leads hlinks h.leads
  rw [hs] at hreached
  exact ⟨pc, ls, hs, htracks, hreached.laid⟩

theorem History.exact {s' : State} {a : Application} (h : History arena limit start s as)
    (happ : application? arena s = some a) (hstep : Machine.step arena limit s = .running s') :
    a.Exact arena as s s' := by
  obtain ⟨pc, ls, hs, htracks, hlaid⟩ := h.exists_levels hlinks hsound hstart
  rw [hs] at happ hstep ⊢
  exact exact_of_tracks hlinks htracks hlaid happ hstep

/-- A step that applies no procedure keeps the peak. -/
theorem History.quiet (h : History arena limit start s as)
    (happ : application? arena s = none) :
    (Machine.step arena limit s).state.stats.peakContinuations = s.stats.peakContinuations ∧
      (Machine.step arena limit s).state.continuations.size ≤ s.continuations.size := by
  obtain ⟨pc, ls, hs, htracks, hlaid⟩ := h.exists_levels hlinks hsound hstart
  rw [hs] at happ ⊢
  obtain ⟨n, hn, hquiet⟩ : ∃ n ≤ _, Quiet _ _ n (Machine.step arena limit (s.withLevels pc ls)) :=
    quiet_step hlinks htracks hlaid happ
  rw [hquiet.stats_eq, hquiet.size_eq]
  exact ⟨rfl, hn⟩

/-- A step keeps the peak and adds no continuation, or the peak takes the new number of
continuations into account. -/
theorem History.peak_step (h : History arena limit start s as) :
    (Machine.step arena limit s).state.stats.peakContinuations = s.stats.peakContinuations ∧
        (Machine.step arena limit s).state.continuations.size ≤ s.continuations.size ∨
      ∃ s', Machine.step arena limit s = .running s' ∧
        s'.stats.peakContinuations = max s.stats.peakContinuations s'.continuations.size := by
  cases happ : application? arena s with
  | none => exact .inl (h.quiet hlinks hsound hstart happ)
  | some a =>
    obtain ⟨pc, ls, hs, -, hlaid⟩ := h.exists_levels hlinks hsound hstart
    rw [hs] at happ ⊢
    cases hstep : Machine.step arena limit (s.withLevels pc ls) with
    | halted r t =>
      obtain ⟨position, vs, outer, rfl, -, -, hstate, -⟩ := hlaid.application?_cases happ
      rw [step_eq_of_application? happ] at hstep
      obtain rfl := state_of_apply_eq_halted hstep
      rw [hstate]
      exact .inl ⟨rfl, Nat.le_refl _⟩
    | running s' =>
      obtain ⟨position, vs, outer, rfl, -, -, hcases⟩ := hlaid.enters_cases happ hstep
      rcases hcases with ⟨k, around, r, hbody, rfl, hpeak⟩ | ⟨r, -, rfl, hpeak⟩
      · obtain ⟨-, -, hcont, -⟩ := unwind_of_runningBody? hbody
        have hsize : (continuationsOf outer).length = (continuationsOf around).length + 1 := by
          rw [hcont, List.length_cons]
        exact .inl ⟨hpeak, Nat.le_of_eq hsize.symm⟩
      · exact .inr ⟨_, rfl, hpeak⟩

/-- The peak at the end of a run is not below any number of continuations from `p` on, and
it is the peak at `p` or one of these numbers. -/
theorem peak_of_leads {p : Progress} {r : Except Error Value} {t : State}
    (hleads : Leads arena limit p (.halted r t))
    (hhistory : ∀ s, p = .running s → ∃ as, History arena limit start s as)
    (hle : p.state.continuations.size ≤ p.state.stats.peakContinuations) :
    (∀ q, Leads arena limit p q → q.state.continuations.size ≤ t.stats.peakContinuations) ∧
      p.state.stats.peakContinuations ≤ t.stats.peakContinuations ∧
      (t.stats.peakContinuations = p.state.stats.peakContinuations ∨
        ∃ s, Leads arena limit p (.running s) ∧
          s.continuations.size = t.stats.peakContinuations) := by
  generalize hend : Progress.halted r t = e at hleads
  induction hleads with
  | refl =>
    subst hend
    refine ⟨fun q hq => ?_, Nat.le_refl _, .inl rfl⟩
    rw [hq.eq_of_halted]
    exact hle
  | @step s e hrest ih =>
    obtain ⟨as, hs⟩ := hhistory s rfl
    have hsle : s.continuations.size ≤ s.stats.peakContinuations := hle
    have hpeak := hs.peak_step hlinks hsound hstart
    have hnext : ∀ s', step arena limit s = .running s' →
        ∃ as, History arena limit start s' as := fun s' hstep => ⟨_, hs.step hstep⟩
    -- The peak does not go down, and is not below the new number of continuations.
    have hmono : s.stats.peakContinuations ≤
          (step arena limit s).state.stats.peakContinuations ∧
        (step arena limit s).state.continuations.size ≤
          (step arena limit s).state.stats.peakContinuations := by
      rcases hpeak with ⟨heq, hsize⟩ | ⟨s', hstep, heq⟩
      · omega
      · rw [hstep, Progress.state]
        omega
    obtain ⟨hall, hpeakle, hattained⟩ := ih hnext hmono.2 hend
    refine ⟨fun q hq => ?_, Nat.le_trans hmono.1 hpeakle, ?_⟩
    · cases hq with
      | refl => exact Nat.le_trans hsle (Nat.le_trans hmono.1 hpeakle)
      | step hq => exact hall q hq
    · rcases hattained with heq | ⟨s₀, hs₀, hsize⟩
      · rcases hpeak with ⟨heq', -⟩ | ⟨s', hstep, heq'⟩
        · exact .inl (heq.trans heq')
        · rw [hstep, Progress.state] at heq
          rcases Nat.le_total s'.continuations.size s.stats.peakContinuations with hlow | hhigh
          · exact .inl (by rw [heq, heq', Nat.max_eq_left hlow]; rfl)
          · exact .inr ⟨s', .of_step_eq hstep, by rw [heq, heq', Nat.max_eq_right hhigh]⟩
      · exact .inr ⟨s₀, .step hs₀, hsize⟩

omit hlinks hsound hstart in
theorem TailRun.history {t : State} {bs : List Activation} (hs : History arena limit start s as)
    (h : TailRun arena limit s as t bs) : History arena limit start t bs := by
  induction h with
  | refl => exact hs
  | step _ hstep _ ih => exact ih.step hstep

/-- Tail calls leave the peak alone, however many there are. -/
theorem TailRun.peak_eq {t : State} {bs : List Activation} (hs : History arena limit start s as)
    (h : TailRun arena limit s as t bs) :
    t.stats.peakContinuations = s.stats.peakContinuations := by
  induction h with
  | refl => rfl
  | @step t t' bs htrun hstep htail ih =>
    have ht := htrun.history hs
    rw [← ih]
    cases happ : application? arena t with
    | none =>
      have hquiet := (ht.quiet hlinks hsound hstart happ).1
      rwa [hstep] at hquiet
    | some a =>
      have hexact := ht.exact hlinks hsound hstart happ hstep
      exact hexact.peak (hexact.reuses_iff.2 (htail a happ))

end Peaks

/-! ## Whole runs -/

/-- Tail calls are found exactly and cost no space, in the run that starts at `start`. -/
structure TailCallsExact (arena : Arena) (limit : Option Nat) (start : State) : Prop where
  /-- Each state has as many bodies as continuations. -/
  bodies {s : State} (h : Leads arena limit (.running start) (.running s)) :
    s.frames.items.countP Frame.isBody = s.continuations.size
  /-- Each state has its activations. -/
  history {s : State} (h : Leads arena limit (.running start) (.running s)) :
    ∃ as, History arena limit start s as
  enters {s s' : State} {as : List Activation} {a : Application}
    (h : History arena limit start s as) (happ : application? arena s = some a)
    (hstep : step arena limit s = .running s') : a.Exact arena as s s'
  /-- The peak at the end is the greatest number of continuations in any state. -/
  peak {n : Nat} {r : Except Error Value} {t : State}
    (h : run arena limit n start = some (r, t)) :
    (∃ s, Leads arena limit (.running start) (.running s) ∧
        s.continuations.size = t.stats.peakContinuations) ∧
      ∀ p, Leads arena limit (.running start) p →
        p.state.continuations.size ≤ t.stats.peakContinuations
  /-- Any number of tail calls leaves the peak as it is. -/
  tailRun {s t : State} {as bs : List Activation} (h : History arena limit start s as)
    (htail : TailRun arena limit s as t bs) :
    t.stats.peakContinuations = s.stats.peakContinuations

/-- Whatever is evaluated, with or without a limit, tail calls are found exactly and cost
no space.  The arena and the store of a session always are of this kind
(`Session.Reachable.sound`). -/
theorem tailCallsExact_initial {arena : Arena} (hgrown : arena.Grown) {store : Store}
    (hstore : store.Inside arena.size) {root : Nat} (hroot : root < arena.size) (sink : Sink)
    (limit : Option Nat) : TailCallsExact arena limit (.initial store sink root) := by
  have hlinks := hgrown.wellLinked
  have hsound : Sound arena (.running (.initial store sink root)) := sound_initial hroot hstore
  have hstart : TrackedBy [] (.running (.initial store sink root)) :=
    ⟨some root, [.top []], rfl, rfl⟩
  refine ⟨fun h => (hsound.of_leads hlinks h).safe.bodies, fun h => exists_history h rfl .start,
    fun h happ hstep => h.exact hlinks hsound hstart happ hstep, fun {n r t} hrun => ?_,
    fun h htail => htail.peak_eq hlinks hsound hstart h⟩
  have hleads := leads_of_run_eq_some hrun
  have hhistory : ∀ s, Progress.running (.initial store sink root) = .running s →
      ∃ as, History arena limit (.initial store sink root) s as := by
    intro s hs
    cases hs
    exact ⟨[], .start⟩
  obtain ⟨hall, -, heq | hattained⟩ :=
    peak_of_leads hlinks hsound hstart hleads hhistory (Nat.le_refl 0)
  · exact ⟨⟨_, .refl _, heq.symm⟩, hall⟩
  · exact ⟨hattained, hall⟩

/-- In `((lambda (f) 0 (if #t (f) 1)) (lambda () 2))`, the seventeenth step enters a
procedure in the continuation of the other one. -/
theorem tailCallsExact_initial_if :
    ∃ (arena : Arena) (s s' : State) (as : List Activation) (a : Application),
      History arena none (.initial .initial .accepting 15) s as ∧
        application? arena s = some a ∧ step arena none s = .running s' ∧
        s'.stats.steps = 17 ∧ a.Reuses s s' ∧ a.InTail arena as := by
  let reader : Reader := ⟨[.opening, .opening, .word "lambda", .opening, .word "f", .closing,
    .word "0", .opening, .word "if", .word "#t", .opening, .word "f", .closing, .word "1",
    .closing, .closing, .opening, .word "lambda", .opening, .closing, .word "2", .closing,
    .closing]⟩
  have hgrown : (reader.read {}).arena.Grown := .read reader .empty
  have hroot : 15 < (reader.read {}).arena.size := by decide
  have hexact := tailCallsExact_initial hgrown (Store.inside_initial _) hroot .accepting none
  -- After sixteen steps a procedure is applied, and no continuation is added.
  have hrun : ∃ s a s', (Progress.next (step (reader.read {}).arena none))^[16]
        (.running (.initial .initial .accepting 15)) = .running s ∧
      application? (reader.read {}).arena s = some a ∧
      step (reader.read {}).arena none s = .running s' ∧ s'.stats.steps = 17 ∧
      s'.continuations.size = s.continuations.size :=
    ⟨_, _, _, rfl, rfl, rfl, rfl, rfl⟩
  obtain ⟨s, a, s', hiterate, happ, hstep, hsteps, hsize⟩ := hrun
  have hleads := leads_iterate_next (reader.read {}).arena none 16
    (.running (.initial .initial .accepting 15))
  rw [hiterate] at hleads
  obtain ⟨as, hhistory⟩ := hexact.history hleads
  have hentry := hexact.enters hhistory happ hstep
  have hreuses : a.Reuses s s' := by
    by_contra hnot
    have hpush := congrArg List.length (hentry.pushes hnot)
    rw [List.length_cons, ← Stack.size_eq, ← Stack.size_eq] at hpush
    omega
  exact ⟨_, s, s', as, a, hhistory, happ, hstep, hsteps, hreuses, hentry.reuses_iff.1 hreuses⟩

end StackScheme.Machine
