import StackScheme.Proofs.Machine.Dispatches
import StackScheme.Proofs.Machine.Inside
import StackScheme.Proofs.Machine.Runs
import StackScheme.Proofs.Store.Chains

/-!
# Values of a running machine

Values come from literals, from builtins and from the forms that make procedures.  On the
way through the operand stack and the scopes they do not change, so that what holds of all
new values holds of all values that are around.

* Sources.  `Sourced` is a property that all new values have, and `Stable` one that all of
  them but procedures have.  It may depend on the number of scopes, since the scope of a
  procedure is there when the procedure is made.
* Registers.  `State.Holds` says that all values of a state have the property, and that all
  scopes which are in use are there.  `State.Has` says that a state has a value.
* Steps.  `Carries` says that a stage of a run has it, in a store that has lost nothing.
  There is one lemma for each function of the machine.  A step keeps a stable property if
  the procedure that it makes has it.
* Runs.  `Carries.of_leads` is the invariant for whole runs.
-/

namespace StackScheme.Machine

/-! ## Sources -/

/-- All new values but procedures have the property `P n` when there are `n` scopes. -/
structure Stable (arena : Arena) (P : Nat → Value → Prop) : Prop where
  mono {n m : Nat} {v : Value} (hle : n ≤ m) (h : P n v) : P m v
  plain {n : Nat} {v : Value} (h : v.IsPlain) : P n v
  literal {n : Nat} {id : NodeId} {a : Atom} {next : Option NodeId}
    (h : arena.node? id = some ⟨.atom a, next⟩) : P n (.ofAtom id a)
  scope_lt {n : Nat} {c : Closure} (h : P n (.closure c)) : c.scope < n

/-- All new values have the property `P n` when there are `n` scopes. -/
structure Sourced (arena : Arena) (P : Nat → Value → Prop) : Prop extends Stable arena P where
  closure {n : Nat} {s : State} {m : Making} (h : making? arena s = some m)
    (hscope : m.closure.scope < n) : P n (.closure m.closure)

/-- The value that a form asks for has the property. -/
def FormStep.Holds (P : Value → Prop) : FormStep → Prop
  | .value v | .bind _ v | .assign _ v => P v
  | _ => True

section Sources

variable {arena : Arena} {P : Nat → Value → Prop} (hP : Stable arena P) {n : Nat}
include hP

theorem Stable.passValue {values : List Value} (h : ∀ v ∈ values, P n v) :
    P n (passValue values) := by
  cases values with
  | nil => exact hP.plain trivial
  | cons v vs => exact h v List.mem_cons_self

omit hP in
theorem holds_performIf {t : FormTask} {v : Value} (hv : P n v) :
    (performIf t v).Holds (P n) := by
  rw [performIf]
  split
  · trivial
  · exact hv

theorem Stable.performSequence {t : FormTask} {v : Value} (hv : P n v) :
    (performSequence t v).Holds (P n) := by
  rw [Machine.performSequence]
  split
  · exact hP.plain trivial
  · generalize (if t.form = .andForm then !v.isTruthy else v.isTruthy) = decided
    dsimp only
    split
    · exact hv
    · trivial

/-- What a form asks for comes from the pass, or is a new value. -/
theorem Stable.perform {node : NodeId} {t : FormTask} {values : List Value}
    (hvalues : ∀ v ∈ values, P n v) {next : FormStep}
    (h : perform arena node t values = .ok next) : next.Holds (P n) := by
  have hv := hP.passValue hvalues
  rw [Machine.perform] at h
  cases hform : t.form with
  | ifForm =>
    rw [hform] at h
    exact Except.ok.inj h ▸ holds_performIf hv
  | andForm | orForm =>
    rw [hform] at h
    exact Except.ok.inj h ▸ hP.performSequence hv
  | lambdaForm =>
    simp only [hform, performLambda, malformed] at h
    grind [FormStep.Holds]
  | defineForm =>
    simp only [hform, performDefine, malformed] at h
    grind [FormStep.Holds]
  | setForm =>
    simp only [hform, performSet] at h
    grind [FormStep.Holds]
  | quoteForm =>
    simp only [hform, performQuote] at h
    split at h
    · split at h
      · cases h
      · rename_i hnode
        obtain rfl := Except.ok.inj h
        exact hP.literal hnode
      · obtain rfl := Except.ok.inj h
        exact hP.plain trivial
      · cases h
    · cases h

end Sources

/-! ## Registers -/

/-- All values have the property, and all scopes that are in use are there. -/
structure State.Holds (P : Nat → Value → Prop) (s : State) : Prop where
  nested : s.store.Nested
  bindings : s.store.Holds (P s.store.scopes.size)
  operands {v : Value} (h : v ∈ s.operands.items) : P s.store.scopes.size v
  scope : s.scope < s.store.scopes.size
  caller {k : Continuation} (h : k ∈ s.continuations.items) :
    k.callerScope < s.store.scopes.size

/-- The value lies on the operand stack or is bound in some scope. -/
def State.Has (s : State) (v : Value) : Prop :=
  v ∈ s.operands.items ∨ s.store.Has v

section Registers

variable {arena : Arena} {P : Nat → Value → Prop} {s : State} (h : s.Holds P)
include h

theorem State.Holds.of_has {v : Value} (hv : s.Has v) : P s.store.scopes.size v := by
  rcases hv with hv | hv
  · exact h.operands hv
  · exact h.bindings.of_has hv

/-- An operand is pushed. -/
theorem State.Holds.push {v : Value} (hv : P s.store.scopes.size v) (pc : Option NodeId)
    (frames : Stack Frame) :
    State.Holds P { s with operands := s.operands.push v, frames, pc } where
  nested := h.nested
  bindings := h.bindings
  operands hmem := by
    rcases List.mem_cons.1 hmem with rfl | hmem
    · exact hv
    · exact h.operands hmem
  scope := h.scope
  caller := h.caller

/-- Operands are dropped. -/
theorem State.Holds.withOperands {operands : Stack Value}
    (hsub : ∀ v ∈ operands.items, v ∈ s.operands.items) (frames : Stack Frame) :
    State.Holds P { s with operands, frames } :=
  ⟨h.nested, h.bindings, fun hmem => h.operands (hsub _ hmem), h.scope, h.caller⟩

/-- The store gets another one that has lost no scope. -/
theorem State.Holds.withStore (hP : Stable arena P) {store : Store}
    (hle : s.store.scopes.size ≤ store.scopes.size) (hnested : store.Nested)
    (hbindings : store.Holds (P store.scopes.size)) : State.Holds P { s with store } :=
  ⟨hnested, hbindings, fun hmem => hP.mono hle (h.operands hmem), Nat.lt_of_lt_of_le h.scope hle,
    fun hmem => Nat.lt_of_lt_of_le (h.caller hmem) hle⟩

theorem State.Holds.bind (hP : Stable arena P) (id : ScopeId) (name : String) {v : Value}
    (hv : P s.store.scopes.size v) : State.Holds P { s with store := s.store.bind id name v } := by
  have hsize : (s.store.bind id name v).scopes.size = s.store.scopes.size := Store.size_bind
  refine h.withStore hP (Nat.le_of_eq hsize.symm) h.nested.bind ?_
  rw [hsize]
  exact h.bindings.bind id name hv

/-- A procedure is entered in a new scope inside of its own. -/
theorem State.Holds.enterScope (hP : Stable arena P) {c : Closure}
    (hc : P s.store.scopes.size (.closure c)) {args : List Value}
    (hargs : ∀ v ∈ args, P s.store.scopes.size v) :
    State.Holds P { s with
      scope := s.store.nextScope, store := s.store.extend c.scope (c.parameters.zip args) } := by
  have hsize : (s.store.extend c.scope (c.parameters.zip args)).scopes.size =
      s.store.scopes.size + 1 := Array.size_push _
  have hle : s.store.scopes.size ≤
      (s.store.extend c.scope (c.parameters.zip args)).scopes.size := by
    rw [hsize]
    exact Nat.le_succ _
  have hbindings : (s.store.extend c.scope (c.parameters.zip args)).Holds
      (P (s.store.extend c.scope (c.parameters.zip args)).scopes.size) :=
    Store.Holds.imp (h.bindings.extend c.scope fun b hb => hargs b.2 (List.of_mem_zip hb).2)
      fun v hv => hP.mono hle hv
  have hstore := h.withStore hP hle (h.nested.extend (hP.scope_lt hc) _) hbindings
  refine ⟨hstore.nested, hstore.bindings, hstore.operands, ?_, hstore.caller⟩
  show s.store.scopes.size < _
  rw [hsize]
  exact Nat.lt_succ_self _

end Registers

theorem mem_of_mem_unwind {operands : Stack Value} {count : Nat} {frames : List Frame} {v : Value}
    (h : v ∈ (unwind operands count frames).items) : v ∈ operands.items := by
  induction count generalizing operands frames with
  | zero => exact h
  | succ count ih =>
    cases frames with
    | nil => exact h
    | cons frame frames =>
      cases frame with
      | call f => exact List.mem_of_mem_drop (ih h)
      | _ => exact h

theorem mem_of_pop? {operands rest : Stack Value} {v : Value} (h : operands.pop? = some (v, rest)) :
    v ∈ operands.items ∧ ∀ u ∈ rest.items, u ∈ operands.items := by
  rw [Stack.eq_push_of_pop? h, Stack.items_push]
  exact ⟨List.mem_cons_self, fun u hu => List.mem_cons_of_mem v hu⟩

theorem mem_of_splitOff? {operands rest : Stack Value} {height : Nat} {values : List Value}
    (h : operands.splitOff? height = some (values, rest)) :
    (∀ v ∈ values, v ∈ operands.items) ∧ ∀ v ∈ rest.items, v ∈ operands.items := by
  unfold Stack.splitOff? at h
  split at h
  · simp only [Option.some.injEq, Prod.mk.injEq] at h
    obtain ⟨rfl, rfl⟩ := h
    exact ⟨fun v hv => List.mem_of_mem_take (List.mem_reverse.1 hv),
      fun v hv => List.mem_of_mem_drop hv⟩
  · cases h

/-- Passing over children moves the machine and its innermost frame. -/
theorem exists_of_skipUnwanted {arena : Arena} {s s' : State}
    (h : skipUnwanted arena s = .ok s') : ∃ pc frames, s' = { s with pc, frames } := by
  unfold skipUnwanted at h
  split at h
  · split at h
    · exact ⟨s.pc, s.frames, (Except.ok.inj h).symm⟩
    · split at h
      · exact ⟨_, _, (Except.ok.inj h).symm⟩
      · cases h
  · exact ⟨s.pc, s.frames, (Except.ok.inj h).symm⟩

/-- A procedure is made in the current scope. -/
theorem scope_of_making? {arena : Arena} {s : State} {m : Making}
    (h : making? arena s = some m) : m.closure.scope = s.scope := by
  obtain ⟨d, -, -, -, next, hd, -, -, -, -, hstate, -, hc⟩ := making?_cases h
  have hclosure : m.closure.scope = m.state.scope := by
    cases next with
    | lambda | procedure => exact (Option.some.inj hc) ▸ rfl
    | _ => cases hc
  unfold dispatch? at hd
  split at hd
  · cases hd
  · rename_i s' hskip
    obtain ⟨pc, frames, rfl⟩ := exists_of_skipUnwanted hskip
    split at hd
    · obtain ⟨_, _, rfl⟩ := Option.map_eq_some_iff.1 hd
      rw [hclosure, ← hstate]
      rfl
    · cases hd

/-! ## Steps -/

/-- A stage of a run in which all values have the property, after the store has been
`store`. -/
structure Carries (P : Nat → Value → Prop) (store : Store) (p : Progress) : Prop where
  holds : p.state.Holds P
  grows : store.Grows p.state.store
  outcome {v : Value} {t : State} (h : p = .halted (.ok v) t) : P t.store.scopes.size v

/-- The registers have the value, or it is the outcome of the run. -/
def Progress.Has (p : Progress) (v : Value) : Prop :=
  p.state.Has v ∨ ∃ t, p = .halted (.ok v) t

theorem Carries.of_has {P : Nat → Value → Prop} {store : Store} {p : Progress}
    (h : Carries P store p) {v : Value} (hv : p.Has v) : P p.state.store.scopes.size v := by
  rcases hv with hv | ⟨t, rfl⟩
  · exact h.holds.of_has hv
  · exact h.outcome rfl

theorem Carries.imp {P Q : Nat → Value → Prop} {store : Store} {p : Progress}
    (h : Carries P store p) (hPQ : ∀ n v, P n v → Q n v) : Carries Q store p :=
  ⟨⟨h.holds.nested, h.holds.bindings.imp (hPQ _), fun hmem => hPQ _ _ (h.holds.operands hmem),
    h.holds.scope, h.holds.caller⟩, h.grows, fun heq => hPQ _ _ (h.outcome heq)⟩

section Steps

variable {arena : Arena} {P : Nat → Value → Prop} (hP : Stable arena P) {limit : Option Nat}
  {store : Store} {s : State} (h : s.Holds P) (hgrows : store.Grows s.store)
include h hgrows

omit hP in
theorem carries_running : Carries P store (.running s) :=
  ⟨h, hgrows, fun heq => by cases heq⟩

theorem carries_fail (e : Error) : Carries P store (s.fail e) :=
  ⟨h, hgrows, fun heq => by cases heq⟩

theorem carries_crash (fault : Fault) : Carries P store (s.crash fault) :=
  carries_fail h hgrows _

theorem carries_deliver (node : NodeId) {v : Value} (hv : P s.store.scopes.size v) :
    Carries P store (deliver arena node v s) := by
  unfold deliver
  split
  · split
    · exact carries_crash h hgrows _
    · split
      · split
        · exact carries_fail h hgrows _
        · exact carries_running (h.push hv _ _) hgrows
      · exact carries_running (h.push hv _ _) hgrows
  · exact carries_running (h.push hv none s.frames) hgrows

include hP

theorem carries_enter (node : NodeId) : Carries P store (enter arena limit node s) := by
  unfold enter
  split
  · exact carries_crash h hgrows _
  · split
    · exact carries_deliver h hgrows node (h.bindings.lookup? ‹_›)
    · exact carries_fail h hgrows _
  · exact carries_deliver h hgrows node (hP.literal ‹_›)
  · exact carries_deliver h hgrows node (hP.plain trivial)
  · split
    · exact carries_fail h hgrows _
    · exact carries_running ⟨h.nested, h.bindings, h.operands, h.scope, h.caller⟩ hgrows

/-! ### Procedures and builtins -/

theorem carries_tailCall {c : Closure} (hc : P s.store.scopes.size (.closure c))
    {args : List Value} (hargs : ∀ v ∈ args, P s.store.scopes.size v) :
    Carries P store (tailCall c args s) := by
  have hentered := h.enterScope hP hc hargs
  unfold tailCall
  split
  · exact carries_crash h hgrows _
  · rename_i k continuations hpop
    have hitems : s.continuations.items = k :: continuations.items := by
      rw [Stack.eq_push_of_pop? hpop, Stack.items_push]
    refine carries_running ⟨hentered.nested, hentered.bindings,
      fun hmem => hentered.operands (mem_of_mem_unwind hmem), hentered.scope, fun hmem => ?_⟩
      (hgrows.trans (Store.grows_extend _ _ _))
    have hcallers : ∀ k' ∈ k :: continuations.items,
        k'.callerScope < (s.store.extend c.scope (c.parameters.zip args)).scopes.size :=
      fun k' hmem => hentered.caller (hitems ▸ hmem)
    rw [List.forall_mem_cons] at hcallers
    rcases List.mem_cons.1 hmem with rfl | hmem
    · exact hcallers.1
    · exact hcallers.2 _ hmem

theorem carries_nestedCall (node : NodeId) {c : Closure}
    (hc : P s.store.scopes.size (.closure c)) {args : List Value}
    (hargs : ∀ v ∈ args, P s.store.scopes.size v) :
    Carries P store (nestedCall node c args s) := by
  have hentered := h.enterScope hP hc hargs
  refine carries_running ⟨hentered.nested, hentered.bindings, hentered.operands, hentered.scope,
    fun hmem => ?_⟩ (hgrows.trans (Store.grows_extend _ _ _))
  rcases List.mem_cons.1 hmem with rfl | hmem
  · exact Nat.lt_of_lt_of_le h.scope (Store.grows_extend s.store c.scope _).size_le
  · exact hentered.caller hmem

theorem carries_apply (node : NodeId) {c : Closure} (hc : P s.store.scopes.size (.closure c))
    {args : List Value} (hargs : ∀ v ∈ args, P s.store.scopes.size v) :
    Carries P store (apply limit node c args s) := by
  unfold apply
  split
  · exact carries_fail h hgrows _
  · split
    · exact carries_tailCall hP h hgrows hc hargs
    · split
      · exact carries_fail h hgrows _
      · exact carries_nestedCall hP h hgrows node hc hargs

theorem carries_callBuiltin (node : NodeId) (b : Builtin) (args : List Value) :
    Carries P store (callBuiltin arena node b args s) := by
  have hreply := b.computes_call args
  unfold callBuiltin
  split
  · exact carries_fail h hgrows _
  · rename_i v hcall
    rw [hcall] at hreply
    exact carries_deliver h hgrows node (hP.plain hreply)
  · unfold writeText
    split
    · rename_i sink _
      exact carries_deliver (s := { s with sink })
        ⟨h.nested, h.bindings, h.operands, h.scope, h.caller⟩ hgrows node (hP.plain trivial)
    · rename_i reason sink _
      exact carries_fail (s := { s with sink })
        ⟨h.nested, h.bindings, h.operands, h.scope, h.caller⟩ hgrows _

/-! ### Special forms -/

theorem carries_performStep (f : CallFrame) (form : SpecialForm) {t : FormTask}
    {values : List Value} (hvalues : ∀ v ∈ values, P s.store.scopes.size v) {next : FormStep}
    (hnext : perform arena f.node t values = .ok next)
    (hmade : ∀ c, next.closure? s = some c → P s.store.scopes.size (.closure c)) :
    Carries P store (performStep arena f form next s) := by
  have hholds := hP.perform hvalues hnext
  have hserial : State.Holds P { s with store := s.store.newSerial } :=
    ⟨h.nested.newSerial, h.bindings, h.operands, h.scope, h.caller⟩
  have hunspecified (n : Nat) : P n .unspecified := hP.plain trivial
  unfold performStep
  split
  · exact carries_deliver h hgrows f.node hholds
  · rename_i name v
    exact carries_deliver (h.bind hP s.scope name hholds)
      (hgrows.trans (Store.grows_bind _ _ _ _)) f.node (hunspecified _)
  · rename_i name v
    split
    · rename_i holder _
      exact carries_deliver (h.bind hP holder name hholds)
        (hgrows.trans (Store.grows_bind _ _ _ _)) f.node (hunspecified _)
    · exact carries_fail h hgrows _
  · exact carries_deliver hserial hgrows f.node (hmade _ rfl)
  · rename_i name parameters first rest
    exact carries_deliver (hserial.bind hP s.scope name (hmade _ rfl))
      (hgrows.trans (Store.grows_bind _ _ _ _)) f.node (hunspecified _)
  · have hform : P s.store.scopes.size (.special form) := hP.plain trivial
    exact carries_running (h.push hform _ _) hgrows

theorem carries_dispatch (f : CallFrame) {values : List Value}
    (hvalues : ∀ v ∈ values, P s.store.scopes.size v)
    (hmade : ∀ m, Dispatch.making? arena ⟨f, values, s⟩ = some m →
      P s.store.scopes.size (.closure m.closure)) :
    Carries P store (dispatch arena limit f values s) := by
  unfold dispatch
  split
  · exact carries_crash h hgrows _
  · exact carries_callBuiltin hP h hgrows f.node _ _
  · rename_i form args
    rw [List.forall_mem_cons] at hvalues
    unfold callForm
    split
    · exact carries_crash h hgrows _
    · rename_i t htask
      split
      · exact carries_fail h hgrows _
      · rename_i next hnext
        refine carries_performStep hP h hgrows f form hvalues.2 hnext fun c hc => ?_
        refine hmade { node := f.node, form := t.form, closure := c, state := s } ?_
        simp only [Dispatch.making?, htask, hnext, hc, Option.map_some]
  · rw [List.forall_mem_cons] at hvalues
    exact carries_apply hP h hgrows f.node hvalues.1 hvalues.2
  · exact carries_fail h hgrows _

/-! ### Ends of frames -/

omit hP in
theorem carries_leaveBody {v : Value} (hv : P s.store.scopes.size v) :
    Carries P store (leaveBody arena v s) := by
  unfold leaveBody
  split
  · exact carries_crash h hgrows _
  · rename_i k continuations hpop
    have hitems : s.continuations.items = k :: continuations.items := by
      rw [Stack.eq_push_of_pop? hpop, Stack.items_push]
    have hcallers : ∀ k' ∈ k :: continuations.items, k'.callerScope < s.store.scopes.size :=
      fun k' hmem => h.caller (hitems ▸ hmem)
    rw [List.forall_mem_cons] at hcallers
    split
    · refine carries_running ⟨h.nested, h.bindings, h.operands, h.scope, fun hmem => ?_⟩ hgrows
      rcases List.mem_cons.1 hmem with rfl | hmem
      · exact hcallers.1
      · exact hcallers.2 _ hmem
    · exact carries_deliver (s := { s with scope := k.callerScope, continuations })
        ⟨h.nested, h.bindings, h.operands, hcallers.1, fun hmem => hcallers.2 _ hmem⟩ hgrows
        k.returnNode hv

theorem carries_reduce
    (hmade : ∀ f frames values operands, s.frames.pop? = some (.call f, frames) →
      s.operands.splitOff? f.base = some (values, operands) →
      ∀ m, Dispatch.making? arena ⟨f, values, { s with frames, operands }⟩ = some m →
        P s.store.scopes.size (.closure m.closure)) :
    Carries P store (reduce arena limit s) := by
  unfold reduce
  split
  · exact carries_crash h hgrows _
  · split
    · exact carries_crash h hgrows _
    · rename_i frames _ _ v operands hpop
      obtain ⟨hv, hsub⟩ := mem_of_pop? hpop
      refine ⟨h.withOperands hsub frames, hgrows, fun heq => ?_⟩
      cases heq
      exact h.operands hv
  · split
    · exact carries_crash h hgrows _
    · rename_i frames _ _ v operands hpop
      obtain ⟨hv, hsub⟩ := mem_of_pop? hpop
      split
      · exact carries_leaveBody (h.withOperands hsub frames) hgrows (h.operands hv)
      · exact carries_crash h hgrows _
  · rename_i f frames hpop
    split
    · exact carries_crash h hgrows _
    · rename_i values operands hsplit
      obtain ⟨hvalues, hsub⟩ := mem_of_splitOff? hsplit
      exact carries_dispatch hP (h.withOperands hsub frames) hgrows f
        (fun v hv => h.operands (hvalues v hv)) (hmade _ _ _ _ hpop hsplit)

/-- A step keeps the property if the procedure that it makes has it, and the store loses
nothing. -/
theorem carries_step
    (hmade : ∀ m, making? arena s = some m → P s.store.scopes.size (.closure m.closure)) :
    Carries P store (step arena limit s) := by
  have htick : State.Holds P (tick s) :=
    ⟨h.nested, h.bindings, h.operands, h.scope, h.caller⟩
  unfold step
  dsimp only
  cases hskip : skipUnwanted arena (tick s) with
  | error fault => exact carries_crash htick hgrows fault
  | ok s' =>
    obtain ⟨pc, frames, rfl⟩ := exists_of_skipUnwanted hskip
    have hskipped : State.Holds P { tick s with pc, frames } :=
      ⟨h.nested, h.bindings, h.operands, h.scope, h.caller⟩
    cases pc with
    | some node => exact carries_enter hP hskipped hgrows node
    | none =>
      refine carries_reduce hP hskipped hgrows fun f frames' values operands hpop hsplit m hm => ?_
      refine hmade m ?_
      simp only [making?, dispatch?, hskip, hpop, hsplit, Option.map_some, Option.bind_some, hm]

end Steps

/-! ## Runs -/

section Runs

variable {arena : Arena} {P : Nat → Value → Prop} (hP : Sourced arena P) {limit : Option Nat}
include hP

/-- All values at a later stage of a run have the property. -/
theorem Carries.of_leads {store : Store} {p q : Progress} (h : Carries P store p)
    (hleads : Leads arena limit p q) : Carries P store q := by
  induction hleads with
  | refl => exact h
  | step _ ih =>
    refine ih (carries_step hP.toStable h.holds h.grows fun m hm => hP.closure hm ?_)
    rw [scope_of_making? hm]
    exact h.holds.scope

omit hP in
/-- All values have the property at the start of a run. -/
theorem carries_initial {store : Store} (hnested : store.Nested)
    (hbindings : store.Holds (P store.scopes.size)) (sink : Sink) (root : NodeId) :
    Carries P store (.running (.initial store sink root)) := by
  have hholds : State.Holds P (.initial store sink root) :=
    ⟨hnested, hbindings, fun hmem => absurd hmem List.not_mem_nil, hnested.size_pos,
      fun hmem => absurd hmem List.not_mem_nil⟩
  exact carries_running hholds (.refl store)

end Runs

end StackScheme.Machine
