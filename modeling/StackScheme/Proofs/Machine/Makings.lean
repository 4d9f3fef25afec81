import StackScheme.Proofs.Machine.Values
import StackScheme.Proofs.Reader.Growth

/-!
# Procedures that were made

A procedure is made by a form: by `lambda`, or by `define` with a signature.  What the
procedure needs later is settled by then, since the shape of the form was checked before
and the arena only grows.

* Forms.  `Closure.WrittenAt` says how a procedure is written as a form, and
  `Making.WellFormed` is what a procedure has from the form that makes it.
  `wellFormed_of_making?` says that every procedure has it.  That there is a body is checked
  first of all, in `prepare`: see `exists_operands_of_prepare`.
* Arguments.  `BindsArguments` says that the parameters of a procedure get the
  arguments in order.  It rests on the parameters being distinct.
* Records.  `Makes` is the record of the procedures that a run has made so far.
  `Makes.carries` says that all procedures that are around stand in the record.
-/

namespace StackScheme

/-! ## Forms -/

/-- The procedure is written as a form at a node.  Its body are the operands behind the first
one, which has the parameters: alone after `lambda`, and behind the name after `define`. -/
def Closure.WrittenAt (arena : Arena) (c : Closure) (node : NodeId) : SpecialForm → Prop
  | .lambdaForm =>
    c.name = none ∧ ∃ formals, arena.operands node = formals :: c.body ∧
      (arena.children formals).map arena.symbol? = c.parameters.map some
  | .defineForm =>
    ∃ name signature, c.name = some name ∧ arena.operands node = signature :: c.body ∧
      (arena.children signature).map arena.symbol? = some name :: c.parameters.map some
  | _ => False

namespace Arena

variable {arena arena' : Arena}

theorem Extends.operands (h : arena.Extends arena') {id : Nat} (hid : id < arena.size) :
    arena'.operands id = arena.operands id :=
  congrArg List.tail (h.children hid)

/-- The items of a list are written as before. -/
theorem Extends.map_symbol? (h : arena.Extends arena') (hlinks : arena.WellLinked) {id : Nat}
    (hid : id < arena.size) :
    (arena'.children id).map arena'.symbol? = (arena.children id).map arena.symbol? := by
  rw [h.children hid]
  refine List.map_congr_left fun child hchild => ?_
  unfold symbol?
  rw [h.node? (lt_size_of_mem_children hlinks hchild)]

/-- Only nodes of the arena have operands. -/
theorem lt_size_of_operands_eq_cons {id operand : Nat} {rest : List NodeId}
    (h : arena.operands id = operand :: rest) : id < arena.size := by
  unfold operands children at h
  split at h
  · exact lt_size_of_node?_eq_some ‹_›
  · cases h

end Arena

theorem Closure.WrittenAt.extends {arena arena' : Arena} (hextends : arena.Extends arena')
    (hlinks : arena.WellLinked) {c : Closure} {node : NodeId} {form : SpecialForm}
    (h : c.WrittenAt arena node form) : c.WrittenAt arena' node form := by
  have hfirst : ∀ first, arena.operands node = first :: c.body →
      arena'.operands node = first :: c.body ∧
        (arena'.children first).map arena'.symbol? = (arena.children first).map arena.symbol? := by
    intro first hoperands
    have hmem : first ∈ arena.operands node := hoperands ▸ List.mem_cons_self
    have hlt := Arena.lt_size_of_mem_operands hlinks hmem
    rw [hextends.operands (Arena.lt_size_of_operands_eq_cons hoperands)]
    exact ⟨hoperands, hextends.map_symbol? hlinks hlt⟩
  cases form with
  | lambdaForm =>
    obtain ⟨hname, formals, hoperands, hparameters⟩ := h
    obtain ⟨hoperands', hsymbols⟩ := hfirst formals hoperands
    exact ⟨hname, formals, hoperands', hsymbols.trans hparameters⟩
  | defineForm =>
    obtain ⟨name, signature, hname, hoperands, hparameters⟩ := h
    obtain ⟨hoperands', hsymbols⟩ := hfirst signature hoperands
    exact ⟨name, signature, hname, hoperands', hsymbols.trans hparameters⟩
  | _ => exact h

namespace Machine

/-- What a procedure has from the form that makes it. -/
structure Making.WellFormed (arena : Arena) (m : Making) : Prop where
  written : m.closure.WrittenAt arena m.node m.form
  distinct : m.closure.parameters.Nodup
  inside : m.closure.Inside arena.size
  scope : m.closure.scope = m.state.scope

theorem Making.WellFormed.extends {arena arena' : Arena} (hextends : arena.Extends arena')
    (hlinks : arena.WellLinked) {m : Making} (h : m.WellFormed arena) : m.WellFormed arena' :=
  ⟨h.written.extends hextends hlinks, h.distinct,
    Value.Inside.mono (v := .closure m.closure) h.inside hextends.size_le, h.scope⟩

theorem map_eq_of_mapM_eq_some {α β : Type} {f : α → Option β} {as : List α} {bs : List β}
    (h : as.mapM f = some bs) : as.map f = bs.map some := by
  induction as generalizing bs with
  | nil =>
    rw [List.mapM_nil] at h
    obtain rfl : [] = bs := Option.some.inj h
    rfl
  | cons a as ih =>
    rw [List.mapM_cons] at h
    obtain ⟨b, hb, h⟩ := Option.bind_eq_some_iff.1 h
    obtain ⟨bs', hbs, h⟩ := Option.bind_eq_some_iff.1 h
    obtain rfl := Option.some.inj h
    rw [List.map_cons, List.map_cons, hb, ih hbs]

/-- Parameters are distinct symbols. -/
theorem of_parameters?_eq_some {arena : Arena} {ids : List NodeId} {names : List String}
    (h : parameters? arena ids = some names) :
    ids.map arena.symbol? = names.map some ∧ names.Nodup := by
  unfold parameters? at h
  split at h
  · rename_i names' hnames
    split at h
    · rename_i hnodup
      obtain rfl := Option.some.inj h
      exact ⟨map_eq_of_mapM_eq_some hnames, hnodup⟩
    · cases h
  · cases h

/-- Every procedure that is made is well formed. -/
theorem wellFormed_of_making? {arena : Arena} (hlinks : arena.WellLinked) {s : State}
    {m : Making} (h : making? arena s = some m) : m.WellFormed arena := by
  obtain ⟨d, -, args, t, next, -, -, -, -, hform, -, hnext, hc⟩ := making?_cases h
  have hinside : ∀ first, arena.operands m.node = first :: m.closure.body →
      m.closure.Inside arena.size := by
    intro first hoperands
    have hmem : ∀ node ∈ m.closure.body, node < arena.size := fun node hnode =>
      Arena.lt_size_of_mem_operands hlinks (hoperands ▸ List.mem_cons_of_mem first hnode)
    exact List.forall_mem_cons.1 hmem
  rcases perform_cases_of_closure? hnext hc with ⟨hlambda, hperform⟩ | ⟨hdefine, hperform⟩
  · obtain ⟨formals, parameters, first, rest, rfl, hoperands, hparameters⟩ :=
      exists_of_performLambda hperform
    obtain ⟨hsymbols, hnodup⟩ := of_parameters?_eq_some hparameters
    have hclosure := Option.some.inj hc
    refine ⟨?_, hclosure ▸ hnodup, hinside formals (hclosure ▸ hoperands), hclosure ▸ rfl⟩
    rw [← hform, hlambda, ← hclosure]
    exact ⟨rfl, formals, hoperands, hsymbols⟩
  · obtain ⟨signature, nameNode, formals, name, parameters, first, rest, rfl, hoperands,
      hchildren, hname, hparameters⟩ := exists_of_performDefine hperform hc
    obtain ⟨hsymbols, hnodup⟩ := of_parameters?_eq_some hparameters
    have hclosure := Option.some.inj hc
    refine ⟨?_, hclosure ▸ hnodup, hinside signature (hclosure ▸ hoperands), hclosure ▸ rfl⟩
    rw [← hform, hdefine, ← hclosure]
    refine ⟨name, signature, rfl, hoperands, ?_⟩
    rw [hchildren, List.map_cons, hname, hsymbols]
    rfl

/-! ## Arguments -/

/-- Applied to as many arguments as it has parameters, the procedure is entered at its first
expression, in a scope where each parameter has the argument at its own position, unless the
machine is at its limit. -/
def BindsArguments (c : Closure) : Prop :=
  ∀ (limit : Option Nat) (node : NodeId) (args : List Value) (s : State),
    args.length = c.parameters.length →
      (∃ s', apply limit node c args s = .running s' ∧ s'.pc = some c.first ∧
        ∀ (i : Nat) (name : String), c.parameters[i]? = some name →
          s'.store.lookup? s'.scope name = args[i]?) ∨
      ∃ l, s.reachedLimit? limit = some l ∧ apply limit node c args s = s.fail (.tooDeep l)

/-- Distinct names find the values at their own positions. -/
theorem find?_zip {names : List String} (hnodup : names.Nodup) {args : List Value}
    (hlen : args.length = names.length) {i : Nat} {name : String} (h : names[i]? = some name) :
    Scope.find? name (names.zip args) = args[i]? := by
  induction names generalizing args i with
  | nil => simp at h
  | cons n names ih =>
    cases args with
    | nil => simp at hlen
    | cons v args =>
      obtain ⟨hn, hnodup⟩ := List.nodup_cons.1 hnodup
      cases i with
      | zero =>
        obtain rfl := Option.some.inj h
        simp [Scope.find?]
      | succ i =>
        have hrest : names[i]? = some name := h
        have hne : n ≠ name := by
          rintro rfl
          exact hn (List.mem_of_getElem? hrest)
        rw [List.zip_cons_cons, Scope.find?, if_neg hne, List.getElem?_cons_succ]
        exact ih hnodup (Nat.succ.inj hlen) hrest

/-- A name that a new scope binds is found there. -/
theorem lookup?_extend (store : Store) (parent : ScopeId) {bindings : List (String × Value)}
    {name : String} {v : Value} (h : Scope.find? name bindings = some v) :
    (store.extend parent bindings).lookup? store.nextScope name = some v := by
  have hscope : (store.extend parent bindings).scopes[store.nextScope]? =
      some { bindings, parent := some parent } := Array.getElem?_push_size
  rw [Store.lookup?, Store.lookupFrom, hscope]
  simp only [Scope.get?, h]

theorem bindsArguments_of_nodup {c : Closure} (h : c.parameters.Nodup) : BindsArguments c := by
  intro limit node args s hlen
  have hfound : ∀ (i : Nat) (name : String), c.parameters[i]? = some name →
      (s.store.extend c.scope (c.parameters.zip args)).lookup? s.store.nextScope name =
        args[i]? := by
    intro i name hname
    have hlt : i < args.length := hlen ▸ (List.getElem?_eq_some_iff.1 hname).1
    have hfind := find?_zip h hlen hname
    rw [List.getElem?_eq_getElem hlt] at hfind ⊢
    exact lookup?_extend s.store c.scope hfind
  rw [apply, if_neg (not_not_intro hlen)]
  cases htail : s.inTailPosition with
  | true =>
    rw [if_pos rfl, tailCall]
    cases hpop : s.continuations.pop? with
    | none =>
      have htop : s.continuations.top? = none := by
        rcases hstack : s.continuations with ⟨_ | ⟨k, items⟩, size, hsize⟩
        · rfl
        · rw [hstack] at hpop
          cases hpop
      rw [State.inTailPosition, htop] at htail
      cases htail
    | some found => exact .inl ⟨_, rfl, rfl, hfound⟩
  | false =>
    rw [if_neg Bool.false_ne_true]
    cases hlimit : s.reachedLimit? limit with
    | some l => exact .inr ⟨l, rfl, rfl⟩
    | none => exact .inl ⟨_, rfl, rfl, hfound⟩

/-! ## Records -/

/-- The record of the procedures that a run has made, up to a stage. -/
inductive Makes (arena : Arena) (limit : Option Nat) (first : State) :
    Progress → List Making → Prop
  | start : Makes arena limit first (.running first) []
  | step {s : State} {ms : List Making} (h : Makes arena limit first (.running s) ms) :
    Makes arena limit first (step arena limit s) (ms ++ (making? arena s).toList)

/-- A procedure stands in the record and is well formed, and its scope is one of the first
`n` scopes. -/
def Recorded (arena : Arena) (ms : List Making) (n : Nat) : Value → Prop
  | .closure c => c.scope < n ∧ ∃ m ∈ ms, m.closure = c ∧ m.WellFormed arena
  | _ => True

theorem stable_recorded (arena : Arena) (ms : List Making) : Stable arena (Recorded arena ms) where
  mono {n m v} hle h := by
    cases v with
    | closure c => exact ⟨Nat.lt_of_lt_of_le h.1 hle, h.2⟩
    | _ => trivial
  plain {n v} h := by
    cases v with
    | closure c => exact h.elim
    | _ => trivial
  literal {n id a next} _ := by
    cases a <;> trivial
  scope_lt h := h.1

/-- Records may get longer, and arenas greater. -/
theorem Recorded.extends {arena arena' : Arena} (hextends : arena.Extends arena')
    (hlinks : arena.WellLinked) {ms ms' : List Making} (hsub : ∀ m ∈ ms, m ∈ ms') {n : Nat}
    {v : Value} (h : Recorded arena ms n v) : Recorded arena' ms' n v := by
  cases v with
  | closure c =>
    obtain ⟨hscope, m, hm, hclosure, hformed⟩ := h
    exact ⟨hscope, m, hsub m hm, hclosure, hformed.extends hextends hlinks⟩
  | _ => trivial

section Records

variable {arena : Arena} {limit : Option Nat} {first : State}

theorem Makes.leads {p : Progress} {ms : List Making} (h : Makes arena limit first p ms) :
    Leads arena limit (.running first) p := by
  induction h with
  | start => exact .refl _
  | step _ ih => exact ih.trans (.step (.refl _))

theorem Makes.exists_of_leads {p q : Progress} {ms : List Making}
    (h : Makes arena limit first p ms) (hleads : Leads arena limit p q) :
    ∃ ms', Makes arena limit first q ms' := by
  induction hleads generalizing ms with
  | refl => exact ⟨ms, h⟩
  | step _ ih => exact ih h.step

/-- Every stage of a run has its record. -/
theorem exists_makes {p : Progress} (h : Leads arena limit (.running first) p) :
    ∃ ms, Makes arena limit first p ms :=
  Makes.start.exists_of_leads h

/-- All procedures that are around stand in the record, behind those from before the run. -/
theorem Makes.carries (hlinks : arena.WellLinked) {store : Store} {before ms : List Making}
    (hfirst : Carries (Recorded arena before) store (.running first)) {p : Progress}
    (h : Makes arena limit first p ms) : Carries (Recorded arena (before ++ ms)) store p := by
  induction h with
  | start => rwa [List.append_nil]
  | @step s ms h ih =>
    have hlater : Carries (Recorded arena (before ++ (ms ++ (making? arena s).toList))) store
        (.running s) :=
      ih.imp fun n v hv => hv.extends (.refl arena) hlinks fun m hm => by
        rw [← List.append_assoc]
        exact List.mem_append_left _ hm
    refine carries_step (stable_recorded arena _) hlater.holds hlater.grows fun m hm => ?_
    have hmem : m ∈ before ++ (ms ++ (making? arena s).toList) := by
      simp [hm]
    refine ⟨?_, m, hmem, rfl, wellFormed_of_making? hlinks hm⟩
    rw [scope_of_making? hm]
    exact hlater.holds.scope

end Records

end Machine

end StackScheme
