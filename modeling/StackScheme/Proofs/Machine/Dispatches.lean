import StackScheme.Machine.Step

/-!
# Ends of combinations

A step of the machine may end a combination.  Then the values of the combination are
taken off the operand stack, and the operator is applied.  If it is a special form, the
step may make a procedure.

* Ends.  `dispatch?` is the combination that the next step ends, and
  `step_eq_of_dispatch?` says what the step comes to.
* Procedures.  `making?` is the procedure that the next step makes, with the form that
  makes it and the registers at that time.  `making?_cases` says what the form asked for,
  and `step_eq_of_making?` what becomes of the procedure.
-/

namespace StackScheme.Machine

/-! ## Ends -/

/-- A combination that is at its end. -/
structure Dispatch where
  frame : CallFrame
  /-- The value of the operator and the values of the operands after it. -/
  values : List Value
  /-- The registers when the frame and the values are gone. -/
  state : State

/-- The combination that the next step ends, if it ends one. -/
def dispatch? (arena : Arena) (s : State) : Option Dispatch :=
  match skipUnwanted arena (tick s) with
  | .error _ => none
  | .ok s =>
    match s.pc, s.frames.pop? with
    | none, some (.call frame, frames) =>
      (s.operands.splitOff? frame.base).map fun (values, operands) =>
        { frame, values, state := { s with frames, operands } }
    | _, _ => none

/-- The operator of a combination that ends is applied to the operands. -/
theorem step_eq_of_dispatch? {arena : Arena} {s : State} {d : Dispatch}
    (h : dispatch? arena s = some d) (limit : Option Nat) :
    step arena limit s = dispatch arena limit d.frame d.values d.state := by
  rw [dispatch?] at h
  rw [step]
  cases hskip : skipUnwanted arena (tick s) with
  | error fault =>
    rw [hskip] at h
    cases h
  | ok s' =>
    rw [hskip] at h
    dsimp only at h ⊢
    split at h
    · rename_i frame frames hpc hpop
      obtain ⟨⟨values, operands⟩, hsplit, rfl⟩ := Option.map_eq_some_iff.1 h
      simp only [hpc, reduce, hpop, hsplit]
    · cases h

/-! ## Procedures -/

/-- A special form that makes a procedure. -/
structure Making where
  node : NodeId
  form : SpecialForm
  closure : Closure
  /-- The registers when the form is performed. -/
  state : State

/-- The procedure that a form asks for. -/
def FormStep.closure? (s : State) : FormStep → Option Closure
  | .lambda parameters first rest => some (newClosure s none parameters first rest)
  | .procedure name parameters first rest => some (newClosure s (some name) parameters first rest)
  | _ => none

/-- The procedure that is made at the end of a combination. -/
def Dispatch.making? (arena : Arena) (d : Dispatch) : Option Making :=
  match d.values, d.frame.task with
  | .special _ :: args, .form t =>
    match perform arena d.frame.node t args with
    | .ok next =>
      (next.closure? d.state).map fun closure =>
        { node := d.frame.node, form := t.form, closure, state := d.state }
    | .error _ => none
  | _, _ => none

/-- The procedure that the next step makes, if it makes one. -/
def making? (arena : Arena) (s : State) : Option Making :=
  (dispatch? arena s).bind (Dispatch.making? arena)

section Procedures

variable {arena : Arena} {s : State} {m : Making}

/-- Only `lambda` and `define` make procedures. -/
theorem perform_cases_of_closure? {node : NodeId} {t : FormTask} {values : List Value}
    {next : FormStep} (h : perform arena node t values = .ok next) {c : Closure}
    (hc : next.closure? s = some c) :
    t.form = .lambdaForm ∧ performLambda arena node = .ok next ∨
      t.form = .defineForm ∧ performDefine arena node (passValue values) = .ok next := by
  rw [perform] at h
  cases hform : t.form with
  | lambdaForm =>
    rw [hform] at h
    exact .inl ⟨rfl, h⟩
  | defineForm =>
    rw [hform] at h
    exact .inr ⟨rfl, h⟩
  | ifForm =>
    simp only [hform, performIf] at h
    grind [FormStep.closure?]
  | andForm | orForm =>
    simp only [hform, performSequence] at h
    grind [FormStep.closure?]
  | setForm =>
    simp only [hform, performSet] at h
    grind [FormStep.closure?]
  | quoteForm =>
    simp only [hform, performQuote] at h
    grind [FormStep.closure?]

/-- A procedure that is made is what a form asked for at the end of its pass. -/
theorem making?_cases (h : making? arena s = some m) :
    ∃ d form args t next, dispatch? arena s = some d ∧ d.values = .special form :: args ∧
      d.frame.node = m.node ∧ d.frame.task = .form t ∧ t.form = m.form ∧ d.state = m.state ∧
      perform arena m.node t args = .ok next ∧ next.closure? m.state = some m.closure := by
  obtain ⟨d, hd, h⟩ := Option.bind_eq_some_iff.1 h
  unfold Dispatch.making? at h
  split at h
  · rename_i form args t hvalues htask
    split at h
    · rename_i next hnext
      obtain ⟨c, hc, rfl⟩ := Option.map_eq_some_iff.1 h
      exact ⟨d, form, args, t, next, hd, hvalues, rfl, htask, rfl, rfl, hnext, hc⟩
    · cases h
  · cases h

/-- `lambda` asks for nothing but procedures without a name. -/
theorem exists_of_performLambda {node : NodeId} {next : FormStep}
    (h : performLambda arena node = .ok next) :
    ∃ formals parameters first rest, next = .lambda parameters first rest ∧
      arena.operands node = formals :: first :: rest ∧
      parameters? arena (arena.children formals) = some parameters := by
  unfold performLambda at h
  split at h
  · rename_i formals first rest hoperands
    split at h
    · cases h
    · cases h
    · split at h
      · rename_i names hnames
        obtain rfl := Except.ok.inj h
        exact ⟨formals, names, first, rest, rfl, hoperands, hnames⟩
      · cases h
  · cases h

/-- `define` asks for a procedure under the first name of its signature. -/
theorem exists_of_performDefine {node : NodeId} {v : Value} {next : FormStep}
    (h : performDefine arena node v = .ok next) {c : Closure} (hc : next.closure? s = some c) :
    ∃ target nameNode formals name parameters first rest,
      next = .procedure name parameters first rest ∧
      arena.operands node = target :: first :: rest ∧
      arena.children target = nameNode :: formals ∧ arena.symbol? nameNode = some name ∧
      parameters? arena formals = some parameters := by
  unfold performDefine at h
  split at h
  · rename_i target first rest hoperands
    split at h
    · obtain rfl := Except.ok.inj h
      cases hc
    · split at h
      · cases h
      · rename_i nameNode formals hchildren
        split at h
        · rename_i name names hname hnames
          obtain rfl := Except.ok.inj h
          exact ⟨target, nameNode, formals, name, names, first, rest, rfl, hoperands, hchildren,
            hname, hnames⟩
        · cases h
  · cases h

/-- A procedure without a name is the value of its form, and a procedure with a name is
bound to it in the current scope. -/
theorem step_eq_of_making? (h : making? arena s = some m) (limit : Option Nat) :
    step arena limit s =
      match m.closure.name with
      | none =>
        deliver arena m.node (.closure m.closure)
          { m.state with store := m.state.store.newSerial }
      | some name =>
        deliver arena m.node .unspecified
          { m.state with
            store := m.state.store.newSerial.bind m.state.scope name (.closure m.closure) } := by
  obtain ⟨d, form, args, t, next, hd, hvalues, hnode, htask, -, hstate, hnext, hc⟩ :=
    making?_cases h
  have hstep : step arena limit s = performStep arena d.frame form next m.state := by
    rw [step_eq_of_dispatch? hd, hvalues, dispatch, callForm, htask]
    simp only [hnode, hstate, hnext]
  rw [hstep]
  cases next with
  | lambda parameters first rest =>
    rw [← Option.some.inj hc]
    simp only [performStep, newClosure, hnode]
  | procedure name parameters first rest =>
    rw [← Option.some.inj hc]
    simp only [performStep, newClosure, hnode]
  | _ => cases hc

end Procedures

end StackScheme.Machine
