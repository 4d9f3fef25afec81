import Mathlib.Data.List.Basic
import StackScheme.Proofs.Machine.Simulation

/-!
# Special forms of the machine

What a special form does in its passes is what the evaluator does with its
operands.  There is one lemma for each function of the evaluator, and
`simulates_evalForm` puts them together.

* `FormStep.meaning` is what the evaluator does for a form that has evaluated its
  operands.
* A form of the wrong shape fails before any operand is evaluated.
-/

namespace StackScheme.Machine

open Evaluator

/-! ## Ends of passes -/

/-- What the evaluator does for a form that asks for no other pass. -/
def FormStep.meaning (scope : ScopeId) : FormStep → Effect Value
  | .value v => pure v
  | .bind name v => define scope name v
  | .assign name v => Evaluator.assign scope name v
  | .lambda parameters first rest => close scope none parameters first rest
  | .procedure name parameters first rest => do
    define scope name (← close scope (some name) parameters first rest)
  | .again _ => Effect.diverge

section Forms

variable {arena : Arena} {n : Nat} (hlinks : arena.WellLinked) {node : NodeId} {ls : List Level}
  (hrest : Awaits arena node ls) (s : State) (pc : Option NodeId)
include hlinks hrest

/-- A special form that needs no other pass does what it asks for and delivers
its value. -/
theorem simulates_meaning {t : FormTask} {values : List Value} {next : FormStep} {w : World}
    {scope : ScopeId} {q : Progress} (hends : EndsPass arena node t values scope ls w q)
    (hperform : perform arena node t values = .ok next) (hnext : ∀ t, next ≠ .again t) :
    Simulates arena n q (next.meaning scope w) (Exits arena node scope ls) := by
  obtain ⟨s, position, rfl, rfl, rfl⟩ := hends
  rw [callForm_form, hperform]
  cases next with
  | value v => exact simulates_deliver hlinks n hrest v s none
  | bind name v =>
    exact simulates_deliver hlinks n hrest .unspecified
      { s with store := s.store.bind s.scope name v } none
  | assign name v =>
    dsimp only [performStep, FormStep.meaning, Evaluator.assign, Bind.bind, Effect.store,
      State.withLevels, State.world]
    cases s.store.holder? s.scope name with
    | some holder =>
      exact simulates_deliver hlinks n hrest .unspecified
        { s with store := s.store.bind holder name v } none
    | none => exact .fail rfl
  | lambda parameters first rest =>
    exact simulates_deliver hlinks n hrest (.closure (newClosure s none parameters first rest))
      { s with store := s.store.newSerial } none
  | procedure name parameters first rest =>
    let c := newClosure s (some name) parameters first rest
    exact simulates_deliver hlinks n hrest .unspecified
      { s with store := s.store.newSerial.bind s.scope name (.closure c) } none
  | again t => exact absurd rfl (hnext t)

omit hlinks hrest in
/-- A special form may find its operands to be of the wrong shape. -/
theorem simulates_error {t : FormTask} {values : List Value} {e : Error} {w : World}
    {scope : ScopeId} {q : Progress} {K : Value → World → Progress → Prop}
    (hends : EndsPass arena node t values scope ls w q)
    (hperform : perform arena node t values = .error e) :
    Simulates arena n q ((Effect.fail e : Effect Value) w) K := by
  obtain ⟨s, position, rfl, rfl, rfl⟩ := hends
  rw [callForm_form, hperform]
  exact .fail rfl

omit hlinks hrest in
/-- A special form may start one more pass. -/
theorem endsPass_again {t next : FormTask} {values : List Value} {w : World} {scope : ScopeId}
    {q : Progress} (hends : EndsPass arena node t values scope ls w q)
    (hfits : t.Fits arena node) (hperform : perform arena node t values = .ok (.again next)) :
    next.Fits arena node ∧
      ∃ s : State, s.scope = scope ∧ s.world = w ∧ q = startPass arena node next s ls := by
  obtain ⟨s, position, hscope, hworld, rfl⟩ := hends
  obtain ⟨hform, hfits'⟩ := fits_of_perform_again hfits hperform
  refine ⟨hfits', s, hscope, hworld, ?_⟩
  rw [callForm_form, hperform, startPass, hform]
  exact performStep_again arena s none ls node position (.form t) t.form next

omit hlinks hrest in
theorem simulates_malformed {form : SpecialForm} {K : Value → World → Progress → Prop}
    (hprepare : prepare arena node form = malformed arena node) :
    Simulates arena n (startForm arena node form s pc ls)
      (Evaluator.malformed arena node s.world) K := by
  rw [startForm, hprepare]
  exact .fail rfl

/-! ## Forms -/

variable (hcompound : arena.children node ≠ [])
include hcompound

variable (ih : SimulatesEval arena n)
include ih

omit hcompound in
/-- After the condition, `if` evaluates the branch that it chooses, if there is
one. -/
theorem simulates_branch {t : FormTask} (hfits : t.Fits arena node) (hform : t.form = .ifForm)
    (hpass : t.pass = 0) {v : Value} {w : World} {scope : ScopeId} {q : Progress}
    (hends : EndsPass arena node t [v] scope ls w q) :
    Simulates arena n q
      ((match (arena.operands node)[if v.isTruthy then 1 else 2]? with
        | some branch => eval arena n scope branch
        | none => pure .unspecified) w) (Exits arena node scope ls) := by
  have hcount : (arena.operands node).length = t.operandCount := by
    have := hfits.count
    rw [Arena.operands, List.length_tail]
    omega
  have hchosen : (if v.isTruthy then 2 else 3) = (if v.isTruthy then 1 else 2) + 1 := by
    cases v.isTruthy <;> rfl
  have hperform : perform arena node t [v] = .ok (performIf t v) := by
    simp only [perform, hform, passValue, List.head?_cons, Option.getD_some]
  rw [performIf, if_pos hpass, hchosen] at hperform
  generalize (if v.isTruthy then 1 else 2) = i at hperform ⊢
  obtain ⟨hfits', s, rfl, rfl, rfl⟩ := endsPass_again hends hfits hperform
  by_cases hi : i + 1 ≤ t.operandCount
  · have hlt : i < (arena.operands node).length := by omega
    have hchild := List.getElem?_eq_getElem hlt
    rw [hchild]
    refine simulates_tailOperand hlinks hfits' s ih hrest (if_pos hi) hchild ?_
    simp [FormTask.forwards, hform]
  · have hnone : (arena.operands node)[i]? = none := by
      rw [List.getElem?_eq_none_iff]
      omega
    rw [hnone]
    obtain ⟨q, hleads, hends'⟩ := leads_startPass hlinks hfits' s (if_neg hi)
    have hperform' : perform arena node
        { t with pass := 1, wanted := if i + 1 ≤ t.operandCount then some (i + 1) else none } [] =
        .ok (.value .unspecified) := by
      simp [perform, hform, performIf, passValue]
    exact .of_leads hleads (simulates_meaning hlinks hrest hends' hperform' (by simp))

/-- `if` evaluates the condition and then the branch that it chooses. -/
theorem simulates_evalIf :
    Simulates arena n (startForm arena node .ifForm s pc ls)
      (evalIf arena (eval arena n s.scope) node s.world) (Exits arena node s.scope ls) := by
  by_cases hlen : (arena.operands node).length = 2 ∨ (arena.operands node).length = 3
  · have hprepare : prepare arena node .ifForm =
        .ok ⟨.ifForm, 0, some 1, (arena.operands node).length⟩ := if_pos hlen
    have hfits := fits_of_prepare hcompound hprepare
    have hcondition : ∀ condition, (arena.operands node)[0]? = some condition →
        Simulates arena n (startForm arena node .ifForm s pc ls)
          (eval arena n s.scope condition s.world)
          (fun v => EndsPass arena node ⟨.ifForm, 0, some 1, (arena.operands node).length⟩ [v]
            s.scope ls) := by
      intro condition hchild
      rw [startForm, hprepare]
      exact simulates_operand hlinks hfits s ih hrest rfl hchild rfl
    rcases hlen with hlen | hlen
    · obtain ⟨condition, consequent, hoperands⟩ := List.length_eq_two.1 hlen
      rw [evalIf, hoperands]
      refine (hcondition condition (by rw [hoperands]; rfl)).bind fun v w q hq => ?_
      have hbranch := simulates_branch hlinks hrest ih hfits rfl rfl hq
      rw [hoperands] at hbranch
      cases hv : v.isTruthy <;> rw [hv] at hbranch <;> exact hbranch
    · obtain ⟨condition, consequent, alternative, hoperands⟩ := List.length_eq_three.1 hlen
      rw [evalIf, hoperands]
      refine (hcondition condition (by rw [hoperands]; rfl)).bind fun v w q hq => ?_
      have hbranch := simulates_branch hlinks hrest ih hfits rfl rfl hq
      rw [hoperands] at hbranch
      cases hv : v.isTruthy <;> rw [hv] at hbranch <;> exact hbranch
  · have heval : evalIf arena (eval arena n s.scope) node = Evaluator.malformed arena node := by
      rw [evalIf]
      split <;> simp_all
    rw [heval]
    exact simulates_malformed s pc (if_neg hlen)

omit hcompound in
/-- `and` and `or` evaluate operands until one of them decides. -/
theorem simulates_evalUntil {decides : Value → Bool} {none : Value} {form : SpecialForm}
    (hform : form = .andForm ∧ decides = (fun v => !v.isTruthy) ∨
      form = .orForm ∧ decides = Value.isTruthy)
    (i : Nat) {child : NodeId} {rest : List NodeId}
    (hdrop : (arena.operands node).drop i = child :: rest)
    (hfits : FormTask.Fits arena node
      ⟨form, i + 1, some (i + 1), (arena.operands node).length⟩) :
    Simulates arena n
      (startPass arena node ⟨form, i + 1, some (i + 1), (arena.operands node).length⟩ s ls)
      (evalUntil (eval arena n s.scope) decides none (child :: rest) s.world)
      (Exits arena node s.scope ls) := by
  have hchild : (arena.operands node)[i]? = some child := by
    rw [← List.head?_drop, hdrop, List.head?_cons]
  have hlength : (arena.operands node).length = i + 1 + rest.length := by
    have := congrArg List.length hdrop
    rw [List.length_drop, List.length_cons] at this
    omega
  -- The induction is on the operands after the one that is wanted.
  induction rest generalizing i child s with
  | nil =>
    refine simulates_tailOperand hlinks hfits s ih hrest rfl hchild ?_
    rcases hform with ⟨rfl, -⟩ | ⟨rfl, -⟩ <;> simp [FormTask.forwards, hlength]
  | cons next rest ih' =>
    have hforwards : FormTask.forwards
        ⟨form, i + 1, some (i + 1), (arena.operands node).length⟩ = false := by
      rcases hform with ⟨rfl, -⟩ | ⟨rfl, -⟩ <;> simp [FormTask.forwards, hlength]
    refine (simulates_operand hlinks hfits s ih hrest rfl hchild hforwards).bind
      fun v w q hq => ?_
    have hperform : perform arena node ⟨form, i + 1, some (i + 1), (arena.operands node).length⟩
        [v] = .ok (if decides v then .value v else
          .again ⟨form, i + 1 + 1, some (i + 1 + 1), (arena.operands node).length⟩) := by
      have hlast : i + 1 ≠ (arena.operands node).length := by
        rw [hlength, List.length_cons]
        omega
      rcases hform with ⟨rfl, rfl⟩ | ⟨rfl, rfl⟩ <;>
        simp [perform, performSequence, passValue, hlast]
    cases hv : decides v with
    | true =>
      rw [hv, if_pos rfl] at hperform
      exact simulates_meaning hlinks hrest hq hperform (by simp)
    | false =>
      rw [hv, if_neg Bool.false_ne_true] at hperform
      obtain ⟨hfits', s', hscope, rfl, rfl⟩ := endsPass_again hq hfits hperform
      have hdrop' : (arena.operands node).drop (i + 1) = next :: rest := by
        rw [← List.drop_drop, hdrop, List.drop_one, List.tail_cons]
      rw [← hscope]
      refine ih' s' (i + 1) hdrop' hfits' ?_ ?_
      · rw [← List.head?_drop, hdrop', List.head?_cons]
      · rw [hlength, List.length_cons]
        omega

omit ih in
/-- A form that evaluates no operand performs at once. -/
theorem simulates_noOperand {form : SpecialForm} {t : FormTask} {x : Effect Value}
    (hprepare : prepare arena node form = .ok t) (hwanted : t.wanted = none)
    (h : (∃ next, perform arena node t [] = .ok next ∧ (∀ t, next ≠ .again t) ∧
        x = next.meaning s.scope) ∨
      ∃ e, perform arena node t [] = .error e ∧ x = Effect.fail e) :
    Simulates arena n (startForm arena node form s pc ls) (x s.world)
      (Exits arena node s.scope ls) := by
  rw [startForm, hprepare]
  obtain ⟨q, hleads, hends⟩ := leads_startPass hlinks (fits_of_prepare hcompound hprepare) s hwanted
  refine .of_leads hleads ?_
  rcases h with ⟨next, hperform, hnext, rfl⟩ | ⟨e, hperform, rfl⟩
  · exact simulates_meaning hlinks hrest hends hperform hnext
  · exact simulates_error hends hperform

omit ih in
/-- `lambda` makes a procedure. -/
theorem simulates_evalLambda :
    Simulates arena n (startForm arena node .lambdaForm s pc ls)
      (evalLambda arena s.scope node s.world) (Exits arena node s.scope ls) := by
  rcases hoperands : arena.operands node with _ | ⟨formals, _ | ⟨first, rest⟩⟩
  · rw [evalLambda, hoperands]
    exact simulates_malformed s pc (by simp [prepare, hoperands])
  · rw [evalLambda, hoperands]
    exact simulates_malformed s pc (by simp [prepare, hoperands])
  · have hprepare : prepare arena node .lambdaForm =
        .ok ⟨.lambdaForm, 0, none, (arena.operands node).length⟩ := by
      simp [prepare, hoperands, firstPass]
    refine simulates_noOperand hlinks hrest s pc hcompound hprepare rfl ?_
    have hmem : formals ∈ arena.operands node := by rw [hoperands]; exact List.mem_cons_self
    obtain ⟨⟨shape, next⟩, hformals⟩ := exists_node?_of_mem_operands hlinks hmem
    simp only [perform, performLambda, evalLambda, formals?, hoperands, hformals]
    cases shape with
    | atom a => exact .inr ⟨_, rfl, rfl⟩
    | empty =>
      cases parameters? arena (arena.children formals) with
      | none => exact .inr ⟨_, rfl, rfl⟩
      | some names => exact .inl ⟨_, rfl, by simp, rfl⟩
    | compound operator =>
      cases parameters? arena (arena.children formals) with
      | none => exact .inr ⟨_, rfl, rfl⟩
      | some names => exact .inl ⟨_, rfl, by simp, rfl⟩

omit hlinks hrest hcompound ih in
/-- `define` needs a name or a signature. -/
theorem simulates_defineOther {target : NodeId} {m : Node}
    (hhead : (arena.operands node).head? = some target) (htarget : arena.node? target = some m)
    (hname : ∀ name, m.shape ≠ .atom (.symbol name))
    (hsignature : ∀ operator, m.shape ≠ .compound operator)
    {K : Value → World → Progress → Prop} :
    Simulates arena n (startForm arena node .defineForm s pc ls)
      (evalDefine arena (eval arena n s.scope) s.scope node s.world) K := by
  obtain ⟨shape, next⟩ := m
  have hsymbol : arena.symbol? target = none := by
    simp only [Arena.symbol?, htarget]
    split <;> simp_all
  have hchildren : arena.children target = [] := by
    simp only [Arena.children, htarget]
    split <;> simp_all
  have heval : evalDefine arena (eval arena n s.scope) s.scope node =
      Evaluator.malformed arena node := by
    rw [evalDefine]
    split
    · simp_all
    · rfl
  rw [heval]
  refine simulates_malformed s pc ?_
  simp only [prepare, hhead, Option.bind_some, htarget]
  split <;> simp_all

/-- `(define name expression)` binds the value of the expression. -/
theorem simulates_defineName {target : NodeId} {name : String} {rest : List NodeId}
    (hoperands : arena.operands node = target :: rest)
    (hsymbol : arena.symbol? target = some name) :
    Simulates arena n (startForm arena node .defineForm s pc ls)
      (evalDefine arena (eval arena n s.scope) s.scope node s.world)
      (Exits arena node s.scope ls) := by
  obtain ⟨next, htarget⟩ := Arena.exists_node?_of_symbol?_eq_some hsymbol
  rcases rest with _ | ⟨first, _ | ⟨second, rest⟩⟩
  · rw [evalDefine, hoperands]
    exact simulates_malformed s pc (by simp [prepare, hoperands, htarget])
  · have hprepare : prepare arena node .defineForm =
        .ok ⟨.defineForm, 0, some 2, (arena.operands node).length⟩ := by
      simp [prepare, hoperands, htarget, firstPass]
    have hchild : (arena.operands node)[1]? = some first := by rw [hoperands]; rfl
    rw [evalDefine, hoperands, startForm, hprepare]
    simp only [hsymbol, if_true]
    refine (simulates_operand hlinks (fits_of_prepare hcompound hprepare) s ih hrest rfl hchild
      rfl).bind fun v w q hq => ?_
    have hperform : perform arena node
        ⟨.defineForm, 0, some 2, (arena.operands node).length⟩ [v] = .ok (.bind name v) := by
      simp [perform, performDefine, hoperands, hsymbol, passValue]
    exact simulates_meaning hlinks hrest hq hperform (by simp)
  · rw [evalDefine, hoperands]
    simp only [hsymbol]
    exact simulates_malformed s pc (by simp [prepare, hoperands, htarget])

omit ih in
/-- `(define (name name …) expression …)` binds a procedure. -/
theorem simulates_defineProcedure {target : NodeId} {m : Node} {rest : List NodeId}
    {operator : NodeId} (hoperands : arena.operands node = target :: rest)
    (htarget : arena.node? target = some m) (hshape : m.shape = .compound operator) :
    Simulates arena n (startForm arena node .defineForm s pc ls)
      (evalDefine arena (eval arena n s.scope) s.scope node s.world)
      (Exits arena node s.scope ls) := by
  obtain ⟨shape, next⟩ := m
  subst hshape
  have hsymbol : arena.symbol? target = none := by simp [Arena.symbol?, htarget]
  rcases rest with _ | ⟨first, rest⟩
  · rw [evalDefine, hoperands]
    exact simulates_malformed s pc (by simp [prepare, hoperands, htarget])
  · have hprepare : prepare arena node .defineForm =
        .ok ⟨.defineForm, 0, none, (arena.operands node).length⟩ := by
      simp [prepare, hoperands, htarget, firstPass]
    refine simulates_noOperand hlinks hrest s pc hcompound hprepare rfl ?_
    simp only [perform, performDefine, evalDefine, hoperands, hsymbol]
    rcases arena.children target with _ | ⟨nameNode, formals⟩
    · exact .inr ⟨_, rfl, rfl⟩
    dsimp only
    rcases arena.symbol? nameNode with _ | name
    · exact .inr ⟨_, rfl, rfl⟩
    rcases parameters? arena formals with _ | names
    · exact .inr ⟨_, rfl, rfl⟩
    · exact .inl ⟨_, rfl, by simp, rfl⟩

/-- `define` binds a name, to the value of its operand or to a procedure. -/
theorem simulates_evalDefine :
    Simulates arena n (startForm arena node .defineForm s pc ls)
      (evalDefine arena (eval arena n s.scope) s.scope node s.world)
      (Exits arena node s.scope ls) := by
  rcases hoperands : arena.operands node with _ | ⟨target, rest⟩
  · rw [evalDefine, hoperands]
    exact simulates_malformed s pc (by simp [prepare, hoperands])
  have hhead : (arena.operands node).head? = some target := by rw [hoperands, List.head?_cons]
  obtain ⟨⟨shape, next⟩, htarget⟩ :=
    exists_node?_of_mem_operands hlinks (List.mem_of_mem_head? hhead)
  cases shape with
  | atom a =>
    cases a with
    | symbol name =>
      have hsymbol : arena.symbol? target = some name := by simp [Arena.symbol?, htarget]
      exact simulates_defineName hlinks hrest s pc hcompound ih hoperands hsymbol
    | _ => exact simulates_defineOther s pc hhead htarget (by simp) (by simp)
  | empty => exact simulates_defineOther s pc hhead htarget (by simp) (by simp)
  | compound operator =>
    exact simulates_defineProcedure hlinks hrest s pc hcompound hoperands htarget rfl

/-- `set!` evaluates its operand and changes the nearest binding. -/
theorem simulates_evalSet :
    Simulates arena n (startForm arena node .setForm s pc ls)
      (evalSet arena (eval arena n s.scope) s.scope node s.world)
      (Exits arena node s.scope ls) := by
  by_cases hlen : (arena.operands node).length = 2
  · obtain ⟨target, expression, hoperands⟩ := List.length_eq_two.1 hlen
    cases hsymbol : arena.symbol? target with
    | none =>
      rw [evalSet, hoperands]
      simp only [hsymbol]
      exact simulates_malformed s pc (by simp [prepare, hoperands, hsymbol])
    | some name =>
      have hprepare : prepare arena node .setForm =
          .ok ⟨.setForm, 0, some 2, (arena.operands node).length⟩ := by
        simp [prepare, hoperands, hsymbol, firstPass]
      have hchild : (arena.operands node)[1]? = some expression := by rw [hoperands]; rfl
      rw [evalSet, hoperands, startForm, hprepare]
      simp only [hsymbol]
      refine (simulates_operand hlinks (fits_of_prepare hcompound hprepare) s ih hrest rfl hchild
        rfl).bind fun v w q hq => ?_
      have hperform : perform arena node
          ⟨.setForm, 0, some 2, (arena.operands node).length⟩ [v] = .ok (.assign name v) := by
        simp [perform, performSet, hoperands, hsymbol, passValue]
      exact simulates_meaning hlinks hrest hq hperform (by simp)
  · have heval : evalSet arena (eval arena n s.scope) s.scope node =
        Evaluator.malformed arena node := by
      rw [evalSet]
      split <;> simp_all
    rw [heval]
    exact simulates_malformed s pc (by simp [prepare, hlen])

omit ih in
/-- `quote` has its operand itself as its value. -/
theorem simulates_evalQuote :
    Simulates arena n (startForm arena node .quoteForm s pc ls)
      (evalQuote arena node s.world) (Exits arena node s.scope ls) := by
  by_cases hlen : (arena.operands node).length = 1
  · obtain ⟨datum, hoperands⟩ := List.length_eq_one_iff.1 hlen
    have hprepare : prepare arena node .quoteForm =
        .ok ⟨.quoteForm, 0, none, (arena.operands node).length⟩ := by
      simp [prepare, hoperands, firstPass]
    refine simulates_noOperand hlinks hrest s pc hcompound hprepare rfl ?_
    have hmem : datum ∈ arena.operands node := by rw [hoperands]; exact List.mem_cons_self
    obtain ⟨⟨shape, next⟩, hdatum⟩ := exists_node?_of_mem_operands hlinks hmem
    simp only [perform, performQuote, evalQuote, hoperands, hdatum]
    cases shape with
    | atom a => exact .inl ⟨_, rfl, by simp, rfl⟩
    | empty => exact .inl ⟨_, rfl, by simp, rfl⟩
    | compound operator => exact .inr ⟨_, rfl, rfl⟩
  · have heval : evalQuote arena node = Evaluator.malformed arena node := by
      rw [evalQuote]
      split <;> simp_all
    rw [heval]
    exact simulates_malformed s pc (by simp [prepare, hlen])

/-- `and` and `or` may have no operands at all. -/
theorem simulates_sequence {decides : Value → Bool} {none : Value} {form : SpecialForm}
    (hform : form = .andForm ∧ decides = (fun v => !v.isTruthy) ∧ none = .boolean true ∨
      form = .orForm ∧ decides = Value.isTruthy ∧ none = .boolean false) :
    Simulates arena n (startForm arena node form s pc ls)
      (evalUntil (eval arena n s.scope) decides none (arena.operands node) s.world)
      (Exits arena node s.scope ls) := by
  rcases hoperands : arena.operands node with _ | ⟨first, rest⟩
  · have hprepare : prepare arena node form = .ok ⟨form, 0, .none, 0⟩ := by
      rcases hform with ⟨rfl, -⟩ | ⟨rfl, -⟩ <;> simp [prepare, hoperands, firstPass]
    have hperform : perform arena node ⟨form, 0, .none, 0⟩ [] = .ok (.value none) := by
      rcases hform with ⟨rfl, -, rfl⟩ | ⟨rfl, -, rfl⟩ <;> simp [perform, performSequence]
    exact simulates_noOperand hlinks hrest s pc hcompound hprepare rfl
      (.inl ⟨_, hperform, by simp, rfl⟩)
  · have hprepare : prepare arena node form =
        .ok ⟨form, 0 + 1, some (0 + 1), (arena.operands node).length⟩ := by
      rcases hform with ⟨rfl, -⟩ | ⟨rfl, -⟩ <;> simp [prepare, hoperands, firstPass]
    have hfits := fits_of_prepare hcompound hprepare
    rw [startForm, hprepare]
    refine simulates_evalUntil hlinks hrest s ih ?_ 0 hoperands hfits
    rcases hform with ⟨hform, hdecides, -⟩ | ⟨hform, hdecides, -⟩
    · exact .inl ⟨hform, hdecides⟩
    · exact .inr ⟨hform, hdecides⟩

/-- Every special form is simulated. -/
theorem simulates_evalForm (form : SpecialForm) :
    Simulates arena n (startForm arena node form s pc ls)
      (evalForm arena (eval arena n s.scope) s.scope node form s.world)
      (Exits arena node s.scope ls) := by
  cases form with
  | ifForm => exact simulates_evalIf hlinks hrest s pc hcompound ih
  | lambdaForm => exact simulates_evalLambda hlinks hrest s pc hcompound
  | defineForm => exact simulates_evalDefine hlinks hrest s pc hcompound ih
  | setForm => exact simulates_evalSet hlinks hrest s pc hcompound ih
  | quoteForm => exact simulates_evalQuote hlinks hrest s pc hcompound
  | andForm => exact simulates_sequence hlinks hrest s pc hcompound ih (.inl ⟨rfl, rfl, rfl⟩)
  | orForm => exact simulates_sequence hlinks hrest s pc hcompound ih (.inr ⟨rfl, rfl, rfl⟩)

end Forms

end StackScheme.Machine
