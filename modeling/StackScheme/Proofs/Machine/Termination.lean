import StackScheme.Proofs.Arena.Parents
import StackScheme.Proofs.Machine.Outcomes

/-!
# Termination

Only procedures can keep the machine running.  From every state that a run leads to, the
machine comes to the end of the run or to the application of a procedure.

Neither the place of the machine nor the height of a stack decreases on the way, since a
special form goes back to its first operand for each pass.  What decreases is told from the
inside to the outside: a node is evaluated by evaluating nodes beneath it, a combination
has ever fewer children or passes to come, a body has fewer expressions to come, and the
value of a level goes to the levels around it, of which there are fewer.

* Pauses.  `Pauses` is a run that comes to its end or to an application.  `Resumes` are
  levels that do when they get the value of a node, and `Finishes` is a node that does,
  provided that the levels around it do.
* Passes.  `pass_of_perform_again` says that the passes of a form are counted up to the
  number of its operands.
* Combinations.  `pauses_form` is the induction on the passes that are left, and
  `pauses_call` the induction on the children that are left.
* Levels.  `finishes` is the induction on nodes, `pauses_body` on the rest of a body, and
  `resumes_of_awaits` on levels.
* Runs.  `ends_or_applies` is what follows for the states of a run.
-/

namespace StackScheme.Machine

/-! ## Pauses -/

/-- The run comes to its end, or to a state whose next step applies a procedure. -/
inductive Pauses (arena : Arena) (limit : Option Nat) : Progress → Prop
  | halted (r : Except Error Value) (t : State) : Pauses arena limit (.halted r t)
  | applies {s : State} {a : Application} (h : application? arena s = some a) :
    Pauses arena limit (.running s)
  | step {s : State} (h : Pauses arena limit (step arena limit s)) :
    Pauses arena limit (.running s)

/-- The run pauses when the levels get a value of `node`, whatever value it is. -/
def Resumes (arena : Arena) (limit : Option Nat) (node : NodeId) (ls : List Level) : Prop :=
  ∀ (s : State) (pc : Option NodeId) (v : Value),
    Pauses arena limit (deliver arena node v (s.withLevels pc ls))

/-- The run pauses when `node` is evaluated inside of levels that resume. -/
def Finishes (arena : Arena) (limit : Option Nat) (node : NodeId) : Prop :=
  ∀ ls, Awaits arena node ls → Resumes arena limit node ls →
    ∀ (s : State) (pc : Option NodeId),
      Pauses arena limit (enter arena limit node (s.withLevels pc ls))

section Runs

variable {arena : Arena} {limit : Option Nat}

theorem Pauses.of_step_eq {s : State} {p : Progress} (h : Machine.step arena limit s = p)
    (hp : Pauses arena limit p) : Pauses arena limit (.running s) := by
  subst h
  exact .step hp

/-- A run that pauses has ended after so many steps, or applies a procedure next. -/
theorem Pauses.exists_iterate {p : Progress} (h : Pauses arena limit p) :
    ∃ n, (∃ r t, (Progress.next (Machine.step arena limit))^[n] p = .halted r t) ∨
      ∃ t a, (Progress.next (Machine.step arena limit))^[n] p = .running t ∧
        application? arena t = some a := by
  induction h with
  | halted r t => exact ⟨0, .inl ⟨r, t, rfl⟩⟩
  | @applies s a h => exact ⟨0, .inr ⟨s, a, rfl, h⟩⟩
  | step _ ih =>
    obtain ⟨n, hn⟩ := ih
    exact ⟨n + 1, hn⟩

end Runs

/-! ## Passes -/

theorem pass_of_performIf {arena : Arena} {node : NodeId} {t next : FormTask} {value : Value}
    (hfits : t.Fits arena node) (hform : t.form = .ifForm)
    (h : performIf t value = .again next) :
    next.pass = t.pass + 1 ∧ next.operandCount = t.operandCount ∧ t.pass < t.operandCount := by
  rw [performIf] at h
  split at h
  · rename_i hpass
    cases h
    have hin := hfits.inPass
    rw [FormTask.InPass, hform] at hin
    have hwanted : t.wanted = some 1 := by simpa [hpass] using hin
    have hle := (hfits.wanted_le hwanted).2
    have hnext : 1 = t.pass + 1 := by omega
    exact ⟨hnext, rfl, by omega⟩
  · cases h

theorem pass_of_performSequence {arena : Arena} {node : NodeId} {t next : FormTask}
    {value : Value} (hfits : t.Fits arena node) (hform : t.form = .andForm ∨ t.form = .orForm)
    (h : performSequence t value = .again next) :
    next.pass = t.pass + 1 ∧ next.operandCount = t.operandCount ∧ t.pass < t.operandCount := by
  rw [performSequence] at h
  split at h
  · cases h
  · rename_i hpass
    generalize (if t.form = .andForm then !value.isTruthy else value.isTruthy) = decided at h
    dsimp only at h
    split at h
    · cases h
    · rename_i hlast
      cases h
      have hle := (hfits.wanted_le (hfits.inPass.wanted_eq hform hpass)).2
      exact ⟨rfl, rfl, by omega⟩

/-- A form that goes on counts one more pass, and has no more passes than operands. -/
theorem pass_of_perform_again {arena : Arena} {node : NodeId} {t next : FormTask}
    {values : List Value} (hfits : t.Fits arena node)
    (h : perform arena node t values = .ok (.again next)) :
    next.pass = t.pass + 1 ∧ next.operandCount = t.operandCount ∧ t.pass < t.operandCount := by
  rcases cases_of_perform_again h with ⟨hform, h⟩ | ⟨hform, h⟩
  · exact pass_of_performIf hfits hform h
  · exact pass_of_performSequence hfits hform h

/-! ## Combinations -/

section Combinations

variable {arena : Arena} {limit : Option Nat} {node : NodeId} {ls : List Level}
  (hresumes : Resumes arena limit node ls)
include hresumes

theorem Resolves.pauses {p : Progress} (h : Resolves arena node ls p) : Pauses arena limit p :=
  h.elim .halted hresumes

/-- The end of an ordinary combination is an application, or it has a value or fails. -/
theorem pauses_call_end (position : Nat) (vs : List Value) (s : State) :
    Pauses arena limit (.running (s.withLevels none (.call node position .call vs :: ls))) := by
  cases happ : application? arena (s.withLevels none (.call node position .call vs :: ls)) with
  | some a => exact .applies happ
  | none =>
    rw [application?_call_end] at happ
    refine .of_step_eq (step_call_end limit s ls node position vs) ?_
    refine (resolves_dispatch_call arena node (tick s) ls limit position ?_).pauses hresumes
    intro c args hvalues
    rw [hvalues] at happ
    cases happ

variable (hlinks : arena.WellLinked)
  (hchildren : ∀ child ∈ arena.children node, Finishes arena limit child)
include hlinks hchildren

/-- A special form pauses, in any pass.  The induction is on the passes that are left. -/
theorem pauses_form {t : FormTask} {position : Nat} {vs : List Value}
    (h : Laid arena (arena.children node)[position]? (.call node position (.form t) vs :: ls))
    (s : State) :
    Pauses arena limit (.running (s.withLevels (arena.children node)[position]?
      (.call node position (.form t) vs :: ls))) := by
  generalize hleft : t.operandCount - t.pass = left
  induction left using Nat.strongRecOn generalizing t position vs s with
  | _ left ih =>
    obtain ⟨⟨-, hle⟩, -, hfits, howns, hrest⟩ := id h
    have hcount := hfits.count
    have hend (values : List Value) (position : Nat) (s : State) :
        Pauses arena limit
          (callForm arena { node, base := (operandsOf ls).length, position, task := .form t }
            t.form values (s.withLevels none ls)) := by
      rcases callForm_cases arena node s ls position t t.form values with hp | ⟨next, hnext, heq⟩
      · exact hp.pauses hresumes
      · obtain ⟨hpass, hoperands, hlt⟩ := pass_of_perform_again hfits hnext
        rw [heq]
        exact ih _ (by omega) (h.again hnext) s rfl
    refine .step ?_
    rw [step_form limit s ls hlinks hfits howns.one_le (by omega)]
    cases hchild : (arena.children node)[t.seek position]? with
    | none =>
      obtain ⟨args, hargs⟩ := howns.exists_reverse_eq
      rw [hargs]
      exact hend args (t.seek position) (tick s)
    | some child =>
      have hawaits := awaits_seek hfits howns hrest hchild
      obtain ⟨hpos, hwanted, rfl⟩ :=
        hawaits.2.2.2.1.before_of_child hfits hchild (t.skips_seek position)
      refine hchildren child (List.mem_of_getElem? hchild) _ hawaits (fun s pc v => ?_) (tick s) _
      rw [deliver_operand hlinks s pc ls hchild hpos]
      exact .of_step_eq (step_operand hlinks limit s ls hfits hchild hwanted)
        (hend [v] _ (tick s))

/-- An ordinary combination pauses.  The induction is on the children that are left, and
leads to a special form if that is what the operator turns out to be. -/
theorem pauses_call {position : Nat} {vs : List Value}
    (h : Laid arena (arena.children node)[position]? (.call node position .call vs :: ls))
    (s : State) :
    Pauses arena limit (.running (s.withLevels (arena.children node)[position]?
      (.call node position .call vs :: ls))) := by
  generalize hleft : (arena.children node).length - position = left
  induction left generalizing position vs s with
  | zero =>
    have hnone : (arena.children node)[position]? = none := by
      rw [List.getElem?_eq_none_iff]
      omega
    rw [hnone]
    exact pauses_call_end hresumes position vs s
  | succ left ih =>
    have hlt : position < (arena.children node).length := by omega
    have hchild := List.getElem?_eq_getElem hlt
    generalize (arena.children node)[position] = child at hchild
    obtain ⟨-, -, hfits, howns, hrest⟩ := h
    have hawaits : Awaits arena child (.call node position .call vs :: ls) :=
      ⟨hchild, rfl, hfits, howns, hrest⟩
    rw [hchild]
    refine .of_step_eq (step_call limit s ls child node position vs) ?_
    refine hchildren child (List.mem_of_getElem? hchild) _ hawaits (fun s pc v => ?_) (tick s) _
    rcases deliver_child_cases hlinks hawaits v s pc with ⟨r, t, heq⟩ | ⟨task, -, hlaid, heq⟩
    · rw [heq]
      exact .halted r t
    · rw [heq]
      cases task with
      | call => exact ih hlaid s (by omega)
      | form t => exact pauses_form hresumes hlinks hchildren hlaid s

/-- A combination pauses. -/
theorem pauses_combination {position : Nat} {task : Task} {vs : List Value}
    (h : Laid arena (arena.children node)[position]? (.call node position task vs :: ls))
    (s : State) :
    Pauses arena limit (.running (s.withLevels (arena.children node)[position]?
      (.call node position task vs :: ls))) := by
  cases task with
  | call => exact pauses_call hresumes hlinks hchildren h s
  | form t => exact pauses_form hresumes hlinks hchildren h s

end Combinations

/-! ## Nodes and levels -/

section Levels

variable {arena : Arena} (hgrown : arena.Grown) {limit : Option Nat}
include hgrown

/-- Every node of an arena that comes from reading is evaluated or comes to an
application.  The induction is on the nodes beneath it. -/
theorem finishes (node : NodeId) : Finishes arena limit node := by
  have hlinks := hgrown.wellLinked
  obtain ⟨trees, rfl⟩ := hgrown.exists_eq_ofForest
  induction node using (Arena.wellFormed_ofForest trees).trees_finite.induction with
  | _ node ih =>
    intro ls hawaits hresumes s pc
    rcases enter_cases (.ofForest trees) node s ls limit pc with hp | ⟨hcompound, heq⟩
    · exact hp.pauses hresumes
    · rw [heq]
      exact pauses_call hresumes hlinks ih (hawaits.opened hcompound) s

/-- A body pauses when one of its expressions has a value.  The induction is on the
expressions that are left. -/
theorem pauses_body {k : Continuation} {ls : List Level} (hawaits : Awaits arena k.returnNode ls)
    (hresumes : Resumes arena limit k.returnNode ls) (v : Value) (s : State) :
    Pauses arena limit (.running (s.withLevels none (.body k [v] :: ls))) := by
  obtain ⟨callerScope, returnNode, remaining⟩ := k
  induction remaining generalizing v s with
  | nil => exact .of_step_eq (step_body_end limit s ls _ v) (hresumes _ none v)
  | cons next remaining ih =>
    have hnext : Awaits arena next (.body { callerScope, returnNode, remaining } [] :: ls) :=
      ⟨rfl, hawaits⟩
    refine .of_step_eq (step_body_end limit s ls _ v) (.of_step_eq (step_body _ _ _ _ _ _) ?_)
    exact finishes hgrown next _ hnext (fun s _ v => ih v s hawaits hresumes) _ _

/-- Levels that wait for the value of a node go on when they get it.  The induction is on
the levels. -/
theorem resumes_of_awaits {node : NodeId} {ls : List Level} (h : Awaits arena node ls) :
    Resumes arena limit node ls := by
  have hlinks := hgrown.wellLinked
  induction ls generalizing node with
  | nil => exact h.elim
  | cons l ls ih =>
    intro s pc v
    cases l with
    | top vs =>
      cases ls with
      | cons _ _ => exact h.elim
      | nil =>
        obtain rfl : vs = [] := h
        exact .of_step_eq (step_top_end limit s v) (.halted _ _)
    | body k vs =>
      obtain ⟨rfl, hrest⟩ := h
      exact pauses_body hgrown hrest (ih hrest) v s
    | call parent position task vs =>
      rcases deliver_child_cases hlinks h v s pc with ⟨r, t, heq⟩ | ⟨task', -, hlaid, heq⟩
      · rw [heq]
        exact .halted r t
      · rw [heq]
        obtain ⟨-, -, -, -, hrest⟩ := h
        exact pauses_combination (ih hrest) hlinks (fun child _ => finishes hgrown child) hlaid s

/-- A node is evaluated inside of levels that wait for it. -/
theorem pauses_enter {node : NodeId} {ls : List Level} (h : Awaits arena node ls) (s : State)
    (pc : Option NodeId) : Pauses arena limit (enter arena limit node (s.withLevels pc ls)) :=
  finishes hgrown node ls h (resumes_of_awaits hgrown h) s pc

/-- Every state with well-formed levels pauses. -/
theorem pauses_of_laid {pc : Option NodeId} {ls : List Level} (h : Laid arena pc ls) (s : State) :
    Pauses arena limit (.running (s.withLevels pc ls)) := by
  match ls, h with
  | [.top vs], hready =>
    rcases hready with ⟨hsome, rfl⟩ | ⟨rfl, v, rfl⟩
    · obtain ⟨root, rfl⟩ := Option.isSome_iff_exists.1 hsome
      have hawaits : Awaits arena root [.top []] := rfl
      exact .of_step_eq (step_top limit s [] root []) (pauses_enter hgrown hawaits _ _)
    · exact .of_step_eq (step_top_end limit s v) (.halted _ _)
  | .body k vs :: ls, ⟨hready, hrest⟩ =>
    rcases hready with ⟨hsome, rfl⟩ | ⟨rfl, v, rfl⟩
    · obtain ⟨expression, rfl⟩ := Option.isSome_iff_exists.1 hsome
      have hawaits : Awaits arena expression (.body k [] :: ls) := ⟨rfl, hrest⟩
      exact .of_step_eq (step_body limit s ls expression k []) (pauses_enter hgrown hawaits _ _)
    · exact pauses_body hgrown hrest (resumes_of_awaits hgrown hrest) v s
  | .call node position task vs :: ls, hlaid =>
    obtain ⟨⟨rfl, -⟩, -, -, -, hrest⟩ := id hlaid
    exact pauses_combination (resumes_of_awaits hgrown hrest) hgrown.wellLinked
      (fun child _ => finishes hgrown child) hlaid s

/-! ## Runs -/

/-- Every state that a run leads to pauses. -/
theorem pauses_of_leads {store : Store} {sink : Sink} {root : NodeId} {scope : ScopeId}
    {s : State}
    (h : Leads arena limit (.running { State.initial store sink root with scope })
      (.running s)) : Pauses arena limit (.running s) := by
  obtain ⟨pc, ls, hs, hlaid⟩ :=
    (isLaid_initial store sink root scope).of_leads hgrown.wellLinked h
  rw [hs]
  exact pauses_of_laid hgrown hlaid s

end Levels

/-- Only procedures can keep the machine running.  From every state of a run, whatever the
store, the scope and the limit are, it comes after finitely many steps to the end of the
run or to a step that applies a procedure.  So a run that applies no procedure ends. -/
theorem ends_or_applies {arena : Arena} (hgrown : arena.Grown) (store : Store) (sink : Sink)
    (root : NodeId) (scope : ScopeId) (limit : Option Nat) {s : State}
    (h : Leads arena limit (.running { State.initial store sink root with scope })
      (.running s)) :
    (∃ n, (∃ r t, run arena limit n s = some (r, t)) ∨
      ∃ t a, (Progress.next (step arena limit))^[n] (.running s) = .running t ∧
        application? arena t = some a ∧
        step arena limit t = apply limit a.node a.closure a.args a.state) ∧
      ((∀ t, Leads arena limit (.running s) (.running t) → application? arena t = none) →
        ∃ n r t, run arena limit n s = some (r, t)) := by
  obtain ⟨n, hn⟩ := (pauses_of_leads hgrown h).exists_iterate
  have hrun {r : Except Error Value} {t : State}
      (ht : (Progress.next (step arena limit))^[n] (.running s) = .halted r t) :
      run arena limit n s = some (r, t) := by
    rw [← runBy_apply]
    exact runBy_eq_some_iff.2 ht
  rcases hn with ⟨r, t, ht⟩ | ⟨t, a, ht, ha⟩
  · exact ⟨⟨n, .inl ⟨r, t, hrun ht⟩⟩, fun _ => ⟨n, r, t, hrun ht⟩⟩
  · refine ⟨⟨n, .inr ⟨t, a, ht, ha, step_eq_of_application? ha limit⟩⟩, fun hnone => ?_⟩
    have hleads := leads_iterate_next arena limit n (.running s)
    rw [ht] at hleads
    rw [hnone t hleads] at ha
    cases ha

/-- In `((lambda (f) (and #t (f f))) (lambda (f) (and #t (f f))))`, which runs forever, the
procedure is applied again from inside of its body. -/
theorem ends_or_applies_loop :
    ∃ (arena : Arena) (s : State), arena.Grown ∧
      Leads arena (some 9) (.running (.initial .initial .accepting 20)) (.running s) ∧
      s.stats = ⟨20, 1⟩ ∧
      ∃ n, (∃ r t, run arena (some 9) n s = some (r, t)) ∨
        ∃ t a, (Progress.next (step arena (some 9)))^[n] (.running s) = .running t ∧
          application? arena t = some a ∧
          step arena (some 9) t = apply (some 9) a.node a.closure a.args a.state := by
  let reader : Reader := ⟨[.opening, .opening, .word "lambda", .opening, .word "f", .closing,
    .opening, .word "and", .word "#t", .opening, .word "f", .word "f", .closing, .closing,
    .closing, .opening, .word "lambda", .opening, .word "f", .closing, .opening, .word "and",
    .word "#t", .opening, .word "f", .word "f", .closing, .closing, .closing, .closing]⟩
  have hgrown : (reader.read {}).arena.Grown := .read reader .empty
  have hstats : ((Progress.next (step (reader.read {}).arena (some 9)))^[20]
      (.running (.initial .initial .accepting 20))).state.stats = ⟨20, 1⟩ := by decide +kernel
  have hnone : (run (reader.read {}).arena (some 9) 20
      (.initial .initial .accepting 20)).isNone = true := by decide +kernel
  have hleads := leads_iterate_next (reader.read {}).arena (some 9) 20
    (.running (.initial .initial .accepting 20))
  rw [← runBy_apply] at hnone
  cases hp : (Progress.next (step (reader.read {}).arena (some 9)))^[20]
      (.running (.initial .initial .accepting 20)) with
  | halted r t =>
    rw [runBy_eq_some_iff.2 hp] at hnone
    cases hnone
  | running s =>
    rw [hp] at hleads hstats
    have hends := ends_or_applies hgrown .initial .accepting 20 Store.globalScope (some 9) hleads
    exact ⟨_, s, hgrown, hleads, hstats, hends.1⟩

end StackScheme.Machine
