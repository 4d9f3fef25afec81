import StackScheme.Machine.Step

/-!
# Runs of the machine

A run is looked at in two ways.  `Leads` says that one stage of a run comes
before or is another one, and `EndsWithin` that a run is over after so many
steps.

* `exists_run_eq_some_iff` ties `Leads` to `run`, and `endsWithin_of_run_eq_some`
  ties `EndsWithin` to it.
* `Leads.trans` puts runs together.  `Leads.halted_inj` says that a run has one
  end.
* `EndsWithin.of_leads` says that later stages need no more steps.
-/

namespace StackScheme.Machine

/-- The run goes on from the first stage to the second one, or they are the
same. -/
inductive Leads (arena : Arena) (limit : Option Nat) : Progress → Progress → Prop
  | refl (p : Progress) : Leads arena limit p p
  | step {s : State} {p : Progress} (h : Leads arena limit (step arena limit s) p) :
    Leads arena limit (.running s) p

/-- The registers at a stage of a run. -/
def Progress.state : Progress → State
  | .running s => s
  | .halted _ s => s

/-- The run is over after at most `n` steps. -/
def EndsWithin (arena : Arena) (limit : Option Nat) : (n : Nat) → Progress → Prop
  | _, .halted _ _ => True
  | 0, .running _ => False
  | n + 1, .running s => EndsWithin arena limit n (step arena limit s)

variable {arena : Arena} {limit : Option Nat}

theorem Leads.trans {p q r : Progress} (hpq : Leads arena limit p q)
    (hqr : Leads arena limit q r) : Leads arena limit p r := by
  induction hpq with
  | refl => exact hqr
  | step _ ih => exact .step (ih hqr)

theorem Leads.of_step_eq {s : State} {p : Progress} (h : Machine.step arena limit s = p) :
    Leads arena limit (.running s) p := by
  subst h
  exact .step (.refl _)

/-- Nothing comes after the end of a run. -/
theorem Leads.eq_of_halted {outcome : Except Error Value} {t : State} {p : Progress}
    (h : Leads arena limit (.halted outcome t) p) : p = .halted outcome t := by
  cases h
  rfl

/-- A run has one end. -/
theorem Leads.halted_inj {p : Progress} {r r' : Except Error Value} {t t' : State}
    (h : Leads arena limit p (.halted r t)) (h' : Leads arena limit p (.halted r' t')) :
    r = r' ∧ t = t' := by
  generalize hq : Progress.halted r t = q at h
  induction h with
  | refl =>
    subst hq
    have heq := h'.eq_of_halted
    simp only [Progress.halted.injEq] at heq
    exact ⟨heq.1.symm, heq.2.symm⟩
  | step _ ih =>
    cases h' with
    | step h' => exact ih h' hq

theorem EndsWithin.mono {n m : Nat} {p : Progress} (h : EndsWithin arena limit n p)
    (hle : n ≤ m) : EndsWithin arena limit m p := by
  induction n generalizing m p with
  | zero =>
    cases p with
    | halted r t => cases m <;> trivial
    | running s => exact h.elim
  | succ n ih =>
    cases p with
    | halted r t => cases m <;> trivial
    | running s =>
      cases m with
      | zero => omega
      | succ m =>
        have hstep : EndsWithin arena limit n (Machine.step arena limit s) := h
        show EndsWithin arena limit m (Machine.step arena limit s)
        exact ih hstep (by omega)

/-- A later stage of a run needs no more steps. -/
theorem EndsWithin.of_leads {n : Nat} {p q : Progress} (h : EndsWithin arena limit n p)
    (hleads : Leads arena limit p q) : EndsWithin arena limit n q := by
  induction hleads with
  | refl => exact h
  | step _ ih =>
    cases n with
    | zero => exact h.elim
    | succ n => exact ih (EndsWithin.mono h (Nat.le_succ n))

theorem leads_of_run_eq_some {n : Nat} {s t : State} {r : Except Error Value}
    (h : run arena limit n s = some (r, t)) : Leads arena limit (.running s) (.halted r t) := by
  induction n generalizing s with
  | zero => simp [run] at h
  | succ n ih =>
    rw [run] at h
    cases hstep : Machine.step arena limit s with
    | running s' =>
      rw [hstep] at h
      exact .step (hstep ▸ ih h)
    | halted r' t' =>
      rw [hstep, Option.some.injEq, Prod.mk.injEq] at h
      obtain ⟨rfl, rfl⟩ := h
      exact .of_step_eq hstep

theorem exists_run_eq_some_of_leads {p : Progress} {r : Except Error Value} {t : State}
    (h : Leads arena limit p (.halted r t)) :
    ∀ s, p = .running s → ∃ n, run arena limit n s = some (r, t) := by
  generalize hq : Progress.halted r t = q at h
  induction h with
  | refl =>
    intro s hs
    rw [hs] at hq
    cases hq
  | @step s q hleads ih =>
    intro s' hs'
    cases hs'
    cases hstep : Machine.step arena limit s with
    | running s' =>
      obtain ⟨n, hn⟩ := ih hq s' hstep
      exact ⟨n + 1, by rw [run, hstep]; exact hn⟩
    | halted r' t' =>
      rw [hstep] at hleads
      have heq := hleads.eq_of_halted
      rw [← hq, Progress.halted.injEq] at heq
      obtain ⟨rfl, rfl⟩ := heq
      exact ⟨1, by rw [run, hstep]⟩

/-- The machine ends in a state if and only if its run leads there. -/
theorem exists_run_eq_some_iff {s t : State} {r : Except Error Value} :
    (∃ n, run arena limit n s = some (r, t)) ↔
      Leads arena limit (.running s) (.halted r t) :=
  ⟨fun ⟨_, h⟩ => leads_of_run_eq_some h, fun h => exists_run_eq_some_of_leads h s rfl⟩

theorem endsWithin_of_run_eq_some {n : Nat} {s : State} {r : Except Error Value × State}
    (h : run arena limit n s = some r) : EndsWithin arena limit n (.running s) := by
  induction n generalizing s with
  | zero => simp [run] at h
  | succ n ih =>
    rw [run] at h
    rw [EndsWithin]
    cases hstep : Machine.step arena limit s with
    | running s' =>
      rw [hstep] at h
      exact ih h
    | halted r' t' => cases n <;> trivial

end StackScheme.Machine
