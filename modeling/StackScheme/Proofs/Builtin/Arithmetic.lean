import Mathlib
import StackScheme.Proofs.Builtin.Division

/-!
# Arithmetic on any number of arguments

`+`, `-`, `*` and `/` of 64-bit integers, against the operations on integers of any size.

* Folds.  A fold fails at the first step that fails: `Number.exists_of_fold_eq_error`.
* Results.  `Arithmetic.IsResult` is the result on integers of any size, for a quotient by
  what it must give back.  `isResult_append_singleton` goes one step further.
* Failures.  `Arithmetic.Fails` says that a step fails, by the result before the step and
  the one after it, and `Arithmetic.FailsFirst` that no earlier step does.
* Steps.  `step_integer_eq_error_iff` is about one step, `step_eq_error_iff` about the step
  after a whole run.
* `call_arithmetic` is the result.
-/

namespace StackScheme

/-! ## Folds -/

namespace Number

variable {op : Number → Number → Except Error Number} {acc : Number}

theorem fold_append (xs ys : List Number) :
    fold op acc (xs ++ ys) = (fold op acc xs).bind fun acc => fold op acc ys := by
  induction xs generalizing acc with
  | nil => rfl
  | cons x xs ih =>
    rw [List.cons_append, fold, fold]
    cases op acc x with
    | ok acc' => exact ih
    | error e => rfl

theorem fold_singleton (x : Number) : fold op acc [x] = op acc x := by
  rw [fold]
  cases op acc x <;> rfl

theorem fold_append_singleton {xs : List Number} {m : Number} (h : fold op acc xs = .ok m)
    (x : Number) : fold op acc (xs ++ [x]) = op m x := by
  rw [fold_append, h]
  exact fold_singleton x

/-- A fold that fails gets through the steps before the one that fails. -/
theorem exists_of_fold_eq_error {xs : List Number} {e : Error} (h : fold op acc xs = .error e) :
    ∃ before x after m, xs = before ++ x :: after ∧ fold op acc before = .ok m ∧
      op m x = .error e := by
  induction xs generalizing acc with
  | nil => cases h
  | cons x xs ih =>
    rw [fold] at h
    cases hx : op acc x with
    | error e' =>
      rw [hx] at h
      cases h
      exact ⟨[], x, xs, acc, rfl, rfl, hx⟩
    | ok acc' =>
      rw [hx] at h
      obtain ⟨before, y, after, m, rfl, hbefore, hy⟩ := ih h
      refine ⟨x :: before, y, after, m, rfl, ?_, hy⟩
      rw [fold, hx]
      exact hbefore

/-- A fold gets through each part of a list that it gets through. -/
theorem exists_of_fold_append_eq_ok {xs ys : List Number} {m : Number}
    (h : fold op acc (xs ++ ys) = .ok m) : ∃ m', fold op acc xs = .ok m' := by
  rw [fold_append] at h
  cases hxs : fold op acc xs with
  | ok m' => exact ⟨m', rfl⟩
  | error e =>
    rw [hxs] at h
    cases h

end Number

/-! ## Results -/

/-- The operations that take any number of numbers and go through them from left to
right. -/
inductive Arithmetic where
  | add
  | subtract
  | multiply
  | divide
  deriving DecidableEq, Repr

namespace Arithmetic

open Integer

/-- The builtin for an operation. -/
def builtin : Arithmetic → Builtin
  | add => .add
  | subtract => .subtract
  | multiply => .multiply
  | divide => .divide

/-- The least number of arguments. -/
def least : Arithmetic → Nat
  | add | multiply => 0
  | subtract | divide => 1

/-- The integer that an operation starts from and the integers that it goes through, for the
given arguments.  A single argument is subtracted from zero, and one is divided by it. -/
def start? : Arithmetic → List Int64 → Option (Int64 × List Int64)
  | add, ns => some (0, ns)
  | multiply, ns => some (1, ns)
  | subtract, [n] => some (0, [n])
  | divide, [n] => some (1, [n])
  | subtract, n :: ns | divide, n :: ns => some (n, ns)
  | subtract, [] | divide, [] => none

/-- What the operation makes of `first` and `rest` on integers of any size.  A quotient
gives back the dividend when it is multiplied with all divisors. -/
def IsResult (op : Arithmetic) (first : Int) (rest : List Int64) (r : Int) : Prop :=
  match op with
  | add => r = first + (rest.map Int64.toInt).sum
  | subtract => r = first - (rest.map Int64.toInt).sum
  | multiply => r = first * (rest.map Int64.toInt).prod
  | divide => (rest.map Int64.toInt).prod ≠ 0 ∧ r * (rest.map Int64.toInt).prod = first

variable {op : Arithmetic} {first m n : Int64} {rest before : List Int64} {e : Error}

theorem isResult_nil {first r : Int} : op.IsResult first [] r ↔ r = first := by
  cases op <;> simp [IsResult]

theorem IsResult.unique {first r r' : Int} (h : op.IsResult first rest r)
    (h' : op.IsResult first rest r') : r = r' := by
  cases op with
  | divide => exact Int.eq_of_mul_eq_mul_right h.1 (h.2.trans h'.2.symm)
  | _ => exact h.trans h'.symm

/-- The result of one more step. -/
theorem isResult_append_singleton {first r : Int} :
    op.IsResult first (rest ++ [n]) r ↔
      ∃ m, op.IsResult first rest m ∧ op.IsResult m [n] r := by
  cases op with
  | add => simp [IsResult, Int.add_assoc]
  | subtract => simp [IsResult, Int.sub_sub]
  | multiply => simp [IsResult, Int.mul_assoc]
  | divide =>
    simp only [IsResult, List.map_append, List.map_cons, List.map_nil, List.prod_append,
      List.prod_singleton, Int.mul_ne_zero_iff]
    constructor
    · rintro ⟨⟨hrest, hn⟩, rfl⟩
      exact ⟨r * n.toInt, ⟨hrest, by rw [Int.mul_assoc, Int.mul_comm n.toInt]⟩, hn, rfl⟩
    · rintro ⟨-, ⟨hrest, rfl⟩, hn, rfl⟩
      exact ⟨⟨hrest, hn⟩, by rw [Int.mul_assoc, Int.mul_comm n.toInt]⟩

/-- Every partial result is an integer of 64 bits. -/
def PartialsFit (op : Arithmetic) (first : Int64) (rest : List Int64) : Prop :=
  ∀ p, p <+: rest → ∃ r, op.IsResult first.toInt p r ∧ Fits r

/-! ## Failures -/

/-- The step to `n`, after the steps to `before`, fails with an error. -/
inductive Fails (op : Arithmetic) (first : Int64) (before : List Int64) (n : Int64) :
    Error → Prop
  | byZero (hop : op = divide) (hn : n = 0) : Fails op first before n .divisionByZero
  /-- The result was an integer of 64 bits and is none after the step. -/
  | overflow {m : Int64} {r : Int} (hm : op.IsResult first.toInt before m.toInt)
    (hr : op.IsResult first.toInt (before ++ [n]) r) (hfits : ¬ Fits r) :
    Fails op first before n (.overflow (.step m op.builtin.name n))

/-- The error of the first step that fails. -/
def FailsFirst (op : Arithmetic) (first : Int64) (rest : List Int64) (e : Error) : Prop :=
  ∃ before n after, rest = before ++ n :: after ∧ op.Fails first before n e ∧
    ∀ p k, p ++ [k] <+: before → ∀ e', ¬ op.Fails first p k e'

theorem not_isResult_zero {first r : Int} : ¬ divide.IsResult first (before ++ [0]) r := by
  simp [IsResult]

theorem Fails.unique {e' : Error} (h : op.Fails first before n e)
    (h' : op.Fails first before n e') : e = e' := by
  cases h with
  | byZero hop hn =>
    cases h' with
    | byZero _ _ => rfl
    | overflow _ hr _ =>
      subst hop hn
      exact absurd hr not_isResult_zero
  | overflow hm hr _ =>
    cases h' with
    | byZero hop hn =>
      subst hop hn
      exact absurd hr not_isResult_zero
    | overflow hm' _ _ => rw [Int64.toInt_inj.1 (hm.unique hm')]

/-- Where a step fails, there is no result of 64 bits. -/
theorem Fails.not_fits (h : op.Fails first before n e) {r : Int}
    (hr : op.IsResult first.toInt (before ++ [n]) r) : ¬ Fits r := by
  cases h with
  | byZero hop hn =>
    subst hop hn
    exact absurd hr not_isResult_zero
  | overflow _ hr' hfits => exact hr.unique hr' ▸ hfits

/-- Whether a step fails depends on the result before it alone. -/
theorem fails_iff (hm : op.IsResult first.toInt before m.toInt) :
    op.Fails first before n e ↔ op.Fails m [] n e := by
  have hnext : ∀ r, op.IsResult first.toInt (before ++ [n]) r ↔ op.IsResult m.toInt [n] r := by
    intro r
    rw [isResult_append_singleton]
    exact ⟨fun ⟨_, hm', hr⟩ => hm.unique hm' ▸ hr, fun hr => ⟨_, hm, hr⟩⟩
  constructor
  · intro h
    cases h with
    | byZero hop hn => exact .byZero hop hn
    | overflow hm' hr hfits =>
      obtain rfl := Int64.toInt_inj.1 (hm.unique hm')
      exact .overflow (isResult_nil.2 rfl) ((hnext _).1 hr) hfits
  · intro h
    cases h with
    | byZero hop hn => exact .byZero hop hn
    | overflow hm' hr hfits =>
      obtain rfl := Int64.toInt_inj.1 (isResult_nil.1 hm')
      exact .overflow hm ((hnext _).2 hr) hfits

/-! ## Steps -/

/-- One step of an operation. -/
def step : Arithmetic → Number → Number → Except Error Number
  | add => Number.add
  | subtract => Number.subtract
  | multiply => Number.multiply
  | divide => Number.divide

/-- A step that is exact on integers of any size has a result or does not fit. -/
theorem step_integer_of_isResult {r : Int} (hr : op.IsResult m.toInt [n] r)
    (hstep : op.step (.integer m) (.integer n) = match toInt64? r with
      | some q => .ok (.integer q)
      | none => .error (.overflow (.step m op.builtin.name n))) :
    (∃ q, op.step (.integer m) (.integer n) = .ok (.integer q) ∧
        op.IsResult m.toInt [n] q.toInt) ∨
      ∃ e, op.step (.integer m) (.integer n) = .error e ∧ op.Fails m [] n e := by
  rw [hstep, toInt64?_eq]
  by_cases hfits : Fits r
  · rw [if_pos hfits]
    refine .inl ⟨_, rfl, ?_⟩
    rwa [toInt_ofInt hfits]
  · rw [if_neg hfits]
    exact .inr ⟨_, rfl, .overflow (isResult_nil.2 rfl) hr hfits⟩

/-- What a step on two integers leads to. -/
theorem step_integer_cases (op : Arithmetic) (m n : Int64) :
    (∃ q, op.step (.integer m) (.integer n) = .ok (.integer q) ∧
        op.IsResult m.toInt [n] q.toInt) ∨
      (∃ x, op.step (.integer m) (.integer n) = .ok (.float x) ∧ n ≠ 0 ∧
        op = divide ∧ ∀ r, ¬ op.IsResult m.toInt [n] r) ∨
      ∃ e, op.step (.integer m) (.integer n) = .error e ∧ op.Fails m [] n e := by
  cases op with
  | add =>
    have hr : add.IsResult m.toInt [n] (m.toInt + n.toInt) := by simp [IsResult]
    exact (step_integer_of_isResult hr rfl).imp_right .inr
  | subtract =>
    have hr : subtract.IsResult m.toInt [n] (m.toInt - n.toInt) := by simp [IsResult]
    exact (step_integer_of_isResult hr rfl).imp_right .inr
  | multiply =>
    have hr : multiply.IsResult m.toInt [n] (m.toInt * n.toInt) := by simp [IsResult]
    exact (step_integer_of_isResult hr rfl).imp_right .inr
  | divide =>
    have hdivides : ∀ r, divide.IsResult m.toInt [n] r ↔ n.toInt ≠ 0 ∧ r * n.toInt = m.toInt := by
      simp [IsResult]
    have hstep : divide.step (.integer m) (.integer n) =
        if n.toInt == 0 then .error .divisionByZero
        else if m.toInt.tmod n.toInt = 0 then
          match toInt64? (m.toInt.tdiv n.toInt) with
          | some r => .ok (.integer r)
          | none => .error (.overflow (.step m "/" n))
        else .ok (.float (Number.toFloat (.integer m) / Number.toFloat (.integer n))) := rfl
    by_cases hn : n.toInt = 0
    · rw [hstep, if_pos (by simpa using hn)]
      exact .inr (.inr ⟨_, rfl, .byZero rfl (Int64.toInt_inj.1 hn)⟩)
    rw [if_neg (by simpa using hn)] at hstep
    by_cases hmod : m.toInt.tmod n.toInt = 0
    · rw [if_pos hmod] at hstep
      have hquotient := (hdivides _).2 ⟨hn, Int.tdiv_mul_cancel (Int.dvd_of_tmod_eq_zero hmod)⟩
      exact (step_integer_of_isResult hquotient hstep).imp_right .inr
    · rw [if_neg hmod] at hstep
      refine .inr (.inl ⟨_, hstep, fun h => hn (Int64.toInt_inj.2 h), rfl, fun r hr => hmod ?_⟩)
      rw [← ((hdivides r).1 hr).2]
      exact Int.mul_tmod_left r n.toInt

theorem step_integer_eq_error_iff :
    op.step (.integer m) (.integer n) = .error e ↔ op.Fails m [] n e := by
  rcases op.step_integer_cases m n with ⟨q, hq, hr⟩ | ⟨x, hx, hn, -, hnone⟩ | ⟨e', he', hfails'⟩
  · rw [hq]
    exact iff_of_false nofun fun hfails => hfails.not_fits hr (fits_toInt q)
  · rw [hx]
    refine iff_of_false nofun fun hfails => ?_
    cases hfails with
    | byZero _ hzero => exact hn hzero
    | overflow _ hr _ => exact hnone _ hr
  · rw [he', Except.error.injEq]
    exact ⟨fun h => h ▸ hfails', fun hfails => hfails'.unique hfails⟩

/-- A step from a floating point number gives another one, except for a division by zero. -/
theorem step_float_cases (op : Arithmetic) (x : Float) (n : Int64) :
    (∃ y, op.step (.float x) (.integer n) = .ok (.float y) ∧ ¬ (op = divide ∧ n = 0)) ∨
      op.step (.float x) (.integer n) = .error .divisionByZero ∧ op = divide ∧ n = 0 := by
  cases op with
  | divide =>
    have hstep : divide.step (.float x) (.integer n) =
        if n.toInt == 0 then .error .divisionByZero
        else .ok (.float (x / Number.toFloat (.integer n))) := rfl
    by_cases hn : n = 0
    · subst hn
      exact .inr ⟨hstep, rfl, rfl⟩
    · have hne : n.toInt ≠ 0 := fun h => hn (Int64.toInt_inj.1 h)
      rw [if_neg (by simpa using hne)] at hstep
      exact .inl ⟨_, hstep, fun h => hn h.2⟩
  | _ => exact .inl ⟨_, rfl, nofun⟩

/-! ## Runs -/

/-- The operation from `first` on through `rest`. -/
def run (op : Arithmetic) (first : Int64) (rest : List Int64) : Except Error Number :=
  Number.fold op.step (.integer first) (rest.map .integer)

/-- What a number says about the results on integers of any size. -/
def Reaches (op : Arithmetic) (first : Int64) (rest : List Int64) : Number → Prop
  | .integer q => op.PartialsFit first rest ∧ op.IsResult first.toInt rest q.toInt
  | .float _ => op = divide ∧ ∀ r, ¬ op.IsResult first.toInt rest r

theorem run_append_singleton {x : Number} (h : op.run first rest = .ok x) (n : Int64) :
    op.run first (rest ++ [n]) = op.step x (.integer n) := by
  rw [run, List.map_append]
  exact Number.fold_append_singleton h (.integer n)

theorem exists_run_eq_ok_of_prefix {p : List Int64} {x : Number}
    (h : op.run first rest = .ok x) (hp : p <+: rest) : ∃ y, op.run first p = .ok y := by
  obtain ⟨after, rfl⟩ := hp
  rw [run, List.map_append] at h
  exact Number.exists_of_fold_append_eq_ok h

theorem PartialsFit.append_singleton (h : op.PartialsFit first rest) {r : Int}
    (hr : op.IsResult first.toInt (rest ++ [n]) r) (hfits : Fits r) :
    op.PartialsFit first (rest ++ [n]) := by
  intro p hp
  rcases List.prefix_concat_iff.1 hp with rfl | hp
  · exact ⟨r, hr, hfits⟩
  · exact h p hp

/-- A run that gets through has the exact result or leaves the integers for good. -/
theorem reaches_of_run {x : Number} (h : op.run first rest = .ok x) : op.Reaches first rest x := by
  induction rest using List.reverseRecOn generalizing x with
  | nil =>
    cases h
    have hnil : op.IsResult first.toInt [] first.toInt := isResult_nil.2 rfl
    refine ⟨fun p hp => ?_, hnil⟩
    rw [List.prefix_nil.1 hp]
    exact ⟨_, hnil, fits_toInt first⟩
  | append_singleton rest n ih =>
    obtain ⟨m, hm⟩ := exists_run_eq_ok_of_prefix h (List.prefix_append rest [n])
    have hreaches := ih hm
    rw [run_append_singleton hm] at h
    cases m with
    | integer m =>
      rcases op.step_integer_cases m n with ⟨q, hq, hr⟩ | ⟨y, hy, -, hop, hnone⟩ | ⟨e, he, -⟩
      · rw [hq] at h
        cases h
        have hr' := isResult_append_singleton.2 ⟨_, hreaches.2, hr⟩
        exact ⟨hreaches.1.append_singleton hr' (fits_toInt q), hr'⟩
      · rw [hy] at h
        cases h
        refine ⟨hop, fun r hr => ?_⟩
        obtain ⟨k, hk, hr⟩ := isResult_append_singleton.1 hr
        exact hnone r (hk.unique hreaches.2 ▸ hr)
      · rw [he] at h
        cases h
    | float x =>
      rcases op.step_float_cases x n with ⟨y, hy, -⟩ | ⟨he, -⟩
      · rw [hy] at h
        cases h
        refine ⟨hreaches.1, fun r hr => ?_⟩
        obtain ⟨k, hk, -⟩ := isResult_append_singleton.1 hr
        exact hreaches.2 k hk
      · rw [he] at h
        cases h

/-- The step after a run fails if the results before it and after it say so. -/
theorem step_eq_error_iff {x : Number} (h : op.run first before = .ok x) :
    op.step x (.integer n) = .error e ↔ op.Fails first before n e := by
  have hreaches := reaches_of_run h
  cases x with
  | integer m => rw [step_integer_eq_error_iff, fails_iff hreaches.2]
  | float x =>
    have hzero : op.Fails first before n e ↔
        e = .divisionByZero ∧ op = divide ∧ n = 0 := by
      constructor
      · intro hfails
        cases hfails with
        | byZero hop hn => exact ⟨rfl, hop, hn⟩
        | overflow hm _ _ => exact absurd hm (hreaches.2 _)
      · rintro ⟨rfl, hop, hn⟩
        exact .byZero hop hn
    rw [hzero]
    rcases op.step_float_cases x n with ⟨y, hy, hne⟩ | ⟨he, hop⟩
    · rw [hy]
      exact iff_of_false nofun fun h => hne h.2
    · rw [he, Except.error.injEq]
      exact ⟨fun h => ⟨h.symm, hop⟩, fun h => h.1.symm⟩

/-- A run gets through if and only if no step fails. -/
theorem exists_run_eq_ok_iff :
    (∃ x, op.run first rest = .ok x) ↔
      ∀ p k, p ++ [k] <+: rest → ∀ e, ¬ op.Fails first p k e := by
  constructor
  · rintro ⟨x, hx⟩ p k hp e hfails
    obtain ⟨y, hy⟩ := exists_run_eq_ok_of_prefix hx hp
    obtain ⟨m, hm⟩ := exists_run_eq_ok_of_prefix hx ((List.prefix_append p [k]).trans hp)
    rw [run_append_singleton hm, (step_eq_error_iff hm).2 hfails] at hy
    cases hy
  · intro hnone
    cases hrun : op.run first rest with
    | ok x => exact ⟨x, rfl⟩
    | error e =>
      obtain ⟨before, x, after, m, hsplit, hm, he⟩ := Number.exists_of_fold_eq_error hrun
      obtain ⟨p, tail, rfl, rfl, htail⟩ := List.map_eq_append_iff.1 hsplit
      obtain ⟨k, after', rfl, rfl, -⟩ := List.map_eq_cons_iff.1 htail
      exact absurd ((step_eq_error_iff hm).1 he) (hnone p k ⟨after', by simp⟩ e)

theorem run_eq_error_iff : op.run first rest = .error e ↔ op.FailsFirst first rest e := by
  constructor
  · intro h
    obtain ⟨before, x, after, m, hsplit, hm, he⟩ := Number.exists_of_fold_eq_error h
    obtain ⟨p, tail, rfl, rfl, htail⟩ := List.map_eq_append_iff.1 hsplit
    obtain ⟨k, after', rfl, rfl, -⟩ := List.map_eq_cons_iff.1 htail
    exact ⟨p, k, after', rfl, (step_eq_error_iff hm).1 he, exists_run_eq_ok_iff.1 ⟨m, hm⟩⟩
  · rintro ⟨before, n, after, rfl, hfails, hnone⟩
    obtain ⟨m, hm⟩ := exists_run_eq_ok_iff.2 hnone
    have hstep := (step_eq_error_iff hm).2 hfails
    rw [run, List.map_append, List.map_cons, Number.fold_append]
    show (op.run first before).bind _ = _
    rw [hm, Except.bind, Number.fold, hstep]

theorem run_eq_integer_iff {q : Int64} :
    op.run first rest = .ok (.integer q) ↔
      op.PartialsFit first rest ∧ op.IsResult first.toInt rest q.toInt := by
  refine ⟨fun h => reaches_of_run h, fun ⟨hfits, hresult⟩ => ?_⟩
  obtain ⟨x, hx⟩ := exists_run_eq_ok_iff.2 fun p k hp e hfails => by
    obtain ⟨r, hr, hr'⟩ := hfits _ hp
    exact hfails.not_fits hr hr'
  have hreaches := reaches_of_run hx
  cases x with
  | integer q' => rw [hx, Int64.toInt_inj.1 (hreaches.2.unique hresult)]
  | float x => exact absurd hresult (hreaches.2 _)

/-! ## Calls -/

/-- The operation on a list of numbers, of whatever kind they are. -/
def compute : Arithmetic → List Number → Except Error Number
  | add => Number.fold Number.add (.integer 0)
  | multiply => Number.fold Number.multiply (.integer 1)
  | subtract => Number.foldFromFirst Number.subtract (.integer 0)
  | divide => Number.foldFromFirst Number.divide (.integer 1)

theorem call_eq (op : Arithmetic) {args : List Value} (h : op.least ≤ args.length) :
    op.builtin.call args = op.builtin.arithmetic op.compute args := by
  have hadmits : op.builtin.arity.admits args.length = true := by
    cases op <;> exact decide_eq_true h
  rw [Builtin.call, if_pos hadmits]
  cases op <;> rfl

theorem compute_integers {ns : List Int64} (h : op.start? ns = some (first, rest)) :
    op.compute (ns.map .integer) = op.run first rest := by
  cases op with
  | add | multiply =>
    cases h
    rfl
  | subtract | divide =>
    match ns, h with
    | [n], h =>
      cases h
      rw [run, List.map_cons, List.map_nil, Number.fold_singleton]
      rfl
    | n :: n' :: ns, h =>
      cases h
      rfl

theorem exists_start?_eq (op : Arithmetic) {ns : List Int64} (h : op.least ≤ ns.length) :
    ∃ first rest, op.start? ns = some (first, rest) := by
  cases op with
  | add | multiply => exact ⟨_, _, rfl⟩
  | subtract | divide =>
    match ns, h with
    | [n], _ => exact ⟨_, _, rfl⟩
    | n :: n' :: ns, _ => exact ⟨_, _, rfl⟩

/-- A step with an operand that is no integer gives no integer. -/
theorem step_ne_integer {a b : Number} (hfloat : (∃ x, a = .float x) ∨ ∃ y, b = .float y)
    (q : Int64) : op.step a b ≠ .ok (.integer q) := by
  cases op with
  | divide =>
    have hstep : divide.step a b =
        if b.isZero then .error .divisionByZero else .ok (.float (a.toFloat / b.toFloat)) := by
      rcases hfloat with ⟨x, rfl⟩ | ⟨y, rfl⟩
      · rfl
      · cases a <;> rfl
    rw [hstep]
    split <;> nofun
  | _ =>
    rcases hfloat with ⟨x, rfl⟩ | ⟨y, rfl⟩
    · nofun
    · cases a <;> nofun

/-- An integer comes from integers alone. -/
theorem exists_of_step_eq_integer {a b : Number} {q : Int64}
    (h : op.step a b = .ok (.integer q)) : ∃ m n, a = .integer m ∧ b = .integer n := by
  cases a with
  | float x => exact absurd h (step_ne_integer (.inl ⟨x, rfl⟩) q)
  | integer m =>
    cases b with
    | float y => exact absurd h (step_ne_integer (.inr ⟨y, rfl⟩) q)
    | integer n => exact ⟨m, n, rfl, rfl⟩

theorem exists_of_fold_eq_integer {acc : Number} {xs : List Number} {q : Int64}
    (h : Number.fold op.step acc xs = .ok (.integer q)) :
    ∃ (m : Int64) (ns : List Int64), acc = .integer m ∧ xs = ns.map .integer := by
  induction xs generalizing acc with
  | nil =>
    cases h
    exact ⟨q, [], rfl, rfl⟩
  | cons x xs ih =>
    rw [Number.fold] at h
    cases hx : op.step acc x with
    | error e =>
      rw [hx] at h
      cases h
    | ok acc' =>
      rw [hx] at h
      obtain ⟨k, ns, rfl, rfl⟩ := ih h
      obtain ⟨m, n, rfl, rfl⟩ := exists_of_step_eq_integer hx
      exact ⟨m, n :: ns, rfl, rfl⟩

theorem exists_of_foldFromFirst_eq_integer {unit : Number} {xs : List Number} {q : Int64}
    (h : Number.foldFromFirst op.step unit xs = .ok (.integer q)) :
    ∃ ns : List Int64, xs = ns.map .integer := by
  match xs, h with
  | [], _ => exact ⟨[], rfl⟩
  | [x], h =>
    obtain ⟨m, n, -, rfl⟩ := exists_of_step_eq_integer h
    exact ⟨[n], rfl⟩
  | x :: y :: xs, h =>
    obtain ⟨m, ns, rfl, hxs⟩ := exists_of_fold_eq_integer h
    exact ⟨m :: ns, by rw [hxs, List.map_cons]⟩

theorem exists_of_compute_eq_integer {xs : List Number} {q : Int64}
    (h : op.compute xs = .ok (.integer q)) : ∃ ns : List Int64, xs = ns.map .integer := by
  cases op with
  | add =>
    have hfold : Number.fold add.step (.integer 0) xs = .ok (.integer q) := h
    obtain ⟨-, ns, -, hxs⟩ := exists_of_fold_eq_integer hfold
    exact ⟨ns, hxs⟩
  | multiply =>
    have hfold : Number.fold multiply.step (.integer 1) xs = .ok (.integer q) := h
    obtain ⟨-, ns, -, hxs⟩ := exists_of_fold_eq_integer hfold
    exact ⟨ns, hxs⟩
  | subtract =>
    have hfold : Number.foldFromFirst subtract.step (.integer 0) xs = .ok (.integer q) := h
    exact exists_of_foldFromFirst_eq_integer hfold
  | divide =>
    have hfold : Number.foldFromFirst divide.step (.integer 1) xs = .ok (.integer q) := h
    exact exists_of_foldFromFirst_eq_integer hfold

/-! ## Arguments -/

theorem checkAll_map_value (b : Builtin) (xs : List Number) :
    Builtin.checkAll b.number (xs.map Number.value) = .ok xs := by
  induction xs with
  | nil => rfl
  | cons x xs ih =>
    cases x <;> rw [List.map_cons, Builtin.checkAll, Number.value, Builtin.number, ih]

theorem eq_map_value_of_checkAll {b : Builtin} {args : List Value} {xs : List Number}
    (h : Builtin.checkAll b.number args = .ok xs) : args = xs.map Number.value := by
  induction args generalizing xs with
  | nil =>
    cases h
    rfl
  | cons v vs ih =>
    rw [Builtin.checkAll] at h
    split at h
    · cases h
    · rename_i x hx
      split at h
      · cases h
      · rename_i ys hys
        cases h
        have hv : v = x.value := by
          cases v with
          | integer n | float y =>
            cases hx
            rfl
          | _ => cases hx
        rw [hv, ih hys, List.map_cons]

theorem call_of_lt_least (op : Arithmetic) {args : List Value} (h : args.length < op.least) :
    op.builtin.call args = .error (.arity op.builtin.name (.atLeast op.least) args.length) := by
  cases op with
  | add | multiply => exact absurd h (Nat.not_lt_zero _)
  | subtract | divide =>
    obtain rfl := List.eq_nil_of_length_eq_zero (Nat.lt_one_iff.1 h)
    rfl

/-- The first argument that is no number is the one that is reported. -/
theorem call_append_of_ne_value (op : Arithmetic) (xs : List Number) {v : Value}
    (hv : ∀ x : Number, v ≠ x.value) (after : List Value) :
    op.builtin.call (xs.map Number.value ++ v :: after) =
      .error (.wrongOperand op.builtin .numbers v) := by
  have hleast : op.least ≤ (xs.map Number.value ++ v :: after).length := by
    have hone : op.least ≤ 1 := by cases op <;> decide
    rw [List.length_append, List.length_cons]
    omega
  have hrefused : op.builtin.number v = .error (.wrongOperand op.builtin .numbers v) := by
    cases v with
    | integer n => exact absurd rfl (hv (.integer n))
    | float x => exact absurd rfl (hv (.float x))
    | _ => rfl
  rw [op.call_eq hleast, Builtin.arithmetic,
    Builtin.checkAll_append_of_error (checkAll_map_value op.builtin xs) hrefused after]

theorem call_integers {ns : List Int64} (h : op.start? ns = some (first, rest)) :
    op.builtin.call (ns.map .integer) =
      (op.run first rest).map fun x => .value x.value := by
  have hleast : op.least ≤ (ns.map Value.integer).length := by
    cases op with
    | add | multiply => exact Nat.zero_le _
    | subtract | divide =>
      cases ns with
      | nil => cases h
      | cons n ns => simp [least]
  have hvalues : ns.map Value.integer = (ns.map Number.integer).map Number.value := by
    rw [List.map_map]
    rfl
  rw [op.call_eq hleast, Builtin.arithmetic, hvalues, checkAll_map_value, ← compute_integers h]

theorem call_eq_integer_iff {ns : List Int64} (h : op.start? ns = some (first, rest))
    {q : Int64} :
    op.builtin.call (ns.map .integer) = .ok (.value (.integer q)) ↔
      op.PartialsFit first rest ∧ op.IsResult first.toInt rest q.toInt := by
  rw [call_integers h, ← run_eq_integer_iff]
  cases op.run first rest with
  | error e => exact iff_of_false nofun nofun
  | ok x => cases x <;> simp [Except.map, Number.value]

theorem call_eq_error_iff {ns : List Int64} (h : op.start? ns = some (first, rest)) :
    op.builtin.call (ns.map .integer) = .error e ↔ op.FailsFirst first rest e := by
  rw [call_integers h, ← run_eq_error_iff]
  cases op.run first rest <;> simp [Except.map]

/-- Integers give an integer, a quotient that is none, or an error. -/
theorem reply_of_call_integers {ns : List Int64} (h : op.start? ns = some (first, rest))
    {reply : Builtin.Reply} (hreply : op.builtin.call (ns.map .integer) = .ok reply) :
    (∃ q, reply = .value (.integer q)) ∨ op = divide ∧ ∃ x, reply = .value (.float x) := by
  rw [call_integers h] at hreply
  cases hrun : op.run first rest with
  | error e =>
    rw [hrun] at hreply
    cases hreply
  | ok x =>
    rw [hrun] at hreply
    cases hreply
    cases x with
    | integer q => exact .inl ⟨q, rfl⟩
    | float x => exact .inr ⟨(reaches_of_run hrun).1, x, rfl⟩

/-- All arguments are integers if the result is one. -/
theorem exists_of_call_eq_integer {args : List Value} {q : Int64}
    (h : op.builtin.call args = .ok (.value (.integer q))) :
    op.least ≤ args.length ∧ ∃ ns : List Int64, args = ns.map .integer := by
  have hleast : op.least ≤ args.length := by
    refine Nat.le_of_not_lt fun hlt => ?_
    rw [op.call_of_lt_least hlt] at h
    cases h
  refine ⟨hleast, ?_⟩
  rw [op.call_eq hleast, Builtin.arithmetic] at h
  split at h
  · cases h
  · rename_i xs hxs
    cases hcompute : op.compute xs with
    | error e =>
      rw [hcompute] at h
      cases h
    | ok x =>
      rw [hcompute] at h
      cases x with
      | integer q' =>
        obtain ⟨ns, rfl⟩ := exists_of_compute_eq_integer hcompute
        refine ⟨ns, ?_⟩
        rw [eq_map_value_of_checkAll hxs, List.map_map]
        rfl
      | float y => cases h

/-- `+`, `-`, `*` and `/` of any number of arguments.

Too few arguments are refused first, then the first argument that is no number.  Integers are
gone through from left to right.  The result is an integer if and only if every partial result
is an integer of 64 bits, and then it is the exact one.  There is an error if and only if some
step fails, and it is that of the first step that does: a division by zero, or a step from an
integer of 64 bits to one that does not fit.  What remains are quotients that are no integers.
Whatever the arguments are, an integer that comes out is exact. -/
theorem call_arithmetic (op : Arithmetic) :
    (∀ args : List Value, args.length < op.least →
      op.builtin.call args =
        .error (.arity op.builtin.name (.atLeast op.least) args.length)) ∧
    (∀ (xs : List Number) (v : Value) (after : List Value), (∀ x : Number, v ≠ x.value) →
      op.builtin.call (xs.map Number.value ++ v :: after) =
        .error (.wrongOperand op.builtin .numbers v)) ∧
    (∀ ns : List Int64, op.least ≤ ns.length →
      ∃ first rest, op.start? ns = some (first, rest) ∧
        (∀ q : Int64, op.builtin.call (ns.map .integer) = .ok (.value (.integer q)) ↔
          op.PartialsFit first rest ∧ op.IsResult first.toInt rest q.toInt) ∧
        (∀ e, op.builtin.call (ns.map .integer) = .error e ↔ op.FailsFirst first rest e) ∧
        ∀ reply, op.builtin.call (ns.map .integer) = .ok reply →
          (∃ q, reply = .value (.integer q)) ∨ op = divide ∧ ∃ x, reply = .value (.float x)) ∧
    ∀ (args : List Value) (q : Int64), op.builtin.call args = .ok (.value (.integer q)) →
      ∃ ns first rest, args = ns.map .integer ∧ op.start? ns = some (first, rest) ∧
        op.IsResult first.toInt rest q.toInt := by
  refine ⟨fun args => op.call_of_lt_least,
    fun xs v after hv => op.call_append_of_ne_value xs hv after,
    fun ns hns => ?_, fun args q hq => ?_⟩
  · obtain ⟨first, rest, hstart⟩ := op.exists_start?_eq hns
    exact ⟨first, rest, hstart, fun q => call_eq_integer_iff hstart,
      fun e => call_eq_error_iff hstart, fun reply => reply_of_call_integers hstart⟩
  · obtain ⟨hleast, ns, rfl⟩ := exists_of_call_eq_integer hq
    rw [List.length_map] at hleast
    obtain ⟨first, rest, hstart⟩ := op.exists_start?_eq hleast
    exact ⟨ns, first, rest, rfl, hstart, ((call_eq_integer_iff hstart).1 hq).2⟩

/-- The negation of the least integer is the step from zero to it, which does not fit. -/
example : Builtin.subtract.call [.integer Int64.minValue] =
    .error (.overflow (.step 0 "-" Int64.minValue)) := rfl

end Arithmetic

end StackScheme
