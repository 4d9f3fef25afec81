import StackScheme.Builtin

/-!
# Division of integers

`quotient`, `remainder` and `modulo` of two 64-bit integers, against the operations on
integers of any size.

* Replies.  `Integer.Fits` are the integers that 64 bits hold.  `Builtin.replyOf` is the
  reply of a builtin whose result is a given integer: the integer if it fits, an overflow
  otherwise.
* Arguments.  `checkAll_map_integer` says what the check of the arguments makes of integers,
  and `checkAll_append_of_error` what it makes of the first argument that does not pass.
* Quotients.  `fits_tdiv_iff` finds the only quotient that does not fit.
* Remainders.  `Integer.IsRemainder` is a number congruent to the dividend, below the
  divisor in magnitude and with a prescribed sign.  `IsRemainder.correct` is the correction
  step that changes the sign.
* `call_division` is the result.
-/

namespace StackScheme

/-! ## Replies -/

/-- The integers that 64 bits hold. -/
def Integer.Fits (n : Int) : Prop :=
  Int64.minValue.toInt ≤ n ∧ n ≤ Int64.maxValue.toInt

instance : DecidablePred Integer.Fits :=
  fun n => inferInstanceAs (Decidable (Int64.minValue.toInt ≤ n ∧ n ≤ Int64.maxValue.toInt))

theorem Integer.fits_iff (n : Int) :
    Integer.Fits n ↔ -9223372036854775808 ≤ n ∧ n ≤ 9223372036854775807 :=
  Iff.rfl

theorem Integer.fits_toInt (n : Int64) : Integer.Fits n.toInt :=
  ⟨n.minValue_le_toInt, n.toInt_le⟩

theorem Integer.toInt_ofInt {n : Int} (h : Integer.Fits n) : (Int64.ofInt n).toInt = n := by
  rw [Integer.fits_iff] at h
  exact Int64.toInt_ofInt_of_le (by omega) (by omega)

theorem toInt64?_eq (n : Int) :
    toInt64? n = if Integer.Fits n then some (.ofInt n) else none := by
  by_cases h : Integer.Fits n
  · rw [if_pos h, toInt64?_eq_some_iff]
    exact Integer.toInt_ofInt h
  · rw [if_neg h, Option.eq_none_iff_forall_ne_some]
    intro word hword
    rw [toInt64?_eq_some_iff] at hword
    exact h (hword ▸ Integer.fits_toInt word)

namespace Builtin

/-- The reply of a builtin whose result is the integer `n`. -/
def replyOf (b : Builtin) (n : Int) : Except Error Reply :=
  if Integer.Fits n then .ok (.value (.integer (.ofInt n)))
  else .error (.overflow (.operation b))

theorem replyOf_eq_overflow_iff (b : Builtin) (n : Int) :
    b.replyOf n = .error (.overflow (.operation b)) ↔ ¬ Integer.Fits n := by
  by_cases h : Integer.Fits n <;> simp [replyOf, h]

/-- Looking for the 64-bit integer of a result gives the reply. -/
theorem match_toInt64?_eq (b : Builtin) (n : Int) :
    (match toInt64? n with
      | some r => .ok (.value (.integer r))
      | none => .error (.overflow (.operation b))) = b.replyOf n := by
  rw [toInt64?_eq, replyOf]
  by_cases h : Integer.Fits n
  · rw [if_pos h, if_pos h]
  · rw [if_neg h, if_neg h]

/-! ## Arguments -/

theorem checkAll_map_integer (b : Builtin) (ns : List Int64) :
    checkAll b.integer (ns.map .integer) = .ok ns := by
  induction ns with
  | nil => rfl
  | cons n ns ih => rw [List.map_cons, checkAll, integer, ih]

/-- The first argument that does not pass the check is the one that is reported. -/
theorem checkAll_append_of_error {α : Type} {check : Value → Except Error α} {vs : List Value}
    {as : List α} (hvs : checkAll check vs = .ok as) {v : Value} {e : Error}
    (hv : check v = .error e) (rest : List Value) :
    checkAll check (vs ++ v :: rest) = .error e := by
  induction vs generalizing as with
  | nil => rw [List.nil_append, checkAll, hv]
  | cons u vs ih =>
    rw [checkAll] at hvs
    rw [List.cons_append, checkAll]
    cases hu : check u with
    | error e' =>
      rw [hu] at hvs
      cases hvs
    | ok a =>
      rw [hu] at hvs
      cases hrest : checkAll check vs with
      | error e' =>
        rw [hrest] at hvs
        cases hvs
      | ok as' =>
        dsimp only
        rw [ih hrest]

theorem checkAll_append_of_ne_integer (b : Builtin) (ns : List Int64) {v : Value}
    (hv : ∀ n, v ≠ .integer n) (rest : List Value) :
    checkAll b.integer (ns.map .integer ++ v :: rest) =
      .error (.wrongOperand b .integers v) := by
  refine checkAll_append_of_error (checkAll_map_integer b ns) ?_ rest
  cases v with
  | integer n => exact absurd rfl (hv n)
  | _ => rfl

/-- A division by a number that is not zero overflows where it has no result. -/
theorem integerDivision_of_ne_zero (b : Builtin) (divide : Int64 → Int64 → Option Int64)
    (m : Int64) {n : Int64} (hn : n.toInt ≠ 0) :
    b.integerDivision divide [.integer m, .integer n] =
      match divide m n with
      | some r => .ok (.value (.integer r))
      | none => .error (.overflow (.operation b)) := by
  have hcheck : checkAll b.integer [.integer m, .integer n] = .ok [m, n] :=
    checkAll_map_integer b [m, n]
  rw [integerDivision, hcheck]
  exact if_neg hn

end Builtin

namespace Integer

/-! ## Quotients -/

theorem toInt_eq_min_iff (a : Int64) :
    a.toInt = -9223372036854775808 ↔ a = Int64.minValue :=
  Int64.toInt_inj (y := Int64.minValue)

theorem toInt_eq_neg_one_iff (b : Int64) : b.toInt = -1 ↔ b = -1 :=
  Int64.toInt_inj (y := -1)

/-- The quotient toward zero fits unless it is that of the least integer and `-1`. -/
theorem fits_tdiv_iff (a : Int64) {b : Int64} (hb : b.toInt ≠ 0) :
    Fits (a.toInt.tdiv b.toInt) ↔ ¬ (a = Int64.minValue ∧ b = -1) := by
  rw [← toInt_eq_min_iff, ← toInt_eq_neg_one_iff]
  have ha := fits_toInt a
  generalize a.toInt = m at *
  generalize b.toInt = n at *
  rw [fits_iff] at ha ⊢
  constructor
  · rintro ⟨-, hlt⟩ ⟨rfl, rfl⟩
    exact absurd hlt (by decide)
  · intro hcorner
    -- A divisor of magnitude 1 keeps the magnitude, any other divisor halves it at least.
    by_cases hunit : n.natAbs = 1
    · obtain rfl | rfl : n = 1 ∨ n = -1 := by omega
      · rwa [Int.tdiv_one]
      · rw [Int.tdiv_neg, Int.tdiv_one]
        omega
    · have hhalf : m.natAbs / n.natAbs ≤ m.natAbs / 2 :=
        Nat.div_le_div_left (by omega) (by decide)
      have hquotient : (m.tdiv n).natAbs = m.natAbs / n.natAbs := Int.natAbs_tdiv m n
      omega

/-! ## Remainders -/

/-- A number that is congruent to `a`, below `b` in magnitude and, if it is not zero, of
the same sign as `s`. -/
structure IsRemainder (a b s r : Int) : Prop where
  dvd : b ∣ a - r
  lt : r.natAbs < b.natAbs
  sign : r ≠ 0 → r.sign = s.sign

/-- What the quotient toward zero leaves has the sign of the dividend. -/
theorem isRemainder_tmod (a : Int) {b : Int} (hb : b ≠ 0) :
    IsRemainder a b a (a.tmod b) where
  dvd := ⟨a.tdiv b, by have := Int.mul_tdiv_add_tmod a b; omega⟩
  lt := by
    rw [Int.natAbs_tmod]
    exact Nat.mod_lt _ (by omega)
  sign := by
    intro hne
    have hsign := Int.sign_tmod a b
    split at hsign
    · exact absurd (Int.sign_eq_zero_iff_zero.1 hsign) hne
    · exact hsign

/-- A remainder by a number that fits is a number that fits. -/
theorem IsRemainder.fits {a b s r : Int} (h : IsRemainder a b s r) (hb : Fits b) : Fits r := by
  have hlt := h.lt
  rw [fits_iff] at hb ⊢
  omega

/-- Adding the divisor to a remainder of the other sign gives the remainder with the sign
of the divisor. -/
theorem IsRemainder.correct {a b s r : Int} (h : IsRemainder a b s r) :
    IsRemainder a b b (if r ≠ 0 ∧ (r < 0 ↔ ¬ b < 0) then r + b else r) := by
  have hlt := h.lt
  split
  case isTrue hopposite =>
    refine ⟨?_, by omega, fun _ => ?_⟩
    · rw [← Int.sub_sub]
      exact Int.dvd_sub h.dvd (Int.dvd_refl b)
    · by_cases hb : b < 0
      · rw [Int.sign_eq_neg_one_of_neg hb, Int.sign_eq_neg_one_of_neg (by omega)]
      · rw [Int.sign_eq_one_of_pos (by omega : 0 < b), Int.sign_eq_one_of_pos (by omega)]
  case isFalse hsame =>
    refine ⟨h.dvd, hlt, fun hne => ?_⟩
    by_cases hb : b < 0
    · rw [Int.sign_eq_neg_one_of_neg hb, Int.sign_eq_neg_one_of_neg (by omega)]
    · rw [Int.sign_eq_one_of_pos (by omega : 0 < b), Int.sign_eq_one_of_pos (by omega)]

theorem quotient?_eq (a b : Int64) :
    quotient? a b =
      if Fits (a.toInt.tdiv b.toInt) then some (.ofInt (a.toInt.tdiv b.toInt)) else none :=
  toInt64?_eq _

/-- The remainder fits, but it is given only where the quotient fits too. -/
theorem remainder?_eq (a : Int64) {b : Int64} (hb : b.toInt ≠ 0) :
    remainder? a b =
      if Fits (a.toInt.tdiv b.toInt) then some (.ofInt (a.toInt.tmod b.toInt)) else none := by
  have hfits := (isRemainder_tmod a.toInt hb).fits (fits_toInt b)
  rw [remainder?, quotient?_eq, toInt64?_eq, if_pos hfits]
  split <;> rfl

/-- The correction of a remainder stays within 64 bits, since the signs differ. -/
theorem toInt_correct (b r : Int64) :
    (if r.toInt ≠ 0 ∧ (r.toInt < 0 ↔ ¬ b.toInt < 0) then r + b else r).toInt =
      if r.toInt ≠ 0 ∧ (r.toInt < 0 ↔ ¬ b.toInt < 0) then r.toInt + b.toInt else r.toInt := by
  have hb := (fits_iff _).1 (fits_toInt b)
  have hr := (fits_iff _).1 (fits_toInt r)
  split
  case isTrue hopposite =>
    rw [Int64.toInt_add, Int.bmod_eq_of_le (by omega) (by omega)]
  case isFalse => rfl

/-- The corrected remainder has the sign of the divisor. -/
theorem exists_modulo?_eq {a b r : Int64} {s : Int} (h : remainder? a b = some r)
    (hr : IsRemainder a.toInt b.toInt s r.toInt) :
    ∃ m, modulo? a b = some m ∧ IsRemainder a.toInt b.toInt b.toInt m.toInt := by
  rw [modulo?, h, Option.map_some]
  refine ⟨_, rfl, ?_⟩
  rw [toInt_correct]
  exact hr.correct

end Integer

/-! ## Calls -/

namespace Builtin

open Integer

theorem call_quotient (a : Int64) {b : Int64} (hb : b.toInt ≠ 0) :
    quotient.call [.integer a, .integer b] = quotient.replyOf (a.toInt.tdiv b.toInt) := by
  have hcall : quotient.call [.integer a, .integer b] =
      quotient.integerDivision quotient? [.integer a, .integer b] := rfl
  rw [hcall, integerDivision_of_ne_zero _ _ _ hb, ← match_toInt64?_eq]
  rfl

theorem call_remainder (a : Int64) {b : Int64} (hb : b.toInt ≠ 0) :
    remainder.call [.integer a, .integer b] =
      if Fits (a.toInt.tdiv b.toInt) then
        .ok (.value (.integer (.ofInt (a.toInt.tmod b.toInt))))
      else .error (.overflow (.operation remainder)) := by
  have hcall : remainder.call [.integer a, .integer b] =
      remainder.integerDivision remainder? [.integer a, .integer b] := rfl
  rw [hcall, integerDivision_of_ne_zero _ _ _ hb, remainder?_eq a hb]
  by_cases h : Fits (a.toInt.tdiv b.toInt)
  · rw [if_pos h, if_pos h]
  · rw [if_neg h, if_neg h]

theorem call_modulo (a : Int64) {b : Int64} (hb : b.toInt ≠ 0) :
    modulo.call [.integer a, .integer b] =
      match modulo? a b with
      | some m => .ok (.value (.integer m))
      | none => .error (.overflow (.operation modulo)) :=
  integerDivision_of_ne_zero modulo modulo? a hb

/-- Where the quotient does not fit, all three builtins overflow. -/
theorem call_eq_overflow {a b : Int64} (hb : b.toInt ≠ 0)
    (hnot : ¬ Fits (a.toInt.tdiv b.toInt)) :
    ∀ op ∈ [quotient, remainder, modulo],
      op.call [.integer a, .integer b] = .error (.overflow (.operation op)) := by
  have hmodulo : modulo? a b = none := by
    rw [modulo?, remainder?_eq a hb, if_neg hnot, Option.map_none]
  intro op hop
  simp only [List.mem_cons, List.not_mem_nil, or_false] at hop
  rcases hop with rfl | rfl | rfl
  · rw [call_quotient a hb, replyOf, if_neg hnot]
  · rw [call_remainder a hb, if_neg hnot]
  · rw [call_modulo a hb, hmodulo]

/-- Where the quotient fits, there are both remainders. -/
theorem exists_call_eq_remainders {a b : Int64} (hb : b.toInt ≠ 0)
    (hfits : Fits (a.toInt.tdiv b.toInt)) :
    ∃ r m : Int64,
      remainder.call [.integer a, .integer b] = .ok (.value (.integer r)) ∧
      r.toInt = a.toInt - a.toInt.tdiv b.toInt * b.toInt ∧
      IsRemainder a.toInt b.toInt a.toInt r.toInt ∧
      modulo.call [.integer a, .integer b] = .ok (.value (.integer m)) ∧
      IsRemainder a.toInt b.toInt b.toInt m.toInt := by
  have hremainder := isRemainder_tmod a.toInt hb
  have htoInt := toInt_ofInt (hremainder.fits (fits_toInt b))
  rw [← htoInt] at hremainder
  obtain ⟨m, hmodulo, hm⟩ :=
    exists_modulo?_eq (by rw [remainder?_eq a hb, if_pos hfits]) hremainder
  refine ⟨_, m, by rw [call_remainder a hb, if_pos hfits], ?_, hremainder,
    by rw [call_modulo a hb, hmodulo], hm⟩
  rw [htoInt, Int.tmod_def, Int.mul_comm]

/-- Division of two 64-bit integers.

By zero there is no division.  Otherwise `quotient` is the quotient toward zero, or an
overflow where this does not fit, which happens for the least integer and `-1` alone.
`remainder` is what the quotient leaves and has the sign of the dividend, and `modulo` is
congruent to it and has the sign of the divisor; the two overflow where the quotient does,
although their results would fit. -/
theorem call_division (a b : Int64) :
    (b = 0 → ∀ op ∈ [quotient, remainder, modulo],
      op.call [.integer a, .integer b] = .error .divisionByZero) ∧
    (b ≠ 0 →
      quotient.call [.integer a, .integer b] = quotient.replyOf (a.toInt.tdiv b.toInt) ∧
      (∀ op ∈ [quotient, remainder, modulo],
        op.call [.integer a, .integer b] = .error (.overflow (.operation op)) ↔
          a = Int64.minValue ∧ b = -1) ∧
      (¬ (a = Int64.minValue ∧ b = -1) → ∃ r m : Int64,
        remainder.call [.integer a, .integer b] = .ok (.value (.integer r)) ∧
        r.toInt = a.toInt - a.toInt.tdiv b.toInt * b.toInt ∧
        IsRemainder a.toInt b.toInt a.toInt r.toInt ∧
        modulo.call [.integer a, .integer b] = .ok (.value (.integer m)) ∧
        IsRemainder a.toInt b.toInt b.toInt m.toInt)) := by
  refine ⟨?_, fun hne => ?_⟩
  · rintro rfl op hop
    simp only [List.mem_cons, List.not_mem_nil, or_false] at hop
    rcases hop with rfl | rfl | rfl <;> rfl
  · have hb : b.toInt ≠ 0 := fun h => hne (Int64.toInt_inj.1 h)
    have hfits := fits_tdiv_iff a hb
    by_cases hcorner : a = Int64.minValue ∧ b = -1
    · have hover := call_eq_overflow hb fun h => hfits.1 h hcorner
      exact ⟨call_quotient a hb, fun op hop => iff_of_true (hover op hop) hcorner,
        fun h => absurd hcorner h⟩
    · have hok := hfits.2 hcorner
      obtain ⟨r, m, hr, htoInt, hremainder, hm, hmodulo⟩ := exists_call_eq_remainders hb hok
      have hq := call_quotient a hb
      refine ⟨hq, fun op hop => iff_of_false ?_ hcorner,
        fun _ => ⟨r, m, hr, htoInt, hremainder, hm, hmodulo⟩⟩
      rw [replyOf, if_pos hok] at hq
      simp only [List.mem_cons, List.not_mem_nil, or_false] at hop
      rcases hop with rfl | rfl | rfl
      · simp [hq]
      · simp [hr]
      · simp [hm]

/-- The remainders of the least integer by `-1` are reported as overflows although both
are zero. -/
theorem not_forall_overflow_iff :
    ¬ ∀ (a b : Int64) (r m : Int), b ≠ 0 →
      IsRemainder a.toInt b.toInt a.toInt r → IsRemainder a.toInt b.toInt b.toInt m →
        (remainder.call [.integer a, .integer b] =
            .error (.overflow (.operation remainder)) ↔ ¬ Fits r) ∧
          (modulo.call [.integer a, .integer b] =
            .error (.overflow (.operation modulo)) ↔ ¬ Fits m) := by
  intro h
  have hzero : ∀ s, IsRemainder Int64.minValue.toInt (-1 : Int64).toInt s 0 := fun s =>
    ⟨⟨9223372036854775808, by decide⟩, by decide, fun h => absurd rfl h⟩
  have hover := (h Int64.minValue (-1) 0 0 (by decide) (hzero _) (hzero _)).1
  exact hover.1 rfl (by decide)

end Builtin

end StackScheme
