import StackScheme.Proofs.Builtin.Division

/-!
# Common divisors and common multiples

`gcd` and `lcm` of any number of integers.

* Divisors and multiples.  `IsGcd` and `IsLcm` are the greatest common divisor and the
  least common multiple of a list, by what they divide.  They depend on the members of the
  list alone, and so not on their order.
* Magnitudes.  The two builtins compute on the magnitudes of their arguments, which are at
  most `2 ^ 63`.
* Divisors.  `euclid_eq_gcd` says that Euclid's algorithm is right, `isGcd_gcd` that the
  builtin's fold is, and `IsGcd.eq_min_iff` which arguments have a divisor that does not
  fit.  `call_gcd` is the result.
* Multiples.  The fold of `lcm` stops at the first step that needs more than 64 bits, and
  `lcm?_eq` says that this depends on the arguments before the first zero.  `call_lcm` is
  the result: the least common multiple in any order if no argument is zero, or if the
  multiple of the other arguments fits.
-/

namespace StackScheme.Integer

/-! ## Divisors and multiples -/

/-- The common divisors of the numbers are the divisors of `d`. -/
def IsGcd (ns : List Nat) (d : Nat) : Prop :=
  ∀ k, k ∣ d ↔ ∀ n ∈ ns, k ∣ n

/-- The common multiples of the numbers are the multiples of `l`. -/
def IsLcm (ns : List Nat) (l : Nat) : Prop :=
  ∀ k, l ∣ k ↔ ∀ n ∈ ns, n ∣ k

theorem IsGcd.dvd {ns : List Nat} {d n : Nat} (h : IsGcd ns d) (hn : n ∈ ns) : d ∣ n :=
  (h d).1 (Nat.dvd_refl d) n hn

theorem IsLcm.dvd {ns : List Nat} {l n : Nat} (h : IsLcm ns l) (hn : n ∈ ns) : n ∣ l :=
  (h l).1 (Nat.dvd_refl l) n hn

/-- Numbers that are all among others have a smaller multiple. -/
theorem IsLcm.dvd_of_subset {ns ms : List Nat} {l m : Nat} (hl : IsLcm ns l)
    (hm : IsLcm ms m) (hsub : ∀ n ∈ ns, n ∈ ms) : l ∣ m :=
  (hl m).2 fun n hn => hm.dvd (hsub n hn)

theorem IsGcd.eq_of_mem_iff {ns ms : List Nat} {d e : Nat} (hd : IsGcd ns d)
    (he : IsGcd ms e) (hmem : ∀ n, n ∈ ns ↔ n ∈ ms) : d = e :=
  Nat.dvd_antisymm ((he d).2 fun n hn => hd.dvd ((hmem n).2 hn))
    ((hd e).2 fun n hn => he.dvd ((hmem n).1 hn))

theorem IsLcm.eq_of_mem_iff {ns ms : List Nat} {l m : Nat} (hl : IsLcm ns l)
    (hm : IsLcm ms m) (hmem : ∀ n, n ∈ ns ↔ n ∈ ms) : l = m :=
  Nat.dvd_antisymm (hl.dvd_of_subset hm fun n => (hmem n).1)
    (hm.dvd_of_subset hl fun n => (hmem n).2)

theorem IsGcd.eq_zero_iff {ns : List Nat} {d : Nat} (h : IsGcd ns d) :
    d = 0 ↔ ∀ n ∈ ns, n = 0 := by
  simpa only [Nat.zero_dvd] using h 0

/-- Every list has a least common multiple, which is zero if a member is. -/
theorem exists_isLcm (ns : List Nat) : ∃ l, IsLcm ns l ∧ (l = 0 ↔ 0 ∈ ns) := by
  induction ns with
  | nil => exact ⟨1, fun k => by simp, by simp⟩
  | cons n ns ih =>
    obtain ⟨l, hl, hzero⟩ := ih
    refine ⟨n.lcm l, fun k => ?_, ?_⟩
    · rw [Nat.lcm_dvd_iff, hl k, List.forall_mem_cons]
    · rw [Nat.lcm_eq_zero_iff, hzero, List.mem_cons, eq_comm]

theorem IsLcm.eq_zero_iff {ns : List Nat} {l : Nat} (h : IsLcm ns l) : l = 0 ↔ 0 ∈ ns := by
  obtain ⟨m, hm, hzero⟩ := exists_isLcm ns
  rw [h.eq_of_mem_iff hm fun _ => Iff.rfl, hzero]

/-! ## Magnitudes -/

/-- The magnitudes of 64-bit integers. -/
def magnitudes (ns : List Int64) : List Nat :=
  ns.map (·.toInt.natAbs)

theorem mem_magnitudes {ns : List Int64} {n : Nat} :
    n ∈ magnitudes ns ↔ ∃ k ∈ ns, k.toInt.natAbs = n :=
  List.mem_map

theorem natAbs_eq_zero_iff (n : Int64) : n.toInt.natAbs = 0 ↔ n = 0 := by
  rw [Int.natAbs_eq_zero]
  exact Int64.toInt_inj (y := 0)

/-- The largest magnitude, `2 ^ 63`. -/
theorem natAbs_min : Int64.minValue.toInt.natAbs = 9223372036854775808 :=
  rfl

theorem natAbs_eq_min_iff (n : Int64) :
    n.toInt.natAbs = Int64.minValue.toInt.natAbs ↔ n = Int64.minValue := by
  have hn := (fits_iff _).1 (fits_toInt n)
  rw [← toInt_eq_min_iff, natAbs_min]
  omega

theorem le_of_mem_magnitudes {ns : List Int64} {n : Nat} (h : n ∈ magnitudes ns) :
    n ≤ Int64.minValue.toInt.natAbs := by
  obtain ⟨k, -, rfl⟩ := mem_magnitudes.1 h
  have hk := (fits_iff _).1 (fits_toInt k)
  rw [natAbs_min]
  omega

theorem zero_mem_magnitudes_iff (ns : List Int64) : 0 ∈ magnitudes ns ↔ 0 ∈ ns := by
  simp only [mem_magnitudes, natAbs_eq_zero_iff, exists_eq_right]

/-- The order of the integers is not seen in the members of the list. -/
theorem mem_magnitudes_of_perm {ns ms : List Int64} (h : ns.Perm ms) (n : Nat) :
    n ∈ magnitudes ns ↔ n ∈ magnitudes ms :=
  (h.map _).mem_iff

theorem fits_natCast_iff (n : Nat) : Fits n ↔ n < Int64.minValue.toInt.natAbs := by
  rw [fits_iff, natAbs_min]
  omega

/-! ## Euclid's algorithm -/

theorem euclid_eq_gcd (a b : Nat) : euclid a b = a.gcd b := by
  fun_induction euclid a b with
  | case1 a => rw [Nat.gcd_zero_right]
  | case2 a b hb ih => rw [ih, Nat.gcd_comm, ← Nat.gcd_rec, Nat.gcd_comm]

theorem dvd_foldl_euclid_iff (k acc : Nat) (ns : List Nat) :
    k ∣ ns.foldl euclid acc ↔ k ∣ acc ∧ ∀ n ∈ ns, k ∣ n := by
  induction ns generalizing acc with
  | nil => simp
  | cons n ns ih =>
    rw [List.foldl_cons, ih, euclid_eq_gcd, Nat.dvd_gcd_iff, List.forall_mem_cons, and_assoc]

/-- Folding from zero, which every number divides, gives the greatest common divisor. -/
theorem isGcd_gcd (ns : List Nat) : IsGcd ns (gcd ns) := by
  intro k
  rw [gcd, dvd_foldl_euclid_iff]
  exact and_iff_right (Nat.dvd_zero k)

/-- A greatest common divisor of 64-bit integers is at most `2 ^ 63`. -/
theorem IsGcd.le_min {ns : List Int64} {d : Nat} (h : IsGcd (magnitudes ns) d) :
    d ≤ Int64.minValue.toInt.natAbs := by
  by_cases hzero : ∀ n ∈ magnitudes ns, n = 0
  · rw [h.eq_zero_iff.2 hzero]
    exact Nat.zero_le _
  · obtain ⟨n, hn⟩ := Classical.not_forall.1 hzero
    obtain ⟨hmem, hne⟩ := Classical.not_imp.1 hn
    exact Nat.le_trans (Nat.le_of_dvd (Nat.pos_of_ne_zero hne) (h.dvd hmem))
      (le_of_mem_magnitudes hmem)

/-- The divisor is `2 ^ 63` if all integers are zero or the least one, and not all are
zero. -/
theorem IsGcd.eq_min_iff {ns : List Int64} {d : Nat} (h : IsGcd (magnitudes ns) d) :
    d = Int64.minValue.toInt.natAbs ↔
      (∀ n ∈ ns, n = 0 ∨ n = Int64.minValue) ∧ Int64.minValue ∈ ns := by
  constructor
  · intro hd
    have hall : ∀ n ∈ ns, n = 0 ∨ n = Int64.minValue := by
      intro n hn
      have hmem := mem_magnitudes.2 ⟨n, hn, rfl⟩
      have hle := le_of_mem_magnitudes hmem
      rw [← natAbs_eq_zero_iff, ← natAbs_eq_min_iff]
      rcases Nat.eq_zero_or_pos n.toInt.natAbs with hzero | hpos
      · exact .inl hzero
      · have hge := Nat.le_of_dvd hpos (h.dvd hmem)
        omega
    refine ⟨hall, Classical.byContradiction fun hmin => ?_⟩
    have hzero : d = 0 := h.eq_zero_iff.2 fun m hm => by
      obtain ⟨n, hn, rfl⟩ := mem_magnitudes.1 hm
      rcases hall n hn with hn0 | rfl
      · exact (natAbs_eq_zero_iff n).2 hn0
      · exact absurd hn hmin
    rw [hd, natAbs_min] at hzero
    cases hzero
  · rintro ⟨hall, hmin⟩
    have hmem := mem_magnitudes.2 ⟨_, hmin, rfl⟩
    refine Nat.dvd_antisymm (h.dvd hmem) ((h _).2 fun m hm => ?_)
    obtain ⟨n, hn, rfl⟩ := mem_magnitudes.1 hm
    rcases hall n hn with hn0 | rfl
    · rw [(natAbs_eq_zero_iff n).2 hn0]
      exact Nat.dvd_zero _
    · exact Nat.dvd_refl _

/-! ## Multiples within 64 bits -/

theorem lcmStep?_eq (acc n : Nat) :
    lcmStep? acc n = if acc.lcm n < UInt64.size then some (acc.lcm n) else none := by
  rw [lcmStep?]
  by_cases hzero : acc = 0 ∨ n = 0
  · have hlcm : acc.lcm n = 0 := Nat.lcm_eq_zero_iff.2 hzero
    simp [hzero, hlcm]
  · have hlcm : acc / euclid acc n * n = acc.lcm n := by
      rw [euclid_eq_gcd, Nat.div_mul_right_comm (Nat.gcd_dvd_left acc n)]
      rfl
    rw [if_neg hzero]
    show (if acc / euclid acc n * n < UInt64.size then some (acc / euclid acc n * n) else none) = _
    rw [hlcm]

theorem lcm?_zero (ns : List Nat) : lcm? 0 ns = some 0 := by
  induction ns with
  | nil => rfl
  | cons n ns ih => simpa [lcm?, lcmStep?] using ih

/-- The first step of a least common multiple. -/
theorem IsLcm.lcm_cons {acc n l : Nat} {ns : List Nat} (h : IsLcm (acc :: n :: ns) l) :
    IsLcm (acc.lcm n :: ns) l := by
  intro k
  rw [h k, List.forall_mem_cons, List.forall_mem_cons, List.forall_mem_cons, Nat.lcm_dvd_iff,
    and_assoc]

theorem IsLcm.eq_of_singleton {n l : Nat} (h : IsLcm [n] l) : l = n :=
  Nat.dvd_antisymm ((h n).2 (by simp)) (h.dvd List.mem_cons_self)

/-- The numbers before the first zero. -/
theorem mem_takeWhile_ne_zero {ns : List Nat} {n : Nat} (h : n ∈ ns.takeWhile (· ≠ 0)) :
    n ∈ ns ∧ n ≠ 0 :=
  ⟨List.takeWhile_subset _ h, of_decide_eq_true (List.all_eq_true.1 List.all_takeWhile n h)⟩

/-- The fold gives the least common multiple if the numbers before the first zero have one
of 64 bits, and nothing otherwise. -/
theorem lcm?_eq {acc : Nat} {ns : List Nat} {l p : Nat} (hacc : acc < UInt64.size)
    (hl : IsLcm (acc :: ns) l) (hp : IsLcm (acc :: ns.takeWhile (· ≠ 0)) p) (hne : p ≠ 0) :
    lcm? acc ns = if p < UInt64.size then some l else none := by
  induction ns generalizing acc with
  | nil =>
    obtain rfl := hl.eq_of_singleton
    obtain rfl : p = l := hp.eq_of_singleton
    rw [if_pos hacc]
    rfl
  | cons n ns ih =>
    rw [lcm?, lcmStep?_eq]
    by_cases hn : n = 0
    · -- The first zero ends the multiple: it is zero, whatever comes behind.
      subst hn
      obtain rfl : p = acc := hp.eq_of_singleton
      have hzero : l = 0 := Nat.zero_dvd.1 (hl.dvd (by simp))
      rw [Nat.lcm_zero_right, if_pos (by decide), Option.bind_some, lcm?_zero, if_pos hacc,
        hzero]
    · have hwhile : (n :: ns).takeWhile (· ≠ 0) = n :: ns.takeWhile (· ≠ 0) := by
        simp [hn]
      rw [hwhile] at hp
      by_cases hstep : acc.lcm n < UInt64.size
      · rw [if_pos hstep, Option.bind_some]
        exact ih hstep hl.lcm_cons hp.lcm_cons
      · -- What does not fit divides all that comes later.
        have hle := Nat.le_of_dvd (Nat.pos_of_ne_zero hne) (hp.lcm_cons.dvd List.mem_cons_self)
        rw [if_neg hstep, if_neg (by omega)]
        rfl

end StackScheme.Integer

namespace StackScheme.Builtin

open Integer

/-! ## Calls -/

theorem onMagnitudes_integers (b : Builtin) (compute : List Nat → Option Nat)
    (ns : List Int64) :
    b.onMagnitudes compute (ns.map .integer) =
      match compute (magnitudes ns) with
      | some n => b.replyOf n
      | none => .error (.overflow (.operation b)) := by
  rw [onMagnitudes, checkAll_map_integer, magnitudes]
  dsimp only
  cases compute (ns.map (·.toInt.natAbs)) with
  | none => rfl
  | some n => exact match_toInt64?_eq b n

theorem call_gcd_eq (args : List Value) :
    gcd.call args = gcd.onMagnitudes (fun ns => some (Integer.gcd ns)) args := by
  simp [call, arity, Arity.admits, compute]

theorem call_lcm_eq (args : List Value) :
    lcm.call args = lcm.onMagnitudes (Integer.lcm? 1) args := by
  simp [call, arity, Arity.admits, compute]

theorem call_gcd_integers (ns : List Int64) :
    gcd.call (ns.map .integer) = gcd.replyOf (Integer.gcd (magnitudes ns)) := by
  rw [call_gcd_eq, onMagnitudes_integers]

/-- `gcd` of integers is their greatest common divisor, or an overflow where this does not
fit.

The divisor is zero if there is nothing but zeros.  It does not fit if it is `2 ^ 63`,
the magnitude of the least integer: all arguments are zero or the least integer, and one is
the least integer.  The order of the
arguments does not matter, and the first argument that is no integer is an error before
anything else. -/
theorem call_gcd (ns : List Int64) :
    ∃ d : Nat, IsGcd (magnitudes ns) d ∧
      gcd.call (ns.map .integer) = gcd.replyOf d ∧
      (d = 0 ↔ ∀ n ∈ ns, n = 0) ∧
      (gcd.call (ns.map .integer) = .error (.overflow (.operation gcd)) ↔
        d = Int64.minValue.toInt.natAbs) ∧
      (d = Int64.minValue.toInt.natAbs ↔
        (∀ n ∈ ns, n = 0 ∨ n = Int64.minValue) ∧ Int64.minValue ∈ ns) ∧
      (∀ ms : List Int64, ms.Perm ns →
        gcd.call (ms.map .integer) = gcd.call (ns.map .integer)) ∧
      ∀ (v : Value) (rest : List Value), (∀ n, v ≠ .integer n) →
        gcd.call (ns.map .integer ++ v :: rest) =
          .error (.wrongOperand gcd .integers v) := by
  have hd := isGcd_gcd (magnitudes ns)
  have hcall := call_gcd_integers ns
  refine ⟨_, hd, hcall, ?_, ?_, hd.eq_min_iff, fun ms hperm => ?_,
    fun v rest hv => ?_⟩
  · simp only [hd.eq_zero_iff, mem_magnitudes, forall_exists_index, and_imp,
      forall_apply_eq_imp_iff₂, natAbs_eq_zero_iff]
  · have hle := hd.le_min
    rw [hcall, replyOf_eq_overflow_iff, fits_natCast_iff]
    omega
  · have heq := (isGcd_gcd (magnitudes ms)).eq_of_mem_iff hd (mem_magnitudes_of_perm hperm)
    rw [hcall, call_gcd_integers, heq]
  · have hcheck := checkAll_append_of_ne_integer gcd ns hv rest
    rw [call_gcd_eq, onMagnitudes, hcheck]

/-- `lcm` of integers, of which those before the first zero decide whether there is an
overflow. -/
theorem call_lcm_integers {ns : List Int64} {l p : Nat} (hl : IsLcm (magnitudes ns) l)
    (hp : IsLcm ((magnitudes ns).takeWhile (· ≠ 0)) p) :
    lcm.call (ns.map .integer) =
      if p < UInt64.size then lcm.replyOf l else .error (.overflow (.operation lcm)) := by
  have hone : ∀ {ms : List Nat} {m : Nat}, IsLcm ms m → IsLcm (1 :: ms) m := by
    intro ms m hm k
    rw [hm k, List.forall_mem_cons]
    exact (and_iff_right (Nat.one_dvd k)).symm
  have hne : p ≠ 0 := fun h => (mem_takeWhile_ne_zero (hp.eq_zero_iff.1 h)).2 rfl
  have hfold := lcm?_eq (by decide) (hone hl) (hone hp) hne
  rw [call_lcm_eq, onMagnitudes_integers, hfold]
  by_cases h : p < UInt64.size
  · rw [if_pos h, if_pos h]
  · rw [if_neg h, if_neg h]

/-- Without zeros, or with a multiple of the other arguments that fits, `lcm` of integers is
their least common multiple. -/
theorem call_lcm_of_lt {ns : List Int64} {l z : Nat} (hl : IsLcm (magnitudes ns) l)
    (hz : IsLcm ((magnitudes ns).filter (· ≠ 0)) z) (hfits : 0 ∉ ns ∨ z < UInt64.size) :
    lcm.call (ns.map .integer) = lcm.replyOf l := by
  obtain ⟨p, hp, -⟩ := exists_isLcm ((magnitudes ns).takeWhile (· ≠ 0))
  rw [call_lcm_integers hl hp]
  rcases hfits with hzero | hlt
  · rw [← zero_mem_magnitudes_iff] at hzero
    have hwhile : (magnitudes ns).takeWhile (· ≠ 0) = magnitudes ns := by
      have hne : ∀ n ∈ magnitudes ns, decide (n ≠ 0) = true := fun n hn =>
        decide_eq_true fun h => hzero (h ▸ hn)
      have happend : (magnitudes ns ++ []).takeWhile (· ≠ 0) = magnitudes ns ++ [] :=
        List.takeWhile_append_of_pos hne
      rwa [List.append_nil] at happend
    rw [hwhile] at hp
    obtain rfl := hl.eq_of_mem_iff hp fun _ => Iff.rfl
    by_cases h : l < UInt64.size
    · rw [if_pos h]
    · have hnot : ¬ Fits l := fun hl => by
        rw [fits_natCast_iff] at hl
        exact h (Nat.lt_trans hl (by decide))
      rw [if_neg h, replyOf, if_neg hnot]
  · have hle : p ≤ z := by
      refine Nat.le_of_dvd (Nat.pos_of_ne_zero ?_) (hp.dvd_of_subset hz ?_)
      · simp [hz.eq_zero_iff]
      · intro n hn
        obtain ⟨hmem, hne⟩ := mem_takeWhile_ne_zero hn
        exact List.mem_filter.2 ⟨hmem, decide_eq_true hne⟩
    rw [if_pos (by omega)]

/-- `lcm` of integers is their least common multiple, or an overflow where this does not
fit, as long as no argument is zero or the least common multiple of the others is below
`2 ^ 64`.  Then the order of the arguments does not matter.

In general the arguments before the first zero decide: if their least common multiple is
not below `2 ^ 64`, there is an overflow, although the result would be zero. -/
theorem call_lcm (ns : List Int64) :
    ∃ l p z : Nat, IsLcm (magnitudes ns) l ∧
      IsLcm ((magnitudes ns).takeWhile (· ≠ 0)) p ∧
      IsLcm ((magnitudes ns).filter (· ≠ 0)) z ∧
      (ns = [] → l = 1) ∧ (l = 0 ↔ 0 ∈ ns) ∧
      lcm.call (ns.map .integer) =
        (if p < UInt64.size then lcm.replyOf l else .error (.overflow (.operation lcm))) ∧
      (0 ∉ ns ∨ z < UInt64.size → ∀ ms : List Int64, ms.Perm ns →
        lcm.call (ms.map .integer) = lcm.replyOf l) := by
  obtain ⟨l, hl, hzero⟩ := exists_isLcm (magnitudes ns)
  obtain ⟨p, hp, -⟩ := exists_isLcm ((magnitudes ns).takeWhile (· ≠ 0))
  obtain ⟨z, hz, -⟩ := exists_isLcm ((magnitudes ns).filter (· ≠ 0))
  refine ⟨l, p, z, hl, hp, hz, ?_, ?_, call_lcm_integers hl hp, fun hfits ms hperm => ?_⟩
  · rintro rfl
    exact Nat.dvd_one.1 ((hl 1).2 (by simp [magnitudes]))
  · rw [hzero, zero_mem_magnitudes_iff]
  · have hl' : IsLcm (magnitudes ms) l := fun k => by
      simp only [hl k, mem_magnitudes_of_perm hperm]
    have hz' : IsLcm ((magnitudes ms).filter (· ≠ 0)) z := fun k => by
      simp only [hz k, List.mem_filter, mem_magnitudes_of_perm hperm]
    rw [← hperm.mem_iff] at hfits
    exact call_lcm_of_lt hl' hz' hfits

/-- The multiple of the largest integer and three does not fit, and a zero behind them
comes too late, though not one before them. -/
theorem not_forall_call_lcm :
    (¬ ∀ (ns : List Int64) (l : Nat), IsLcm (magnitudes ns) l →
      lcm.call (ns.map .integer) = lcm.replyOf l) ∧
    ¬ ∀ ns ms : List Int64, ms.Perm ns →
      lcm.call (ms.map .integer) = lcm.call (ns.map .integer) := by
  have hlate : lcm.call ([Int64.maxValue, 3, 0].map .integer) =
      .error (.overflow (.operation lcm)) := by
    have hfold : Integer.lcm? 1 (magnitudes [Int64.maxValue, 3, 0]) = none := by
      simp only [magnitudes, List.map, Integer.lcm?, lcmStep?_eq]
      decide
    rw [call_lcm_eq, onMagnitudes_integers, hfold]
  have hearly : lcm.call ([0, Int64.maxValue, 3].map .integer) = lcm.replyOf 0 := by
    have hfold : Integer.lcm? 1 (magnitudes [0, Int64.maxValue, 3]) = some 0 := by
      simp only [magnitudes, List.map, Integer.lcm?, lcmStep?_eq]
      decide
    rw [call_lcm_eq, onMagnitudes_integers, hfold]
    rfl
  have hreply : lcm.replyOf 0 ≠ .error (.overflow (.operation lcm)) := by
    rw [ne_eq, replyOf_eq_overflow_iff]
    decide
  constructor
  · intro h
    obtain ⟨l, hl, hzero⟩ := exists_isLcm (magnitudes [Int64.maxValue, 3, 0])
    obtain rfl := hzero.2 (by decide)
    exact hreply ((h _ 0 hl).symm.trans hlate)
  · intro h
    have hperm : [0, Int64.maxValue, 3].Perm [Int64.maxValue, 3, 0] := by decide
    exact hreply (hearly.symm.trans ((h _ _ hperm).trans hlate))

end StackScheme.Builtin
