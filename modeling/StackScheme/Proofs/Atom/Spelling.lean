import StackScheme.Proofs.Arena.Printing
import StackScheme.Proofs.Builtin.Division

/-!
# The spelling of numbers

An integer is read from its decimal text, and no other run of digits with an optional
sign is read as that integer or as anything else.

* Digits.  `Decimal.digits_ofDigits_iff` says which runs of digits are the digits of
  their value: those without a leading zero, and the zero itself.
* Signs.  `Numeral.IsInteger` are the words made of an optional sign and digits, with the
  value `Numeral.Sign.value`.  `Numeral.IsInteger.integer?_eq` says that this is the value
  that is read, and `Numeral.IsInteger.ofInt_eq_iff` when it is printed as the same word.
* Words.  `Atom.ofWord_of_isInteger` is what becomes of such a word.
* `Atom.integer_spelling` is the result.
-/

namespace StackScheme

/-! ## Digits -/

namespace Decimal

/-- The digits of a positive number have no leading zero. -/
theorem head?_digits_ne {n : Nat} (hn : 0 < n) : (digits n).head? ≠ some '0' := by
  induction n using Nat.strongRecOn with
  | ind n ih =>
    rw [digits]
    by_cases hsmall : n < 10
    · rw [Nat.toDigits_of_lt_base hsmall, List.head?_cons, ne_eq, Option.some.injEq,
        Nat.digitChar_eq_zero]
      omega
    · have hlead : (digits (n / 10)).head? ≠ some '0' := ih (n / 10) (by omega) (by omega)
      rw [Nat.toDigits_of_base_le (by omega) (by omega), List.head?_append]
      cases hhead : (digits (n / 10)).head? with
      | none => exact absurd (List.head?_eq_none_iff.1 hhead) (digits_ne_nil _)
      | some c => exact hhead ▸ hlead

/-- A decimal digit is the digit of its value. -/
theorem digitChar_toNat_sub {d : Char} (hd : d.isDigit = true) :
    d.toNat - '0'.toNat < 10 ∧ (d.toNat - '0'.toNat).digitChar = d := by
  have hrange : 48 ≤ d.toNat ∧ d.toNat ≤ 57 := by
    simpa [Char.isDigit, UInt32.le_iff_toNat_le] using hd
  have hlt : d.toNat - '0'.toNat < 10 := by
    have hzero : '0'.toNat = 48 := rfl
    omega
  refine ⟨hlt, Char.toNat_inj.1 ?_⟩
  rw [Nat.toNat_digitChar_of_lt_ten hlt]
  have hzero : '0'.toNat = 48 := rfl
  omega

/-- More digits behind a positive number are the digits of a greater one. -/
theorem digits_append {n : Nat} (hn : 0 < n) {ds : List Char}
    (hds : ∀ d ∈ ds, d.isDigit = true) : digits n ++ ds = digits (Nat.ofDigitChars 10 ds n) := by
  induction ds generalizing n with
  | nil => rw [List.append_nil, Nat.ofDigitChars_nil]
  | cons d ds ih =>
    obtain ⟨hd, hds⟩ := List.forall_mem_cons.1 hds
    obtain ⟨hlt, hchar⟩ := digitChar_toNat_sub hd
    have hone : digits n ++ [d] = digits (10 * n + (d.toNat - '0'.toNat)) := by
      rw [digits, digits, ← Nat.toDigits_append_toDigits (by omega) hn hlt,
        Nat.toDigits_of_lt_base hlt, hchar]
    calc digits n ++ d :: ds = digits n ++ [d] ++ ds := by simp
      _ = digits (10 * n + (d.toNat - '0'.toNat)) ++ ds := by rw [hone]
      _ = digits (Nat.ofDigitChars 10 (d :: ds) n) := by
        rw [ih (by omega) hds, Nat.ofDigitChars_cons]

/-- Digits without a leading zero are the digits of their value. -/
theorem digits_ofDigits {ds : List Char} (hds : ∀ d ∈ ds, d.isDigit = true) (hne : ds ≠ [])
    (hlead : ds.head? ≠ some '0') : digits (ofDigits ds) = ds := by
  obtain ⟨d, ds, rfl⟩ := List.exists_cons_of_ne_nil hne
  obtain ⟨hd, hds⟩ := List.forall_mem_cons.1 hds
  obtain ⟨hlt, hchar⟩ := digitChar_toNat_sub hd
  have hpos : 0 < d.toNat - '0'.toNat := by
    refine Nat.pos_of_ne_zero fun hzero => hlead ?_
    rw [hzero] at hchar
    exact congrArg some hchar.symm
  have hfirst : digits (d.toNat - '0'.toNat) = [d] := by
    rw [digits, Nat.toDigits_of_lt_base hlt, hchar]
  rw [ofDigits, Nat.ofDigitChars_cons, Nat.mul_zero, Nat.zero_add, ← digits_append hpos hds, hfirst]
  rfl

/-- Digits are those of their value if there is no leading zero, unless they are the zero
itself. -/
theorem digits_ofDigits_iff {ds : List Char} (hds : ∀ d ∈ ds, d.isDigit = true)
    (hne : ds ≠ []) :
    digits (ofDigits ds) = ds ↔ (ds.head? = some '0' → ds = ['0']) := by
  constructor
  · intro hdigits hlead
    rcases Nat.eq_zero_or_pos (ofDigits ds) with hzero | hpos
    · rw [hzero] at hdigits
      exact hdigits.symm
    · have hhead := head?_digits_ne hpos
      rw [hdigits] at hhead
      exact absurd hlead hhead
  · intro h
    by_cases hlead : ds.head? = some '0'
    · rw [h hlead]
      rfl
    · exact digits_ofDigits hds hne hlead

/-- The text of an integer is the usual one. -/
theorem ofInt_eq_toString (n : Int) : ofInt n = toString n := by
  cases n with
  | ofNat n => rfl
  | negSucc n =>
    have hrepr : (Int.negSucc n).repr = "-" ++ (n + 1).repr := rfl
    rw [← String.toList_inj]
    show (String.ofList ('-' :: digits (n + 1))).toList = (Int.negSucc n).repr.toList
    rw [hrepr, String.toList_append, Nat.toList_repr, String.toList_ofList]
    rfl

end Decimal

/-! ## Signs -/

namespace Numeral

/-- What may stand before the digits of an integer. -/
inductive Sign where
  | none
  | plus
  | minus
  deriving DecidableEq, Repr

namespace Sign

/-- The characters of a sign. -/
def chars : Sign → List Char
  | none => []
  | plus => ['+']
  | minus => ['-']

/-- The integer with a sign and a magnitude. -/
def value : Sign → Nat → Int
  | minus, n => -n
  | _, n => n

/-- Integers are printed without a plus sign, and with no leading zero unless the zero is
all there is. -/
def IsPlain (sign : Sign) (ds : List Char) : Prop :=
  sign ≠ plus ∧ (ds.head? = some '0' → sign = none ∧ ds = ['0'])

instance (sign : Sign) (ds : List Char) : Decidable (sign.IsPlain ds) :=
  inferInstanceAs (Decidable (_ ∧ (_ → _)))

end Sign

/-- A word that is an optional sign and one or more decimal digits. -/
structure IsInteger (word : String) (sign : Sign) (ds : List Char) : Prop where
  text : word.toList = sign.chars ++ ds
  digits : ∀ d ∈ ds, d.isDigit = true
  nonempty : ds ≠ []

/-- The number that such a word denotes. -/
def valueOf (sign : Sign) (ds : List Char) : Int :=
  sign.value (Decimal.ofDigits ds)

/-- The text of the number has the sign and the digits that were read if they are as
integers are printed. -/
theorem signedDigits_valueOf_iff {sign : Sign} {ds : List Char}
    (hds : ∀ d ∈ ds, d.isDigit = true) (hne : ds ≠ []) :
    Decimal.signedDigits (valueOf sign ds) = sign.chars ++ ds ↔ sign.IsPlain ds := by
  have hdigits := Decimal.digits_ofDigits_iff hds hne
  cases sign with
  | none =>
    show Decimal.digits (Decimal.ofDigits ds) = ds ↔ _
    simpa [Sign.IsPlain] using hdigits
  | plus =>
    refine iff_of_false (fun h => ?_) (fun h => h.1 rfl)
    have hplus : '+' ∈ Decimal.digits (Decimal.ofDigits ds) := by
      have : Decimal.digits (Decimal.ofDigits ds) = '+' :: ds := h
      rw [this]
      exact List.mem_cons_self
    exact absurd (Decimal.isDigit_of_mem_digits hplus) (by decide)
  | minus =>
    have hplain : Sign.minus.IsPlain ds ↔ ds.head? ≠ some '0' := by simp [Sign.IsPlain]
    rw [hplain]
    cases hvalue : Decimal.ofDigits ds with
    | zero =>
      -- The zero is printed without a sign.
      rw [valueOf, hvalue]
      refine iff_of_false (fun h => ?_) (fun hlead => ?_)
      · have hsign := (List.cons.inj h).1
        exact absurd hsign (by decide)
      · rw [hvalue] at hdigits
        have hzero : ['0'] = ds := hdigits.2 fun h => absurd h hlead
        exact hlead (hzero ▸ rfl)
    | succ n =>
      rw [hvalue] at hdigits
      have htext : Decimal.signedDigits (valueOf .minus ds) = '-' :: Decimal.digits (n + 1) := by
        rw [valueOf, hvalue]
        rfl
      have hnonzero : ds ≠ ['0'] := by
        rintro rfl
        cases hvalue
      rw [htext]
      show '-' :: Decimal.digits (n + 1) = '-' :: ds ↔ _
      rw [List.cons.injEq, hdigits]
      simp [hnonzero]

/-- A sign comes off in front of digits. -/
theorem splitSign_chars_append {sign : Sign} {ds : List Char}
    (hds : ∀ d ∈ ds, d.isDigit = true) (hne : ds ≠ []) :
    Decimal.splitSign (sign.chars ++ ds) = (decide (sign = .minus), ds) := by
  cases sign with
  | none =>
    obtain ⟨d, ds, rfl⟩ := List.exists_cons_of_ne_nil hne
    have hd := hds d List.mem_cons_self
    have hminus : d ≠ '-' := by
      rintro rfl
      exact absurd hd (by decide)
    have hplus : d ≠ '+' := by
      rintro rfl
      exact absurd hd (by decide)
    simp [Sign.chars, Decimal.splitSign, hminus, hplus]
  | plus => rfl
  | minus => rfl

namespace IsInteger

variable {word : String} {sign : Sign} {ds : List Char} (h : IsInteger word sign ds)
include h

/-- A sign and digits are read as their number. -/
theorem integer?_eq : integer? word.toList = some (valueOf sign ds) := by
  have hall : ds.all Char.isDigit = true := List.all_eq_true.2 h.digits
  have hnonempty : ds.isEmpty = false := by simpa using h.nonempty
  rw [integer?, h.text, splitSign_chars_append h.digits h.nonempty]
  dsimp only
  rw [hall, hnonempty]
  cases sign <;> rfl

/-- The word is the text of its number if it is written as integers are printed. -/
theorem ofInt_eq_iff : Decimal.ofInt (valueOf sign ds) = word ↔ sign.IsPlain ds := by
  rw [← signedDigits_valueOf_iff h.digits h.nonempty, ← h.text, Decimal.ofInt,
    ← String.toList_inj, String.toList_ofList]

theorem looksNumeric : Atom.looksNumeric word.toList = true := by
  obtain ⟨d, ds', hcons⟩ := List.exists_cons_of_ne_nil h.nonempty
  have hd : d ∈ ds := hcons ▸ List.mem_cons_self
  rw [Atom.looksNumeric, h.text, Bool.and_eq_true, List.any_eq_true, List.all_eq_true]
  refine ⟨⟨d, List.mem_append_right _ hd, h.digits d hd⟩, fun c hc => ?_⟩
  rcases List.mem_append.1 hc with hc | hc
  · cases sign with
    | none => cases hc
    | plus | minus =>
      cases List.mem_singleton.1 hc
      rfl
  · simp [h.digits c hc]

end IsInteger

/-- The text of an integer is a sign and digits. -/
theorem exists_isInteger (n : Int64) :
    ∃ sign ds, IsInteger (integerText n) sign ds ∧ valueOf sign ds = n.toInt := by
  rw [integerText]
  cases n.toInt with
  | ofNat m =>
    refine ⟨.none, Decimal.digits m, ⟨?_, fun d hd => Decimal.isDigit_of_mem_digits hd,
      Decimal.digits_ne_nil m⟩, ?_⟩
    · rw [Decimal.ofInt, String.toList_ofList]
      rfl
    · rw [valueOf, Decimal.ofDigits_digits]
      rfl
  | negSucc m =>
    refine ⟨.minus, Decimal.digits (m + 1), ⟨?_, fun d hd => Decimal.isDigit_of_mem_digits hd,
      Decimal.digits_ne_nil (m + 1)⟩, ?_⟩
    · rw [Decimal.ofInt, String.toList_ofList]
      rfl
    · rw [valueOf, Decimal.ofDigits_digits]
      rfl

end Numeral

/-! ## Words -/

namespace Atom

open Numeral SExpr

/-- What a sign and digits are read as: the number if it fits and the word is its text,
and an error otherwise. -/
theorem ofWord_of_isInteger {word : String} {sign : Sign} {ds : List Char}
    (h : IsInteger word sign ds) :
    ofWord word =
      if Integer.Fits (valueOf sign ds) then
        if sign.IsPlain ds then .ok (.integer (.ofInt (valueOf sign ds)))
        else .error (.nonCanonicalNumeral word (Decimal.ofInt (valueOf sign ds)))
      else .error (.integerOutOfRange word) := by
  rw [ofWord, numeral?, if_pos h.looksNumeric, h.integer?_eq]
  dsimp only
  rw [toInt64?_eq]
  by_cases hfits : Integer.Fits (valueOf sign ds)
  · have htext : (Atom.integer (.ofInt (valueOf sign ds))).text =
        Decimal.ofInt (valueOf sign ds) := by
      show integerText (.ofInt (valueOf sign ds)) = _
      rw [integerText, Integer.toInt_ofInt hfits]
    rw [if_pos hfits, if_pos hfits]
    simp only [Option.getD_some, canonical, htext, h.ofInt_eq_iff]
  · rw [if_neg hfits, if_neg hfits]
    rfl

/-- An integer is read from its text. -/
theorem ofWord_integerText (n : Int64) : ofWord (integerText n) = .ok (.integer n) := by
  obtain ⟨sign, ds, h, hvalue⟩ := exists_isInteger n
  have hplain : sign.IsPlain ds := by
    rw [← h.ofInt_eq_iff, hvalue]
    rfl
  rw [ofWord_of_isInteger h, hvalue, if_pos (Integer.fits_toInt n), if_pos hplain,
    Int64.ofInt_toInt]

/-- A word that is read as an integer is its text. -/
theorem eq_integerText_of_ofWord {word : String} {n : Int64}
    (h : ofWord word = .ok (.integer n)) : word = integerText n :=
  (Token.word.inj (token_of_ofWord h)).symm

/-- A sign and digits are the text of an integer if and only if their number fits and they
are as integers are printed. -/
theorem exists_eq_integerText_iff {word : String} {sign : Sign} {ds : List Char}
    (h : IsInteger word sign ds) :
    (∃ n, word = integerText n) ↔ Integer.Fits (valueOf sign ds) ∧ sign.IsPlain ds := by
  have hread := ofWord_of_isInteger h
  constructor
  · rintro ⟨n, rfl⟩
    rw [ofWord_integerText] at hread
    split at hread
    · rename_i hfits
      split at hread
      · rename_i hplain
        exact ⟨hfits, hplain⟩
      · cases hread
    · cases hread
  · rintro ⟨hfits, hplain⟩
    rw [if_pos hfits, if_pos hplain] at hread
    exact ⟨_, eq_integerText_of_ofWord hread⟩

/-- Each integer has one spelling.  Every integer is read from its usual decimal text.  A
word of an optional sign and digits is read as an integer if and only if it is the text of
that integer, which is the case if its number fits and it has neither a plus sign nor a
leading zero nor a minus sign before zero.  Otherwise there is an error, which says whether
the number is out of range or how it must be written.  Whatever number a word is read as,
the number is printed as the same word. -/
theorem integer_spelling :
    (∀ n : Int64, integerText n = toString n.toInt ∧
      ofWord (integerText n) = .ok (.integer n)) ∧
    (∀ word sign ds, IsInteger word sign ds →
      (∀ n, ofWord word = .ok (.integer n) ↔ word = integerText n) ∧
        ((∃ n, word = integerText n) ↔
          Integer.Fits (valueOf sign ds) ∧ sign.IsPlain ds) ∧
        ((∀ n, word ≠ integerText n) → ofWord word = .error
          (if Integer.Fits (valueOf sign ds) then
            .nonCanonicalNumeral word (toString (valueOf sign ds))
          else .integerOutOfRange word))) ∧
    ∀ word a, ofWord word = .ok a → (∃ n, a = .integer n) ∨ (∃ x, a = .float x) →
      a.text = word := by
  refine ⟨fun n => ⟨Decimal.ofInt_eq_toString _, ofWord_integerText n⟩,
    fun word sign ds h => ⟨fun n => ⟨eq_integerText_of_ofWord, ?_⟩,
      exists_eq_integerText_iff h, fun hnone => ?_⟩, fun word a h _ => ?_⟩
  · rintro rfl
    exact ofWord_integerText n
  · have hread := ofWord_of_isInteger h
    rw [Decimal.ofInt_eq_toString] at hread
    by_cases hfits : Integer.Fits (valueOf sign ds)
    · have hplain : ¬ sign.IsPlain ds := fun hplain =>
        let ⟨n, hn⟩ := (exists_eq_integerText_iff h).2 ⟨hfits, hplain⟩
        hnone n hn
      rw [hread, if_pos hfits, if_neg hplain, if_pos hfits]
    · rw [hread, if_neg hfits, if_neg hfits]
  · rw [text, token_of_ofWord h]
    rfl

/-- The numeral `-007` is an error, one more than the greatest integer is out of range, and
`-0.25` is printed as it was read. -/
theorem integer_spelling_rejected :
    IsInteger "-007" .minus ['0', '0', '7'] ∧
      ofWord "-007" = .error (.nonCanonicalNumeral "-007" "-7") ∧
      IsInteger "9223372036854775808" .none "9223372036854775808".toList ∧
      ofWord "9223372036854775808" = .error (.integerOutOfRange "9223372036854775808") ∧
      ∃ x, ofWord "-0.25" = .ok (.float x) ∧ (Atom.float x).text = "-0.25" := by
  have hpadded : IsInteger "-007" .minus ['0', '0', '7'] :=
    ⟨rfl, List.all_eq_true.1 rfl, by simp⟩
  have hlarge : IsInteger "9223372036854775808" .none "9223372036854775808".toList :=
    ⟨rfl, List.all_eq_true.1 rfl, by simp⟩
  obtain ⟨-, hpadded_iff, hpadded_error⟩ := integer_spelling.2.1 _ _ _ hpadded
  obtain ⟨-, hlarge_iff, hlarge_error⟩ := integer_spelling.2.1 _ _ _ hlarge
  have hpadded_none : ∀ n, "-007" ≠ integerText n := fun n hn =>
    absurd (hpadded_iff.1 ⟨n, hn⟩).2 (by decide)
  have hlarge_none : ∀ n, "9223372036854775808" ≠ integerText n := fun n hn =>
    absurd (hlarge_iff.1 ⟨n, hn⟩).1 (by decide)
  have hread : ∃ x, ofWord "-0.25" = .ok (.float x) := ⟨_, rfl⟩
  obtain ⟨x, hread⟩ := hread
  have htext := integer_spelling.2.2 _ _ hread (.inr ⟨x, rfl⟩)
  exact ⟨hpadded, hpadded_error hpadded_none, hlarge, hlarge_error hlarge_none, x, hread, htext⟩

end Atom

end StackScheme
