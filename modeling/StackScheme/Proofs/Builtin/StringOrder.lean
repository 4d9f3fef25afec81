import Mathlib.Data.String.Basic
import StackScheme.Builtin

/-!
# The order of strings

Strings are compared by their characters.  A text that is stored as bytes would be compared
byte by byte, and this is the same order: UTF-8 was made so that a character with a greater
code has a greater encoding, whatever stands behind the two.

* Bytes.  `Ascending` is a way to write numbers as bytes that keeps their order.  A byte for
  six more bits leaves it ascending, and so the encodings of one length are.
* Characters.  `encode_append_lt` is about two characters, of one length or not.
* Texts.  `bytes_lt_iff` says that the order of the bytes is the order of the characters.
* `call_compareStrings` is about the builtins that compare strings: they are one strict
  total order and what belongs to it.
-/

namespace StackScheme

namespace Text

/-- The bytes of a text in UTF-8. -/
def bytes (s : String) : List UInt8 :=
  s.toUTF8.data.toList

/-- The codes of the characters of a text. -/
def codes (s : String) : List Nat :=
  s.toList.map Char.toNat

/-! ## Bytes -/

/-- Below `bound`, a greater number is written as greater bytes, whatever is behind them. -/
def Ascending (bound : Nat) (write : Nat → List UInt8) : Prop :=
  ∀ ⦃m n : Nat⦄, m < n → n < bound → ∀ xs ys : List UInt8, write m ++ xs < write n ++ ys

theorem ofNat_lt {m n : Nat} (h : m < n) (hn : n < 256) : UInt8.ofNat m < UInt8.ofNat n := by
  rw [UInt8.lt_iff_toNat_lt, UInt8.toNat_ofNat_of_lt' (Nat.lt_trans h hn),
    UInt8.toNat_ofNat_of_lt' hn]
  exact h

/-- The first byte of an encoding has a mark and the upper bits. -/
theorem ascending_first (width mark : Nat) (h : width + mark ≤ 256) :
    Ascending width fun n => [UInt8.ofNat (n % width + mark)] := by
  intro m n hlt hn xs ys
  dsimp only
  rw [Nat.mod_eq_of_lt (Nat.lt_trans hlt hn), Nat.mod_eq_of_lt hn]
  have hbyte : UInt8.ofNat (m + mark) < UInt8.ofNat (n + mark) := ofNat_lt (by omega) (by omega)
  exact List.cons_lt_cons_iff.2 (.inl hbyte)

/-- Each byte behind the first one has six more bits. -/
theorem Ascending.snoc {bound : Nat} {write : Nat → List UInt8} (h : Ascending bound write) :
    Ascending (bound * 64) fun n => write (n / 64) ++ [UInt8.ofNat (n % 64 + 128)] := by
  intro m n hlt hn xs ys
  simp only [List.append_assoc, List.singleton_append]
  rcases Nat.lt_or_eq_of_le (Nat.div_le_div_right (c := 64) (Nat.le_of_lt hlt)) with hupper | hupper
  · exact h hupper (by omega) _ _
  · have hbyte : UInt8.ofNat (m % 64 + 128) < UInt8.ofNat (n % 64 + 128) :=
      ofNat_lt (by omega) (by omega)
    rw [hupper]
    exact List.append_left_lt (List.cons_lt_cons_iff.2 (.inl hbyte))

/-! ## Characters -/

theorem toNat_lt (c : Char) : c.toNat < 1114112 := by
  rcases c.valid with h | ⟨-, h⟩
  · exact Nat.lt_trans h (by decide)
  · exact h

/-- The encoding of a character, by the length of the encoding. -/
theorem encode_cases (c : Char) :
    c.toNat < 128 ∧ String.utf8EncodeChar c = [UInt8.ofNat c.toNat] ∨
    (128 ≤ c.toNat ∧ c.toNat < 2048) ∧
      String.utf8EncodeChar c =
        [UInt8.ofNat (c.toNat / 64 % 32 + 192)] ++ [UInt8.ofNat (c.toNat % 64 + 128)] ∨
    (2048 ≤ c.toNat ∧ c.toNat < 65536) ∧
      String.utf8EncodeChar c =
        [UInt8.ofNat (c.toNat / 64 / 64 % 16 + 224)] ++ [UInt8.ofNat (c.toNat / 64 % 64 + 128)] ++
          [UInt8.ofNat (c.toNat % 64 + 128)] ∨
    65536 ≤ c.toNat ∧
      String.utf8EncodeChar c =
        [UInt8.ofNat (c.toNat / 64 / 64 / 64 % 8 + 240)] ++
          [UInt8.ofNat (c.toNat / 64 / 64 % 64 + 128)] ++ [UInt8.ofNat (c.toNat / 64 % 64 + 128)] ++
          [UInt8.ofNat (c.toNat % 64 + 128)] := by
  have hval : c.val.toNat = c.toNat := rfl
  rw [String.utf8EncodeChar, hval]
  simp only [Nat.div_div_eq_div_mul]
  split_ifs with h₁ h₂ h₃
  · exact .inl ⟨by omega, rfl⟩
  · exact .inr (.inl ⟨by omega, rfl⟩)
  · exact .inr (.inr (.inl ⟨by omega, rfl⟩))
  · exact .inr (.inr (.inr ⟨by omega, rfl⟩))

/-- Encodings that differ in the first byte. -/
theorem first_lt {m n : Nat} (h : m < n) (hn : n < 256) (xs ys : List UInt8) :
    UInt8.ofNat m :: xs < UInt8.ofNat n :: ys :=
  List.cons_lt_cons_iff.2 (.inl (ofNat_lt h hn))

/-- A greater character has a greater encoding, whatever is behind the two. -/
theorem encode_append_lt {c d : Char} (h : c < d) (xs ys : List UInt8) :
    String.utf8EncodeChar c ++ xs < String.utf8EncodeChar d ++ ys := by
  have hlt : c.toNat < d.toNat := h
  have hmax := toNat_lt d
  have htwo := (ascending_first 32 192 (by decide)).snoc
  have hthree := (ascending_first 16 224 (by decide)).snoc.snoc
  have hfour := (ascending_first 8 240 (by decide)).snoc.snoc.snoc
  -- Encodings of one length are ascending, and a longer one has a greater first byte.
  rcases encode_cases c with ⟨hc, ec⟩ | ⟨hc, ec⟩ | ⟨hc, ec⟩ | ⟨hc, ec⟩
  · rw [ec]
    rcases encode_cases d with ⟨hd, ed⟩ | ⟨hd, ed⟩ | ⟨hd, ed⟩ | ⟨hd, ed⟩
    all_goals rw [ed]; exact first_lt (by omega) (by omega) _ _
  · rw [ec]
    rcases encode_cases d with ⟨hd, ed⟩ | ⟨hd, ed⟩ | ⟨hd, ed⟩ | ⟨hd, ed⟩
    · omega
    · rw [ed]
      exact htwo hlt (by omega) xs ys
    all_goals rw [ed]; exact first_lt (by omega) (by omega) _ _
  · rw [ec]
    rcases encode_cases d with ⟨hd, ed⟩ | ⟨hd, ed⟩ | ⟨hd, ed⟩ | ⟨hd, ed⟩
    · omega
    · omega
    · rw [ed]
      exact hthree hlt (by omega) xs ys
    · rw [ed]
      exact first_lt (by omega) (by omega) _ _
  · rw [ec]
    rcases encode_cases d with ⟨hd, ed⟩ | ⟨hd, ed⟩ | ⟨hd, ed⟩ | ⟨hd, ed⟩
    · omega
    · omega
    · omega
    · rw [ed]
      exact hfour hlt (by omega) xs ys

/-! ## Texts -/

/-- The bytes of a text are those of its characters. -/
theorem bytes_eq (s : String) : bytes s = s.toList.flatMap String.utf8EncodeChar := by
  rw [bytes, String.toUTF8_eq_toByteArray, ← String.utf8Encode_toList, List.utf8Encode,
    List.toList_data_toByteArray]

/-- A text that is less has bytes that are less. -/
theorem flatMap_encode_lt {cs ds : List Char} (h : cs < ds) :
    cs.flatMap String.utf8EncodeChar < ds.flatMap String.utf8EncodeChar := by
  induction h with
  | @nil d ds =>
    obtain ⟨b, bs, hb⟩ := List.exists_cons_of_ne_nil (String.utf8EncodeChar_ne_nil (c := d))
    rw [List.flatMap_nil, List.flatMap_cons, hb]
    exact List.nil_lt_cons _ _
  | @rel c cs d ds hlt => exact encode_append_lt hlt _ _
  | @cons c cs ds _ ih => exact List.append_left_lt ih

/-- The order of the bytes is the order of the characters. -/
theorem bytes_lt_iff (a b : String) : bytes a < bytes b ↔ a < b := by
  have hmono : ∀ {a b : String}, a < b → bytes a < bytes b := by
    intro a b h
    rw [bytes_eq, bytes_eq]
    exact flatMap_encode_lt (String.lt_iff_toList_lt.1 h)
  refine ⟨fun h => ?_, hmono⟩
  rcases lt_trichotomy a b with hlt | rfl | hlt
  · exact hlt
  · exact absurd h (List.lt_irrefl _)
  · exact absurd h (List.lt_asymm (hmono hlt))

/-- The order of the codes is the order of the characters. -/
theorem codes_lt_iff (a b : String) : codes a < codes b ↔ a < b := by
  have hmono : ∀ {a b : String}, a < b → codes a < codes b := fun h =>
    List.map_lt (fun _ _ hlt => hlt) (String.lt_iff_toList_lt.1 h)
  refine ⟨fun h => ?_, hmono⟩
  rcases lt_trichotomy a b with hlt | rfl | hlt
  · exact hlt
  · exact absurd h (lt_irrefl _)
  · exact absurd h (lt_asymm (hmono hlt))

end Text

/-! ## Builtins -/

/-- The order of two texts, and what it says about them. -/
theorem textOrder_cases (a b : String) :
    a < b ∧ textOrder a b = .lt ∨ a = b ∧ textOrder a b = .eq ∨ b < a ∧ textOrder a b = .gt := by
  unfold textOrder
  split_ifs with hlt heq
  · exact .inl ⟨hlt, rfl⟩
  · exact .inr (.inl ⟨heq, rfl⟩)
  · have hgt : b < a := lt_of_le_of_ne (not_lt.1 hlt) (Ne.symm heq)
    exact .inr (.inr ⟨hgt, rfl⟩)

namespace Comparison

/-- The comparison of two strings, from whatever literals they come, has an answer. -/
def Answers (r : Comparison) (a b : String) (answer : Bool) : Prop :=
  ∀ i j : NodeId, (Builtin.compareStrings r).call [.string a i, .string b j] =
    .ok (.value (.boolean answer))

/-- The comparison holds of two strings. -/
def Holds (r : Comparison) (a b : String) : Prop :=
  r.Answers a b true

theorem answers_textOrder (r : Comparison) (a b : String) :
    r.Answers a b (r.accepts (textOrder a b)) :=
  fun _ _ => rfl

theorem holds_iff {r : Comparison} {a b : String} :
    r.Holds a b ↔ r.accepts (textOrder a b) = true := by
  have hanswer := r.answers_textOrder a b
  constructor
  · intro h
    have heq := (hanswer 0 0).symm.trans (h 0 0)
    simpa using heq
  · intro h
    rwa [h] at hanswer

theorem holds_less_iff {a b : String} : less.Holds a b ↔ a < b := by
  rw [holds_iff]
  rcases textOrder_cases a b with ⟨h, ho⟩ | ⟨rfl, ho⟩ | ⟨h, ho⟩
  · simp [ho, accepts, h]
  · simp [ho, accepts]
  · simp [ho, accepts, lt_asymm h]

theorem holds_equal_iff {a b : String} : equal.Holds a b ↔ a = b := by
  rw [holds_iff]
  rcases textOrder_cases a b with ⟨h, ho⟩ | ⟨rfl, ho⟩ | ⟨h, ho⟩
  · simp [ho, accepts, h.ne]
  · simp [ho, accepts]
  · simp [ho, accepts, h.ne']

theorem holds_greater_iff {a b : String} : greater.Holds a b ↔ b < a := by
  rw [holds_iff]
  rcases textOrder_cases a b with ⟨h, ho⟩ | ⟨rfl, ho⟩ | ⟨h, ho⟩
  · simp [ho, accepts, lt_asymm h]
  · simp [ho, accepts]
  · simp [ho, accepts, h]

theorem holds_lessEq_iff {a b : String} : lessEq.Holds a b ↔ a < b ∨ a = b := by
  rw [holds_iff]
  rcases textOrder_cases a b with ⟨h, ho⟩ | ⟨rfl, ho⟩ | ⟨h, ho⟩
  · simp [ho, accepts, h]
  · simp [ho, accepts]
  · simp [ho, accepts, lt_asymm h, h.ne']

theorem holds_greaterEq_iff {a b : String} : greaterEq.Holds a b ↔ b < a ∨ a = b := by
  rw [holds_iff]
  rcases textOrder_cases a b with ⟨h, ho⟩ | ⟨rfl, ho⟩ | ⟨h, ho⟩
  · simp [ho, accepts, lt_asymm h, h.ne]
  · simp [ho, accepts]
  · simp [ho, accepts, h]

end Comparison

namespace Builtin

open Comparison

/-- The comparisons of strings belong to one total order.

* Each of them has an answer for any two strings.
* `string<?` is the strict lexicographic order of the bytes in UTF-8, which is the
  lexicographic order of the codes of the characters, and `string=?` compares contents.
* Of two strings, one is less, or they are equal, or one is greater, and no two of these.
* `string<=?` and `string>=?` allow for equality, and the comparisons with `>` are those
  with `<` with their arguments exchanged.
* `string<?` is transitive. -/
theorem call_compareStrings (a b c : String) :
    (∀ r, ∃ answer, Comparison.Answers r a b answer) ∧
      (less.Holds a b ↔ Text.bytes a < Text.bytes b) ∧
      (Text.bytes a < Text.bytes b ↔ Text.codes a < Text.codes b) ∧
      (equal.Holds a b ↔ a = b) ∧
      (less.Holds a b ∧ ¬ equal.Holds a b ∧ ¬ greater.Holds a b ∨
        ¬ less.Holds a b ∧ equal.Holds a b ∧ ¬ greater.Holds a b ∨
        ¬ less.Holds a b ∧ ¬ equal.Holds a b ∧ greater.Holds a b) ∧
      (lessEq.Holds a b ↔ less.Holds a b ∨ equal.Holds a b) ∧
      (greaterEq.Holds a b ↔ greater.Holds a b ∨ equal.Holds a b) ∧
      (greater.Holds a b ↔ less.Holds b a) ∧ (greaterEq.Holds a b ↔ lessEq.Holds b a) ∧
      (less.Holds a b → less.Holds b c → less.Holds a c) := by
  refine ⟨fun r => ⟨_, r.answers_textOrder a b⟩,
    holds_less_iff.trans (Text.bytes_lt_iff a b).symm,
    (Text.bytes_lt_iff a b).trans (Text.codes_lt_iff a b).symm, holds_equal_iff, ?_, ?_, ?_, ?_, ?_,
    fun hab hbc => holds_less_iff.2 (lt_trans (holds_less_iff.1 hab) (holds_less_iff.1 hbc))⟩
  · rw [holds_less_iff, holds_equal_iff, holds_greater_iff]
    rcases lt_trichotomy a b with h | rfl | h
    · exact .inl ⟨h, h.ne, lt_asymm h⟩
    · exact .inr (.inl ⟨lt_irrefl a, rfl, lt_irrefl a⟩)
    · exact .inr (.inr ⟨lt_asymm h, h.ne', h⟩)
  · rw [holds_lessEq_iff, holds_less_iff, holds_equal_iff]
  · rw [holds_greaterEq_iff, holds_greater_iff, holds_equal_iff]
  · rw [holds_greater_iff, holds_less_iff]
  · rw [holds_greaterEq_iff, holds_lessEq_iff, eq_comm (a := a)]

end Builtin

end StackScheme
