import Mathlib.Data.List.Basic
import StackScheme.Builtin

/-!
# Equivalence

Two predicates compare any two values.  One of them goes by what a value is, and the other
one looks into strings.  Each is equality of some part of the values, except that a floating
point number need not be equal to itself.

* Parts.  `Value.object` is what a value is apart from the contents of strings and
  procedures, and `Value.datum` is the value with the contents of strings and without their
  place.  `Value.isEqv_iff` and `Value.isEqual_iff` compare these parts.
* Contents.  `Value.isEqual_of_isEqv` is where the first predicate is finer, and
  `Value.strings_of_isEqual` where it differs.
* Builtins.  `Builtin.Accepts` says that a builtin answers with true, and
  `Builtin.equivalence_accepts` that the predicates of equivalence are what they are
  called.
-/

namespace StackScheme

namespace Value

/-! ## Parts -/

/-- The value is a floating point number. -/
def IsFloat : Value → Prop
  | float _ => True
  | _ => False

/-- The value is a string. -/
def IsString : Value → Prop
  | string _ _ => True
  | _ => False

/-- The value without what does not tell it from others: of a string the place of its
literal is left, and of a procedure its number. -/
def object : Value → Value
  | string _ literal => string "" literal
  | closure c =>
    closure
      { serial := c.serial, name := none, parameters := [], first := 0, rest := [], scope := 0 }
  | v => v

/-- The value with the contents of a string, wherever the string comes from. -/
def datum : Value → Value
  | string contents _ => string contents 0
  | v => v.object

/-- Two values are the same thing if nothing tells them apart. -/
theorem isEqv_iff {v w : Value} (hv : ¬ v.IsFloat) : v.isEqv w = true ↔ v.object = w.object := by
  cases v with
  | float x => exact absurd trivial hv
  | _ => cases w <;> simp [isEqv, object]

/-- Strings with the same contents are equal, whatever else they are. -/
theorem isEqual_iff {v w : Value} (hv : ¬ v.IsFloat) :
    v.isEqual w = true ↔ v.datum = w.datum := by
  cases v with
  | float x => exact absurd trivial hv
  | _ => cases w <;> simp [isEqual, isEqv, datum, object]

/-! ## Contents -/

/-- Things that are the same are equal, if strings of one literal have one contents. -/
theorem isEqual_of_isEqv {v w : Value}
    (hcontents : ∀ a b i, v = string a i → w = string b i → a = b) (h : v.isEqv w = true) :
    v.isEqual w = true := by
  cases v with
  | string a i =>
    cases w with
    | string b j =>
      obtain rfl : i = j := by simpa [isEqv] using h
      simpa [isEqual] using hcontents a b i rfl rfl
    | _ => simp [isEqv] at h
  | _ => exact h

/-- Only strings can be equal without being the same thing. -/
theorem strings_of_isEqual {v w : Value} (h : v.isEqual w = true) (hne : v.isEqv w ≠ true) :
    v.IsString ∧ w.IsString := by
  cases v with
  | string a i =>
    cases w with
    | string b j => exact ⟨trivial, trivial⟩
    | _ => exact absurd h hne
  | _ => exact absurd h hne

end Value

/-! ## Builtins -/

namespace Builtin

/-- The builtin answers with true for two arguments. -/
def Accepts (b : Builtin) (v w : Value) : Prop :=
  b.call [v, w] = .ok (.value (.boolean true))

theorem accepts_iff {b : Builtin} {v w : Value} {answer : Bool}
    (h : b.call [v, w] = .ok (.value (.boolean answer))) : b.Accepts v w ↔ answer = true := by
  rw [Accepts, h]
  simp

theorem accepts_isEqv {v w : Value} : isEqv.Accepts v w ↔ v.isEqv w = true :=
  accepts_iff rfl

theorem accepts_isEq {v w : Value} : isEq.Accepts v w ↔ v.isEqv w = true :=
  accepts_iff rfl

theorem accepts_isEqual {v w : Value} : isEqual.Accepts v w ↔ v.isEqual w = true :=
  accepts_iff rfl

/-- Equality of some part is an equivalence. -/
theorem equivalence_of_accepts_iff {P : Value → Prop} {b : Builtin} {part : Value → Value}
    (h : ∀ v w, P v → (b.Accepts v w ↔ part v = part w)) :
    Equivalence fun v w : {v // P v} => b.Accepts v.1 w.1 where
  refl v := (h v v v.2).2 rfl
  symm {v w} hvw := (h w v w.2).2 ((h v w v.2).1 hvw).symm
  trans {u v w} huv hvw := (h u w u.2).2 (((h u v u.2).1 huv).trans ((h v w v.2).1 hvw))

/-- The predicates of equivalence decide any two values, and are equivalences apart from
floating point numbers. -/
theorem equivalence_accepts {P : Value → Prop} (hP : ∀ v, P v → ¬ v.IsFloat) :
    ∀ b ∈ [isEqv, isEq, isEqual],
      (∀ v w, ∃ answer, b.call [v, w] = .ok (.value (.boolean answer))) ∧
        Equivalence fun v w : {v // P v} => b.Accepts v.1 w.1 := by
  have hobject : ∀ v w, P v → (v.isEqv w = true ↔ v.object = w.object) :=
    fun v w hv => Value.isEqv_iff (hP v hv)
  simp only [List.forall_mem_cons]
  refine ⟨⟨fun v w => ⟨_, rfl⟩, ?_⟩, ⟨fun v w => ⟨_, rfl⟩, ?_⟩, ⟨fun v w => ⟨_, rfl⟩, ?_⟩,
    List.forall_mem_nil _⟩
  · exact equivalence_of_accepts_iff fun v w hv => accepts_isEqv.trans (hobject v w hv)
  · exact equivalence_of_accepts_iff fun v w hv => accepts_isEq.trans (hobject v w hv)
  · exact equivalence_of_accepts_iff fun v w hv =>
      accepts_isEqual.trans (Value.isEqual_iff (hP v hv))

end Builtin

end StackScheme
