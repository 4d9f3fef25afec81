import StackScheme.Machine.Step
import StackScheme.Proofs.Store.Values

/-!
# Values that refer to nodes

Procedures name the nodes of their bodies, and so values that live in the store
or on the operand stack may refer to an arena.  A value is inside of an arena if
the nodes that it names are below the size of the arena.

* `Value.Inside` and `Store.Inside` say that a value or all bindings of a store
  are inside.  The functions on stores keep this.
* `Faultless` says that a function of the machine ends well or with an error that
  a program may cause, but with no fault.
* `Computes` says that a function ends well or with an error of some kind.
  `Builtin.computes_call` says this of every builtin, and that what builtins compute
  names no node.
-/

namespace StackScheme

/-! ## Values -/

/-- The body of a procedure lies below `size`. -/
def Closure.Inside (size : Nat) (c : Closure) : Prop :=
  c.first < size ∧ ∀ node ∈ c.rest, node < size

/-- All nodes that a value names lie below `size`. -/
def Value.Inside (size : Nat) : Value → Prop
  | .closure c => c.Inside size
  | _ => True

theorem Value.Inside.mono {size size' : Nat} {v : Value} (h : v.Inside size)
    (hle : size ≤ size') : v.Inside size' := by
  cases v with
  | closure c =>
    exact ⟨Nat.lt_of_lt_of_le h.1 hle, fun node hn => Nat.lt_of_lt_of_le (h.2 node hn) hle⟩
  | _ => trivial

theorem Value.inside_ofAtom (size : Nat) (id : NodeId) (a : Atom) : (ofAtom id a).Inside size := by
  cases a <;> trivial

/-- The value names no node. -/
def Value.IsPlain : Value → Prop
  | .string .. | .closure _ => False
  | _ => True

theorem Value.IsPlain.inside {v : Value} (h : v.IsPlain) (size : Nat) : v.Inside size := by
  cases v with
  | closure c => exact h.elim
  | _ => trivial

/-! ## Stores -/

/-- All bindings are inside. -/
def Scope.Inside (size : Nat) (scope : Scope) : Prop :=
  ∀ binding ∈ scope.bindings, binding.2.Inside size

namespace Store

/-- All bindings of all scopes are inside. -/
def Inside (size : Nat) (store : Store) : Prop :=
  ∀ (id : ScopeId) (scope : Scope), store.scopes[id]? = some scope → scope.Inside size

theorem inside_initial (size : Nat) : Store.initial.Inside size :=
  holds_initial (fun _ => trivial) fun _ => trivial

variable {size : Nat} {store : Store}

theorem Inside.mono {size' : Nat} (h : store.Inside size) (hle : size ≤ size') :
    store.Inside size' :=
  Holds.imp h fun _ hv => hv.mono hle

theorem Inside.bind (h : store.Inside size) (id : ScopeId) (name : String) {v : Value}
    (hv : v.Inside size) : (store.bind id name v).Inside size :=
  Holds.bind h id name hv

theorem Inside.extend (h : store.Inside size) (parent : ScopeId)
    {bindings : List (String × Value)} (hbindings : ∀ b ∈ bindings, b.2.Inside size) :
    (store.extend parent bindings).Inside size :=
  Holds.extend h parent hbindings

theorem Inside.newSerial (h : store.Inside size) : store.newSerial.Inside size :=
  h

theorem Inside.lookupFrom (h : store.Inside size) {fuel : Nat} {id : ScopeId} {name : String}
    {v : Value} (hv : store.lookupFrom fuel id name = some v) : v.Inside size :=
  Holds.lookupFrom h hv

end Store

/-! ## Faults -/

/-- The machine is to blame for the error, not the program. -/
def Error.IsFault : Error → Prop
  | .internal _ => True
  | _ => False

/-- The outcome is an error that a program may cause, or it has the property. -/
def Faultless {α : Type} (P : α → Prop) : Except Error α → Prop
  | .ok a => P a
  | .error e => ¬ e.IsFault

/-- Some result or an error that a program may cause. -/
abbrev NoFault {α : Type} (x : Except Error α) : Prop :=
  Faultless (fun _ => True) x

/-- The error is one of a computation with numbers. -/
def Error.OfNumbers : Error → Prop
  | .divisionByZero | .overflow _ => True
  | _ => False

/-- The error is one that builtins have. -/
def Error.OfBuiltin : Error → Prop
  | .arity .. | .wrongOperand .. => True
  | e => e.OfNumbers

theorem Error.OfNumbers.ofBuiltin {e : Error} (h : e.OfNumbers) : e.OfBuiltin := by
  cases e with
  | arity callee expected received => trivial
  | wrongOperand b expected got => trivial
  | _ => exact h

/-- The outcome is an error of some kind, or it has the property. -/
def Computes {α : Type} (E : Error → Prop) (P : α → Prop) : Except Error α → Prop
  | .ok a => P a
  | .error e => E e

/-- Some result or an error of some kind. -/
abbrev ComputesSome {α : Type} (E : Error → Prop) (x : Except Error α) : Prop :=
  Computes E (fun _ => True) x

theorem Computes.map {α β : Type} {E E' : Error → Prop} {P : α → Prop} {Q : β → Prop}
    {x : Except Error α} {f : α → β} (hx : Computes E P x) (hE : ∀ {e}, E e → E' e)
    (hf : ∀ a, P a → Q (f a)) : Computes E' Q (x.map f) := by
  cases x with
  | ok a => exact hf a hx
  | error e => exact hE hx

theorem Computes.faultless {α : Type} {P : α → Prop} {x : Except Error α}
    (hx : Computes Error.OfBuiltin P x) : Faultless P x := by
  cases x with
  | ok a => exact hx
  | error e =>
    intro hfault
    cases e with
    | internal fault => exact hx
    | _ => exact hfault

/-! ## Numbers -/

namespace Number

theorem computes_combine (sign : String) (exact : Int → Int → Int)
    (inexact : Float → Float → Float) (a b : Number) :
    ComputesSome Error.OfNumbers (combine sign exact inexact a b) := by
  unfold combine
  split
  · split
    · trivial
    · trivial
  · trivial

theorem computes_divide (a b : Number) : ComputesSome Error.OfNumbers (divide a b) := by
  unfold divide
  split
  · trivial
  · split
    · split
      · split
        · trivial
        · trivial
      · trivial
    · trivial

section Folds

variable {op : Number → Number → Except Error Number}
  (hop : ∀ a b, ComputesSome Error.OfNumbers (op a b))
include hop

theorem computes_fold (acc : Number) (xs : List Number) :
    ComputesSome Error.OfNumbers (fold op acc xs) := by
  induction xs generalizing acc with
  | nil => trivial
  | cons x xs ih =>
    have hx := hop acc x
    rw [fold]
    cases hacc : op acc x with
    | ok acc' => exact ih acc'
    | error e =>
      rw [hacc] at hx
      exact hx

theorem computes_foldFromFirst (unit : Number) (xs : List Number) :
    ComputesSome Error.OfNumbers (foldFromFirst op unit xs) := by
  unfold foldFromFirst
  split
  · trivial
  · exact hop unit _
  · exact computes_fold hop _ _

end Folds

end Number

/-! ## Builtins -/

namespace Builtin

/-- The reply names no node. -/
def Reply.IsPlain : Reply → Prop
  | .value v => v.IsPlain
  | .output _ => True

theorem computes_number (b : Builtin) (v : Value) : ComputesSome Error.OfBuiltin (b.number v) := by
  cases v <;> trivial

theorem computes_integer (b : Builtin) (v : Value) :
    ComputesSome Error.OfBuiltin (b.integer v) := by
  cases v <;> trivial

theorem computes_string (b : Builtin) (v : Value) : ComputesSome Error.OfBuiltin (b.string v) := by
  cases v <;> trivial

theorem computes_checkAll {α : Type} {check : Value → Except Error α}
    (hcheck : ∀ v, ComputesSome Error.OfBuiltin (check v)) (args : List Value) :
    ComputesSome Error.OfBuiltin (checkAll check args) := by
  induction args with
  | nil => trivial
  | cons v vs ih =>
    have hv := hcheck v
    rw [checkAll]
    cases hc : check v with
    | error e =>
      rw [hc] at hv
      exact hv
    | ok a =>
      dsimp only
      cases hrest : checkAll check vs with
      | error e =>
        rw [hrest] at ih
        exact ih
      | ok as => trivial

variable (b : Builtin) (args : List Value)

theorem computes_arithmetic {compute : List Number → Except Error Number}
    (hcompute : ∀ xs, ComputesSome Error.OfNumbers (compute xs)) :
    Computes Error.OfBuiltin Reply.IsPlain (b.arithmetic compute args) := by
  have hcheck := computes_checkAll b.computes_number args
  rw [arithmetic]
  split
  · rename_i e he
    rw [he] at hcheck
    exact hcheck
  · refine (hcompute _).map Error.OfNumbers.ofBuiltin fun x _ => ?_
    cases x <;> trivial

theorem computes_integerDivision (divide : Int64 → Int64 → Option Int64) :
    Computes Error.OfBuiltin Reply.IsPlain (b.integerDivision divide args) := by
  have hcheck := computes_checkAll b.computes_integer args
  rw [integerDivision]
  split
  · split
    · trivial
    · split
      · trivial
      · trivial
  · trivial
  · rename_i e he
    rw [he] at hcheck
    exact hcheck

theorem computes_onMagnitudes (compute : List Nat → Option Nat) :
    Computes Error.OfBuiltin Reply.IsPlain (b.onMagnitudes compute args) := by
  have hcheck := computes_checkAll b.computes_integer args
  rw [onMagnitudes]
  split
  · rename_i e he
    rw [he] at hcheck
    exact hcheck
  · split
    · trivial
    · trivial

theorem computes_predicate (test : Value → Bool) :
    Computes Error.OfBuiltin Reply.IsPlain (b.predicate test args) := by
  unfold predicate
  split
  · trivial
  · trivial

theorem computes_relation (test : Value → Value → Bool) :
    Computes Error.OfBuiltin Reply.IsPlain (b.relation test args) := by
  unfold relation
  split
  · trivial
  · trivial

theorem computes_comparison {α : Type} {check : Value → Except Error α}
    (hcheck : ∀ v, ComputesSome Error.OfBuiltin (check v)) (test : α → α → Bool) :
    Computes Error.OfBuiltin Reply.IsPlain (b.comparison check test args) := by
  have hcheck := computes_checkAll hcheck args
  rw [comparison]
  split
  · trivial
  · trivial
  · rename_i e he
    rw [he] at hcheck
    exact hcheck

theorem computes_onNumber {compute : Number → Except Error Value}
    (hcompute : ∀ x, Computes Error.OfNumbers Value.IsPlain (compute x)) :
    Computes Error.OfBuiltin Reply.IsPlain (b.onNumber compute args) := by
  have hcheck := computes_checkAll b.computes_number args
  rw [onNumber]
  split
  · exact (hcompute _).map Error.OfNumbers.ofBuiltin fun _ hv => hv
  · trivial
  · rename_i e he
    rw [he] at hcheck
    exact hcheck

theorem computes_magnitude (x : Number) :
    Computes Error.OfNumbers Value.IsPlain (magnitude x) := by
  cases x with
  | integer n =>
    rw [magnitude]
    split
    · trivial
    · trivial
  | float x => trivial

/-- A builtin that gets as many arguments as it takes has no errors but its own. -/
theorem computes_compute : Computes Error.OfBuiltin Reply.IsPlain (b.compute args) := by
  cases b with
  | add | multiply =>
    exact computes_arithmetic _ args fun xs =>
      Number.computes_fold (Number.computes_combine _ _ _) _ xs
  | subtract =>
    exact computes_arithmetic _ args fun xs =>
      Number.computes_foldFromFirst (Number.computes_combine _ _ _) _ xs
  | divide =>
    exact computes_arithmetic _ args fun xs =>
      Number.computes_foldFromFirst Number.computes_divide _ xs
  | compare c => exact computes_comparison _ args (computes_number _) _
  | compareStrings c => exact computes_comparison _ args (computes_string _) _
  | abs => exact computes_onNumber _ args computes_magnitude
  | isExact | isInexact => exact computes_onNumber _ args fun _ => trivial
  | quotient | remainder | modulo => exact computes_integerDivision _ args _
  | gcd => exact computes_onMagnitudes gcd args fun ns => some (Integer.gcd ns)
  | lcm => exact computes_onMagnitudes lcm args (Integer.lcm? 1)
  | not | isNumber | isInteger | isBoolean | isString | isSymbol | isProcedure =>
    exact computes_predicate _ args _
  | isEqv | isEq | isEqual => exact computes_relation _ args _
  | display =>
    rcases args with _ | ⟨v, _ | ⟨w, rest⟩⟩
    · trivial
    · trivial
    · trivial
  | newline => trivial

/-- A builtin has no errors but its own and makes neither procedures nor strings,
whatever it is given. -/
theorem computes_call : Computes Error.OfBuiltin Reply.IsPlain (b.call args) := by
  rw [call]
  split
  · exact computes_compute b args
  · trivial

theorem faultless_call : Faultless Reply.IsPlain (b.call args) :=
  (computes_call b args).faultless

end Builtin

end StackScheme
