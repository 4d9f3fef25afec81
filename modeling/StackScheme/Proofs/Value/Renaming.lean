import StackScheme.Answer
import StackScheme.Builtin
import StackScheme.Proofs.Machine.Inside
import StackScheme.Store

/-!
# Values under new names

Closures and strings name nodes of the arena.  If all nodes get new names, the values
get new names too, and nothing that a program can see depends on them.

* Values.  `Value.rename` is a value under new names.  Its text and its type are the same.
* Errors.  `Error.rename` is an error under new names, with the same kind and message.
* Stores.  `Store.rename` is a store under new names, and one lemma for each operation
  says that the operation is the same under new names.
* Builtins.  `Builtin.call_rename` says this of all builtins.  Identity is why different
  nodes must keep different names.
-/

namespace StackScheme

variable (ρ : NodeId → NodeId)

/-! ## Values -/

/-- The closure with its body under new names. -/
def Closure.rename (c : Closure) : Closure :=
  { c with first := ρ c.first, rest := c.rest.map ρ }

/-- The value with its nodes under new names. -/
def Value.rename : Value → Value
  | .string contents literal => .string contents (ρ literal)
  | .closure c => .closure (c.rename ρ)
  | v => v

namespace Value

theorem rename_of_isPlain {v : Value} (h : v.IsPlain) : v.rename ρ = v := by
  cases v with
  | string contents literal => exact h.elim
  | closure c => exact h.elim
  | _ => rfl

theorem rename_ofAtom (id : NodeId) (a : Atom) : (ofAtom id a).rename ρ = ofAtom (ρ id) a := by
  cases a <;> rfl

@[simp] theorem isTruthy_rename (v : Value) : (v.rename ρ).isTruthy = v.isTruthy := by
  cases v <;> rfl

@[simp] theorem typeName_rename (v : Value) : (v.rename ρ).typeName = v.typeName := by
  cases v <;> rfl

@[simp] theorem text_rename (v : Value) : (v.rename ρ).text = v.text := by
  cases v <;> rfl

@[simp] theorem answer_rename (v : Value) : (v.rename ρ).answer = v.answer := by
  cases v <;> rfl

theorem rename_rename (σ : NodeId → NodeId) (v : Value) :
    (v.rename ρ).rename σ = v.rename fun id => σ (ρ id) := by
  cases v with
  | closure c => simp [rename, Closure.rename, Function.comp_def]
  | _ => rfl

/-- Different nodes keep different names, and so identity is the same. -/
theorem isEqv_rename (hρ : Function.Injective ρ) (v w : Value) :
    (v.rename ρ).isEqv (w.rename ρ) = v.isEqv w := by
  cases v <;> cases w <;> try rfl
  rename_i a l b m
  show (ρ l == ρ m) = (l == m)
  rw [Bool.eq_iff_iff, beq_iff_eq, beq_iff_eq]
  exact hρ.eq_iff

theorem isEqual_rename (v w : Value) : (v.rename ρ).isEqual (w.rename ρ) = v.isEqual w := by
  cases v <;> cases w <;> rfl

end Value

/-! ## Errors -/

/-- The error with the nodes of its values under new names. -/
def Error.rename : Error → Error
  | .wrongOperand b expected got => .wrongOperand b expected (got.rename ρ)
  | .notApplicable operator combination => .notApplicable (operator.rename ρ) combination
  | e => e

namespace Error

@[simp] theorem kind_rename (e : Error) : (e.rename ρ).kind = e.kind := by
  cases e <;> rfl

@[simp] theorem message_rename (e : Error) : (e.rename ρ).message = e.message := by
  cases e with
  | wrongOperand b expected got =>
    dsimp only [rename, message]
    rw [Value.typeName_rename, Value.text_rename]
  | notApplicable operator combination =>
    dsimp only [rename, message]
    rw [Value.text_rename]
  | _ => rfl

theorem OfNumbers.rename {e : Error} (h : e.OfNumbers) : e.rename ρ = e := by
  cases e with
  | wrongOperand b expected got => exact h.elim
  | notApplicable operator combination => exact h.elim
  | _ => rfl

end Error

theorem mapError_ok {α : Type} (a : α) :
    (Except.ok a).mapError (Error.rename ρ) = .ok a :=
  rfl

theorem mapError_error {α : Type} (e : Error) :
    (Except.error e : Except Error α).mapError (Error.rename ρ) = .error (e.rename ρ) :=
  rfl

/-- The errors of a computation with numbers hold no values. -/
theorem Computes.mapError_map {α β : Type} {P : α → Prop} {x : Except Error α}
    (h : Computes Error.OfNumbers P x) (f : α → β) :
    (x.map f).mapError (Error.rename ρ) = x.map f := by
  cases x with
  | ok a => rfl
  | error e => exact congrArg Except.error (Error.OfNumbers.rename ρ h)

/-! ## Stores -/

/-- The scope with the nodes of its values under new names. -/
def Scope.rename (scope : Scope) : Scope :=
  { scope with bindings := scope.bindings.map fun (name, v) => (name, v.rename ρ) }

namespace Scope

theorem find?_rename (name : String) (bindings : List (String × Value)) :
    find? name (bindings.map fun (name, v) => (name, v.rename ρ)) =
      (find? name bindings).map (Value.rename ρ) := by
  induction bindings with
  | nil => rfl
  | cons binding rest ih =>
    obtain ⟨n, v⟩ := binding
    rw [List.map_cons, find?, find?, ih]
    split <;> rfl

theorem replace_rename (name : String) (v : Value) (bindings : List (String × Value)) :
    (replace name v bindings).map (fun (name, v) => (name, v.rename ρ)) =
      replace name (v.rename ρ) (bindings.map fun (name, v) => (name, v.rename ρ)) := by
  induction bindings with
  | nil => rfl
  | cons binding rest ih =>
    obtain ⟨n, w⟩ := binding
    rw [List.map_cons, replace, replace, ← ih]
    split <;> rfl

theorem get?_rename (scope : Scope) (name : String) :
    (scope.rename ρ).get? name = (scope.get? name).map (Value.rename ρ) :=
  find?_rename ρ name scope.bindings

theorem rename_insert (scope : Scope) (name : String) (v : Value) :
    (scope.insert name v).rename ρ = (scope.rename ρ).insert name (v.rename ρ) := by
  have hfind := find?_rename ρ name scope.bindings
  unfold insert rename
  dsimp only
  rw [hfind, Option.isSome_map]
  split
  · rw [replace_rename]
  · rfl

theorem rename_rename (σ : NodeId → NodeId) (scope : Scope) :
    (scope.rename ρ).rename σ = scope.rename fun id => σ (ρ id) := by
  simp [rename, Function.comp_def, Value.rename_rename]

end Scope

/-- The store with the nodes of its values under new names. -/
def Store.rename (store : Store) : Store :=
  { store with scopes := store.scopes.map (Scope.rename ρ) }

namespace Store

theorem rename_rename (σ : NodeId → NodeId) (store : Store) :
    (store.rename ρ).rename σ = store.rename fun id => σ (ρ id) := by
  simp [rename, Function.comp_def, Scope.rename_rename]

theorem rename_initial : initial.rename ρ = initial := by
  simp [initial, rename, Scope.rename, initialBindings, Function.comp_def, Value.rename]

theorem lookupFrom_rename (store : Store) (fuel : Nat) (id : ScopeId) (name : String) :
    (store.rename ρ).lookupFrom fuel id name =
      (store.lookupFrom fuel id name).map (Value.rename ρ) := by
  induction fuel generalizing id with
  | zero => rfl
  | succ fuel ih =>
    rw [lookupFrom, lookupFrom, rename, Array.getElem?_map]
    cases store.scopes[id]? with
    | none => rfl
    | some scope =>
      dsimp only [Option.map_some]
      rw [Scope.get?_rename]
      cases scope.get? name with
      | some v => rfl
      | none =>
        dsimp only [Option.map_none, Scope.rename]
        cases scope.parent with
        | none => rfl
        | some parent => exact ih parent

theorem lookup?_rename (store : Store) (id : ScopeId) (name : String) :
    (store.rename ρ).lookup? id name = (store.lookup? id name).map (Value.rename ρ) :=
  lookupFrom_rename ρ store (id + 1) id name

theorem holderFrom_rename (store : Store) (fuel : Nat) (id : ScopeId) (name : String) :
    (store.rename ρ).holderFrom fuel id name = store.holderFrom fuel id name := by
  induction fuel generalizing id with
  | zero => rfl
  | succ fuel ih =>
    rw [holderFrom, holderFrom, rename, Array.getElem?_map]
    cases store.scopes[id]? with
    | none => rfl
    | some scope =>
      dsimp only [Option.map_some]
      rw [Scope.get?_rename]
      cases scope.get? name with
      | some v => rfl
      | none =>
        dsimp only [Option.map_none, Scope.rename]
        cases scope.parent with
        | none => rfl
        | some parent => exact ih parent

theorem holder?_rename (store : Store) (id : ScopeId) (name : String) :
    (store.rename ρ).holder? id name = store.holder? id name :=
  holderFrom_rename ρ store (id + 1) id name

theorem rename_bind (store : Store) (id : ScopeId) (name : String) (v : Value) :
    (store.bind id name v).rename ρ = (store.rename ρ).bind id name (v.rename ρ) := by
  unfold bind rename
  congr 1
  apply Array.ext_getElem?
  intro i
  simp only [Array.getElem?_map, Array.getElem?_modify]
  split
  · cases store.scopes[i]? with
    | none => rfl
    | some scope => exact congrArg some (Scope.rename_insert ρ scope name v)
  · rfl

theorem rename_extend (store : Store) (parent : ScopeId) (bindings : List (String × Value)) :
    (store.extend parent bindings).rename ρ =
      (store.rename ρ).extend parent (bindings.map fun (name, v) => (name, v.rename ρ)) := by
  simp [extend, rename, Scope.rename]

theorem nextScope_rename (store : Store) : (store.rename ρ).nextScope = store.nextScope := by
  simp [nextScope, rename]

end Store

/-! ## Builtins -/

namespace Builtin

theorem number_rename (b : Builtin) (v : Value) :
    b.number (v.rename ρ) = (b.number v).mapError (Error.rename ρ) := by
  cases v <;> rfl

theorem integer_rename (b : Builtin) (v : Value) :
    b.integer (v.rename ρ) = (b.integer v).mapError (Error.rename ρ) := by
  cases v <;> rfl

theorem string_rename (b : Builtin) (v : Value) :
    b.string (v.rename ρ) = (b.string v).mapError (Error.rename ρ) := by
  cases v <;> rfl

theorem checkAll_rename {α : Type} {check : Value → Except Error α}
    (hcheck : ∀ v, check (v.rename ρ) = (check v).mapError (Error.rename ρ)) (args : List Value) :
    checkAll check (args.map (Value.rename ρ)) =
      (checkAll check args).mapError (Error.rename ρ) := by
  induction args with
  | nil => rfl
  | cons v vs ih =>
    rw [List.map_cons, checkAll, checkAll, hcheck, ih]
    cases check v with
    | error e => rfl
    | ok a => cases checkAll check vs <;> rfl

variable (b : Builtin) (args : List Value)

theorem arithmetic_rename {compute : List Number → Except Error Number}
    (hcompute : ∀ xs, ComputesSome Error.OfNumbers (compute xs)) :
    b.arithmetic compute (args.map (Value.rename ρ)) =
      (b.arithmetic compute args).mapError (Error.rename ρ) := by
  rw [arithmetic, arithmetic, checkAll_rename ρ (b.number_rename ρ)]
  cases checkAll b.number args with
  | error e => rfl
  | ok xs => exact ((hcompute xs).mapError_map ρ _).symm

theorem integerDivision_rename (divide : Int64 → Int64 → Option Int64) :
    b.integerDivision divide (args.map (Value.rename ρ)) =
      (b.integerDivision divide args).mapError (Error.rename ρ) := by
  rw [integerDivision, integerDivision, checkAll_rename ρ (b.integer_rename ρ)]
  rcases checkAll b.integer args with e | _ | ⟨m, _ | ⟨n, _ | ⟨k, ns⟩⟩⟩
  · rfl
  · rfl
  · rfl
  · dsimp only [mapError_ok]
    split
    · rfl
    · cases divide m n <;> rfl
  · rfl

theorem onMagnitudes_rename (compute : List Nat → Option Nat) :
    b.onMagnitudes compute (args.map (Value.rename ρ)) =
      (b.onMagnitudes compute args).mapError (Error.rename ρ) := by
  rw [onMagnitudes, onMagnitudes, checkAll_rename ρ (b.integer_rename ρ)]
  rcases checkAll b.integer args with e | ns
  · rfl
  · dsimp only [mapError_ok]
    split <;> rfl

theorem predicate_rename {test : Value → Bool} (htest : ∀ v : Value, test (v.rename ρ) = test v) :
    b.predicate test (args.map (Value.rename ρ)) =
      (b.predicate test args).mapError (Error.rename ρ) := by
  rcases args with _ | ⟨v, _ | ⟨w, args⟩⟩
  · rfl
  · show Except.ok (Reply.value (.boolean (test (v.rename ρ)))) = _
    rw [htest]
    rfl
  · simp [predicate, mapError_error, Error.rename]

theorem relation_rename {test : Value → Value → Bool}
    (htest : ∀ v w : Value, test (v.rename ρ) (w.rename ρ) = test v w) :
    b.relation test (args.map (Value.rename ρ)) =
      (b.relation test args).mapError (Error.rename ρ) := by
  rcases args with _ | ⟨v, _ | ⟨w, _ | ⟨x, args⟩⟩⟩
  · rfl
  · rfl
  · show Except.ok (Reply.value (.boolean (test (v.rename ρ) (w.rename ρ)))) = _
    rw [htest]
    rfl
  · simp [relation, mapError_error, Error.rename]

theorem comparison_rename {α : Type} {check : Value → Except Error α}
    (hcheck : ∀ v, check (v.rename ρ) = (check v).mapError (Error.rename ρ))
    (test : α → α → Bool) :
    b.comparison check test (args.map (Value.rename ρ)) =
      (b.comparison check test args).mapError (Error.rename ρ) := by
  rw [comparison, comparison, checkAll_rename ρ hcheck]
  rcases checkAll check args with e | _ | ⟨x, _ | ⟨y, _ | ⟨z, xs⟩⟩⟩ <;> rfl

theorem onNumber_rename {compute : Number → Except Error Value}
    (hcompute : ∀ x, Computes Error.OfNumbers Value.IsPlain (compute x)) :
    b.onNumber compute (args.map (Value.rename ρ)) =
      (b.onNumber compute args).mapError (Error.rename ρ) := by
  rw [onNumber, onNumber, checkAll_rename ρ (b.number_rename ρ)]
  rcases checkAll b.number args with e | _ | ⟨x, _ | ⟨y, xs⟩⟩
  · rfl
  · rfl
  · exact ((hcompute x).mapError_map ρ _).symm
  · rfl

theorem compute_rename (hρ : Function.Injective ρ) :
    b.compute (args.map (Value.rename ρ)) = (b.compute args).mapError (Error.rename ρ) := by
  cases b with
  | add | multiply =>
    exact arithmetic_rename ρ _ args fun xs =>
      Number.computes_fold (Number.computes_combine _ _ _) _ xs
  | subtract =>
    exact arithmetic_rename ρ _ args fun xs =>
      Number.computes_foldFromFirst (Number.computes_combine _ _ _) _ xs
  | divide =>
    exact arithmetic_rename ρ _ args fun xs =>
      Number.computes_foldFromFirst Number.computes_divide _ xs
  | compare c => exact comparison_rename ρ _ args (number_rename ρ _) _
  | compareStrings c => exact comparison_rename ρ _ args (string_rename ρ _) _
  | abs => exact onNumber_rename ρ _ args computes_magnitude
  | isExact | isInexact => exact onNumber_rename ρ _ args fun _ => trivial
  | quotient | remainder | modulo => exact integerDivision_rename ρ _ args _
  | gcd => exact onMagnitudes_rename ρ gcd args fun ns => some (Integer.gcd ns)
  | lcm => exact onMagnitudes_rename ρ lcm args (Integer.lcm? 1)
  | not | isNumber | isInteger | isBoolean | isString | isSymbol | isProcedure =>
    exact predicate_rename ρ _ args fun v => by cases v <;> rfl
  | isEqv | isEq => exact relation_rename ρ _ args (Value.isEqv_rename ρ hρ)
  | isEqual => exact relation_rename ρ _ args (Value.isEqual_rename ρ)
  | display =>
    rcases args with _ | ⟨v, _ | ⟨w, args⟩⟩
    · rfl
    · show Except.ok (Reply.output (v.rename ρ).text) = _
      rw [Value.text_rename]
      rfl
    · simp [compute, mapError_error, Error.rename]
  | newline => rfl

/-- A builtin does the same under new names.  What it computes names no node. -/
theorem call_rename (hρ : Function.Injective ρ) :
    b.call (args.map (Value.rename ρ)) = (b.call args).mapError (Error.rename ρ) := by
  rw [call, call, List.length_map]
  split
  · exact compute_rename ρ b args hρ
  · rfl

end Builtin

end StackScheme
