import StackScheme.Value

/-!
# The store of scopes

A scope binds names to values and lies inside of its parent; the global scope
has no parent.  Scopes live in a store and are named by their place in it, so
that all closures made in one scope see the same bindings.

* One scope.  `Scope.get?` reads a binding and `Scope.insert` adds or replaces
  one; `Scope.get?_insert` is the law between them.
* Chains.  `Store.lookup?` finds the value of a name in the nearest scope that
  binds it, and `Store.holder?` finds that scope.  A parent has a smaller index
  than its children, so the index of a scope bounds the length of its chain.
* Changes.  `bind` touches one scope, `extend` adds a scope, and `newSerial`
  counts closures.
* `Store.initial` has the global scope with the special forms and builtins.
-/

namespace StackScheme

/-- Names bound to values, inside of a parent scope. -/
structure Scope where
  bindings : List (String × Value) := []
  parent : Option ScopeId := none

namespace Scope

/-- The value of a name in a list of bindings. -/
def find? (name : String) : List (String × Value) → Option Value
  | [] => none
  | (n, v) :: rest => if n = name then some v else find? name rest

/-- The value of a name in this scope alone. -/
def get? (scope : Scope) (name : String) : Option Value :=
  find? name scope.bindings

/-- Replaces the value of a name in a list of bindings. -/
def replace (name : String) (value : Value) : List (String × Value) → List (String × Value)
  | [] => []
  | (n, v) :: rest => if n = name then (n, value) :: rest else (n, v) :: replace name value rest

/-- The scope with `name` bound to `value`. -/
def insert (scope : Scope) (name : String) (value : Value) : Scope :=
  { scope with
    bindings :=
      if (find? name scope.bindings).isSome then replace name value scope.bindings
      else (name, value) :: scope.bindings }

/-- Replacing the value of a name that is there changes that name alone. -/
theorem find?_replace (name other : String) (value : Value) (bindings : List (String × Value)) :
    find? other (replace name value bindings) =
      if other = name then (find? name bindings).map fun _ => value
      else find? other bindings := by
  induction bindings with
  | nil => simp [replace, find?]
  | cons b rest ih =>
    obtain ⟨n, v⟩ := b
    by_cases hn : n = name
    · subst hn
      by_cases ho : other = n
      · simp [replace, find?, ho]
      · have hne : n ≠ other := fun h => ho h.symm
        simp [replace, find?, ho, hne]
    · by_cases ho : other = name
      · subst ho
        simp [replace, find?, hn, ih]
      · simp [replace, find?, hn, ho, ih]

/-- Binding a name changes what that name gives, and nothing else. -/
@[simp] theorem get?_insert (scope : Scope) (name other : String) (value : Value) :
    (scope.insert name value).get? other =
      if other = name then some value else scope.get? other := by
  unfold insert get?
  cases h : find? name scope.bindings with
  | none =>
    by_cases ho : other = name
    · simp [find?, ho]
    · have hne : name ≠ other := fun e => ho e.symm
      simp [find?, ho, hne]
  | some v =>
    simp only [Option.isSome_some, if_true, find?_replace, h, Option.map_some]

end Scope

/-- All scopes made so far, and the number of closures made so far. -/
structure Store where
  scopes : Array Scope
  closures : Nat := 0

namespace Store

/-! ## Chains -/

/-- Looks for a name in at most `fuel` scopes of a chain. -/
def lookupFrom (store : Store) : (fuel : Nat) → ScopeId → String → Option Value
  | 0, _, _ => none
  | fuel + 1, id, name =>
    match store.scopes[id]? with
    | none => none
    | some scope =>
      match scope.get? name with
      | some value => some value
      | none =>
        match scope.parent with
        | none => none
        | some parent => store.lookupFrom fuel parent name

/-- The value of a name as seen from a scope. -/
def lookup? (store : Store) (id : ScopeId) (name : String) : Option Value :=
  store.lookupFrom (id + 1) id name

/-- Looks for a scope that binds a name among at most `fuel` scopes of a
chain. -/
def holderFrom (store : Store) : (fuel : Nat) → ScopeId → String → Option ScopeId
  | 0, _, _ => none
  | fuel + 1, id, name =>
    match store.scopes[id]? with
    | none => none
    | some scope =>
      match scope.get? name with
      | some _ => some id
      | none =>
        match scope.parent with
        | none => none
        | some parent => store.holderFrom fuel parent name

/-- The nearest scope that binds a name. -/
def holder? (store : Store) (id : ScopeId) (name : String) : Option ScopeId :=
  store.holderFrom (id + 1) id name

/-! ## Changes -/

/-- Binds a name in one scope, whether or not it is bound there already. -/
def bind (store : Store) (id : ScopeId) (name : String) (value : Value) : Store :=
  { store with scopes := store.scopes.modify id (·.insert name value) }

/-- The scope that `extend` adds next. -/
def nextScope (store : Store) : ScopeId :=
  store.scopes.size

/-- Adds a scope inside of `parent`. -/
def extend (store : Store) (parent : ScopeId) (bindings : List (String × Value)) : Store :=
  { store with scopes := store.scopes.push { bindings, parent := some parent } }

/-- Counts one more closure. -/
def newSerial (store : Store) : Store :=
  { store with closures := store.closures + 1 }

/-! ## The start -/

/-- The place of the global scope. -/
def globalScope : ScopeId := 0

/-- The bindings that are there from the start. -/
def initialBindings : List (String × Value) :=
  SpecialForm.all.map (fun form => (form.name, .special form)) ++
    Builtin.all.map (fun b => (b.name, .builtin b))

/-- The store with the global scope alone. -/
def initial : Store where
  scopes := #[{ bindings := initialBindings }]

end Store

end StackScheme
