import StackScheme.Store

/-!
# Values of a store

What holds of every value that is put into a store holds of every value that comes out of
it.

* `Scope.Holds` and `Store.Holds` say that all bindings have a property, and `Store.Has`
  that some scope binds a name to a value.
* The functions on stores keep it, and `Store.Holds.lookup?` gives it back.
-/

namespace StackScheme

variable {P : Value → Prop}

/-! ## One scope -/

namespace Scope

/-- All values of the scope have the property. -/
def Holds (P : Value → Prop) (scope : Scope) : Prop :=
  ∀ binding ∈ scope.bindings, P binding.2

theorem mem_of_mem_replace {name : String} {v : Value} {bindings : List (String × Value)}
    {b : String × Value} (h : b ∈ replace name v bindings) : b ∈ bindings ∨ b.2 = v := by
  induction bindings with
  | nil => cases h
  | cons first rest ih =>
    rw [replace] at h
    split at h
    · rcases List.mem_cons.1 h with rfl | h
      · exact .inr rfl
      · exact .inl (List.mem_cons_of_mem _ h)
    · rcases List.mem_cons.1 h with rfl | h
      · exact .inl List.mem_cons_self
      · rcases ih h with h | h
        · exact .inl (List.mem_cons_of_mem _ h)
        · exact .inr h

theorem Holds.insert {scope : Scope} (h : scope.Holds P) (name : String) {v : Value} (hv : P v) :
    (scope.insert name v).Holds P := by
  intro b hb
  rw [Scope.insert] at hb
  dsimp only at hb
  split at hb
  · rcases mem_of_mem_replace hb with hb | hb
    · exact h b hb
    · exact hb ▸ hv
  · rcases List.mem_cons.1 hb with rfl | hb
    · exact hv
    · exact h b hb

theorem of_find? {bindings : List (String × Value)} {name : String} {v : Value}
    (h : ∀ b ∈ bindings, P b.2) (hfind : find? name bindings = some v) : P v := by
  induction bindings with
  | nil => cases hfind
  | cons first rest ih =>
    rw [find?] at hfind
    split at hfind
    · obtain rfl := Option.some.inj hfind
      exact h first List.mem_cons_self
    · exact ih (fun b hb => h b (List.mem_cons_of_mem _ hb)) hfind

end Scope

/-! ## All scopes -/

namespace Store

/-- All values of all scopes have the property. -/
def Holds (P : Value → Prop) (store : Store) : Prop :=
  ∀ (id : ScopeId) (scope : Scope), store.scopes[id]? = some scope → scope.Holds P

/-- Some scope binds a name to the value. -/
def Has (store : Store) (v : Value) : Prop :=
  ∃ (id : ScopeId) (scope : Scope), store.scopes[id]? = some scope ∧
    ∃ name, (name, v) ∈ scope.bindings

theorem Holds.of_has {store : Store} (h : store.Holds P) {v : Value} (hv : store.Has v) : P v := by
  obtain ⟨id, scope, hscope, name, hmem⟩ := hv
  exact h id scope hscope _ hmem

/-- The values that are there from the start. -/
theorem holds_initial (hspecial : ∀ form, P (.special form)) (hbuiltin : ∀ b, P (.builtin b)) :
    Store.initial.Holds P := by
  intro id scope hscope b hb
  have hscope : scope = { bindings := initialBindings } := by
    cases id with
    | zero => exact (Option.some.inj hscope).symm
    | succ id => simp [initial] at hscope
  subst hscope
  rcases List.mem_append.1 hb with hb | hb <;> obtain ⟨x, -, rfl⟩ := List.mem_map.1 hb
  · exact hspecial x
  · exact hbuiltin x

variable {store : Store}

theorem Holds.imp {Q : Value → Prop} (h : store.Holds P) (hPQ : ∀ v, P v → Q v) :
    store.Holds Q :=
  fun id scope hscope b hb => hPQ b.2 (h id scope hscope b hb)

theorem Holds.bind (h : store.Holds P) (id : ScopeId) (name : String) {v : Value} (hv : P v) :
    (store.bind id name v).Holds P := by
  intro other scope hscope
  rw [Store.bind, Array.getElem?_modify] at hscope
  split at hscope
  · obtain ⟨old, hold, rfl⟩ := Option.map_eq_some_iff.1 hscope
    exact (h other old hold).insert name hv
  · exact h other scope hscope

theorem Holds.extend (h : store.Holds P) (parent : ScopeId) {bindings : List (String × Value)}
    (hbindings : ∀ b ∈ bindings, P b.2) : (store.extend parent bindings).Holds P := by
  intro id scope hscope
  rw [Store.extend, Array.getElem?_push] at hscope
  split at hscope
  · obtain rfl := Option.some.inj hscope
    exact hbindings
  · exact h id scope hscope

theorem Holds.lookupFrom (h : store.Holds P) {fuel : Nat} {id : ScopeId} {name : String}
    {v : Value} (hv : store.lookupFrom fuel id name = some v) : P v := by
  induction fuel generalizing id with
  | zero => cases hv
  | succ fuel ih =>
    rw [Store.lookupFrom] at hv
    cases hscope : store.scopes[id]? with
    | none =>
      rw [hscope] at hv
      cases hv
    | some scope =>
      rw [hscope] at hv
      dsimp only at hv
      cases hget : scope.get? name with
      | some u =>
        rw [hget] at hv
        obtain rfl := Option.some.inj hv
        exact Scope.of_find? (h id scope hscope) hget
      | none =>
        rw [hget] at hv
        dsimp only at hv
        split at hv
        · cases hv
        · exact ih hv

theorem Holds.lookup? (h : store.Holds P) {id : ScopeId} {name : String} {v : Value}
    (hv : store.lookup? id name = some v) : P v :=
  h.lookupFrom hv

end Store

end StackScheme
