import StackScheme.Store

/-!
# Chains of scopes

Scopes are nested: a scope lies inside of its parent, and this goes on up to the global
scope.  A name is looked for along this chain, and the nearest scope that binds it decides.
Changing one scope therefore changes what some scopes see of one name, and nothing else.

* Chains.  `Chain` is the way from a scope to a scope without a parent, and `Nested` says
  that parents come first and the global scope alone has none.  `Nested.exists_chain` says
  that each scope has its chain, and `Chain.nodup` that no scope is there twice.
* Names.  `Nearest` is the nearest scope that binds a name, and `Contains` says that there
  is one.  `holder?_eq_some_iff` and `lookup?_eq_some_iff` say that this is what
  `holder?` and `lookup?` find.
* Updates.  `Rebinds` says what is seen of a store after one slot has been changed.
  `rebinds_bind` says it of `bind`, and `holder?_cases` of a change to the nearest binding.
* Growth.  `Grows` says that no scope, no link to a parent and no binding goes away.
-/

namespace StackScheme.Store

/-- The value that a scope itself binds a name to. -/
def binding? (store : Store) (id : ScopeId) (name : String) : Option Value :=
  store.scopes[id]?.bind (·.get? name)

/-- Only scopes of the store bind names. -/
theorem lt_size_of_isSome_binding? {store : Store} {id : ScopeId} {name : String}
    (h : (store.binding? id name).isSome) : id < store.scopes.size := by
  rcases Nat.lt_or_ge id store.scopes.size with hlt | hge
  · exact hlt
  · rw [binding?, Array.getElem?_eq_none hge] at h
    cases h

/-! ## Chains -/

/-- The scopes from `id` outwards, each of them the parent of the one before. -/
inductive Chain (store : Store) : (id : ScopeId) → List ScopeId → Prop
  | last {id : ScopeId} {scope : Scope} (hscope : store.scopes[id]? = some scope)
    (hparent : scope.parent = none) : Chain store id [id]
  | inside {id parent : ScopeId} {scope : Scope} {ids : List ScopeId}
    (hscope : store.scopes[id]? = some scope) (hparent : scope.parent = some parent)
    (hids : Chain store parent ids) : Chain store id (id :: ids)

/-- Parents come before the scopes inside of them, and the global scope is the only one
without a parent. -/
structure Nested (store : Store) : Prop where
  size_pos : 0 < store.scopes.size
  parent_lt {id parent : ScopeId} {scope : Scope} (hscope : store.scopes[id]? = some scope)
    (hparent : scope.parent = some parent) : parent < id
  eq_global {id : ScopeId} {scope : Scope} (hscope : store.scopes[id]? = some scope)
    (hparent : scope.parent = none) : id = globalScope

section Chains

variable {store : Store} {id : ScopeId} {ids : List ScopeId}

theorem Chain.lt_size (h : store.Chain id ids) : id < store.scopes.size := by
  cases h with
  | last hscope _ => exact (Array.getElem?_eq_some_iff.1 hscope).1
  | inside hscope _ _ => exact (Array.getElem?_eq_some_iff.1 hscope).1

/-- A scope has one chain. -/
theorem Chain.inj {ids' : List ScopeId} (h : store.Chain id ids) (h' : store.Chain id ids') :
    ids = ids' := by
  induction h generalizing ids' with
  | last hscope hparent =>
    cases h' with
    | last _ _ => rfl
    | inside hscope' hparent' _ =>
      rw [hscope, Option.some.injEq] at hscope'
      rw [← hscope', hparent] at hparent'
      cases hparent'
  | inside hscope hparent _ ih =>
    cases h' with
    | last hscope' hparent' =>
      rw [hscope, Option.some.injEq] at hscope'
      rw [← hscope', hparent] at hparent'
      cases hparent'
    | inside hscope' hparent' hids' =>
      rw [hscope, Option.some.injEq] at hscope'
      rw [← hscope', hparent, Option.some.injEq] at hparent'
      subst hparent'
      rw [ih hids']

variable (hnested : store.Nested)
include hnested

/-- Every scope has a chain. -/
theorem Nested.exists_chain (h : id < store.scopes.size) : ∃ ids, store.Chain id ids := by
  induction id using Nat.strongRecOn with
  | _ id ih =>
    have hscope := Array.getElem?_eq_getElem h
    generalize store.scopes[id] = scope at hscope
    cases hparent : scope.parent with
    | none => exact ⟨[id], .last hscope hparent⟩
    | some parent =>
      have hlt := hnested.parent_lt hscope hparent
      obtain ⟨ids, hids⟩ := ih parent hlt (Nat.lt_trans hlt h)
      exact ⟨id :: ids, .inside hscope hparent hids⟩

/-- Scopes on a chain come ever earlier. -/
theorem Chain.le (h : store.Chain id ids) {other : ScopeId} (hmem : other ∈ ids) :
    other ≤ id := by
  induction h with
  | last _ _ => exact Nat.le_of_eq (List.mem_singleton.1 hmem)
  | inside hscope hparent _ ih =>
    have hlt := hnested.parent_lt hscope hparent
    rcases List.mem_cons.1 hmem with rfl | hmem
    · exact Nat.le_refl _
    · exact Nat.le_trans (ih hmem) (Nat.le_of_lt hlt)

/-- No scope is inside of itself. -/
theorem Chain.nodup (h : store.Chain id ids) : ids.Nodup := by
  induction h with
  | last _ _ => simp
  | inside hscope hparent hids ih =>
    refine List.nodup_cons.2 ⟨fun hmem => ?_, ih⟩
    have hlt := hnested.parent_lt hscope hparent
    exact absurd (hids.le hnested hmem) (Nat.not_le_of_gt hlt)

/-- All chains end at the global scope. -/
theorem Chain.getLast? (h : store.Chain id ids) : ids.getLast? = some globalScope := by
  induction h with
  | last hscope hparent => rw [hnested.eq_global hscope hparent, List.getLast?_singleton]
  | inside _ _ _ ih => rw [List.getLast?_cons, ih, Option.getD_some]

/-- The place of a scope bounds the length of its chain. -/
theorem Chain.length_le (h : store.Chain id ids) : ids.length ≤ id + 1 := by
  induction h with
  | last _ _ => exact Nat.succ_le_succ (Nat.zero_le _)
  | inside hscope hparent _ ih =>
    have hlt := hnested.parent_lt hscope hparent
    exact Nat.succ_le_succ (Nat.le_trans ih hlt)

end Chains

/-! ## Names -/

/-- The scope `holder` is the nearest one to `id` that binds the name. -/
def Nearest (store : Store) (id : ScopeId) (name : String) (holder : ScopeId) : Prop :=
  ∃ before after, store.Chain id (before ++ holder :: after) ∧
    (store.binding? holder name).isSome ∧ ∀ inner ∈ before, store.binding? inner name = none

/-- Some scope on the chain of `id` binds the name. -/
def Contains (store : Store) (id : ScopeId) (name : String) : Prop :=
  ∃ ids, store.Chain id ids ∧ ∃ holder ∈ ids, (store.binding? holder name).isSome

section Names

variable {store : Store} {id : ScopeId} {name : String}

/-- Looking for a holder is going through the chain. -/
theorem holderFrom_eq_find? {ids : List ScopeId} (h : store.Chain id ids) {fuel : Nat}
    (hfuel : ids.length ≤ fuel) :
    store.holderFrom fuel id name = ids.find? fun inner => (store.binding? inner name).isSome := by
  induction h generalizing fuel with
  | @last id scope hscope hparent =>
    obtain ⟨fuel, rfl⟩ := Nat.exists_eq_succ_of_ne_zero (Nat.ne_of_gt hfuel)
    have hbinding : store.binding? id name = scope.get? name := by
      rw [binding?, hscope, Option.bind_some]
    cases hget : scope.get? name <;>
      simp [holderFrom, hscope, hget, hparent, hbinding]
  | @inside id parent scope ids hscope hparent _ ih =>
    obtain ⟨fuel, rfl⟩ := Nat.exists_eq_succ_of_ne_zero (Nat.ne_of_gt (Nat.zero_lt_of_lt hfuel))
    have hbinding : store.binding? id name = scope.get? name := by
      rw [binding?, hscope, Option.bind_some]
    have hrest := ih (Nat.le_of_succ_le_succ hfuel)
    cases hget : scope.get? name <;>
      simp [holderFrom, hscope, hget, hparent, hbinding, hrest]

/-- The value of a name is its value in the holder. -/
theorem lookupFrom_eq_bind (fuel : Nat) :
    store.lookupFrom fuel id name =
      (store.holderFrom fuel id name).bind fun holder => store.binding? holder name := by
  induction fuel generalizing id with
  | zero => rfl
  | succ fuel ih =>
    rw [lookupFrom, holderFrom]
    cases hscope : store.scopes[id]? with
    | none => rfl
    | some scope =>
      cases hget : scope.get? name with
      | some v => simp [binding?, hscope, hget]
      | none =>
        cases hparent : scope.parent with
        | none => simp [hget, hparent]
        | some parent => simpa [hget, hparent] using ih

theorem lookup?_eq_bind :
    store.lookup? id name =
      (store.holder? id name).bind fun holder => store.binding? holder name :=
  lookupFrom_eq_bind _

theorem holder?_eq_none_of_size_le (h : store.scopes.size ≤ id) : store.holder? id name = none := by
  rw [holder?, holderFrom, Array.getElem?_eq_none h]

variable (hnested : store.Nested)
include hnested

/-- `holder?` finds the nearest scope that binds a name. -/
theorem holder?_eq_some_iff {holder : ScopeId} :
    store.holder? id name = some holder ↔ store.Nearest id name holder := by
  by_cases hid : id < store.scopes.size
  · obtain ⟨ids, hids⟩ := hnested.exists_chain hid
    rw [holder?, holderFrom_eq_find? hids (hids.length_le hnested), List.find?_eq_some_iff_append]
    constructor
    · rintro ⟨hbinds, before, after, rfl, hbefore⟩
      exact ⟨before, after, hids, hbinds, fun inner hinner => by simpa using hbefore inner hinner⟩
    · rintro ⟨before, after, hchain, hbinds, hbefore⟩
      exact ⟨hbinds, before, after, hids.inj hchain,
        fun inner hinner => by simp [hbefore inner hinner]⟩
  · rw [holder?_eq_none_of_size_le (Nat.le_of_not_lt hid)]
    refine iff_of_false (by simp) ?_
    rintro ⟨before, after, hchain, -⟩
    exact hid hchain.lt_size

/-- `lookup?` finds the value of a name in the nearest scope that binds it. -/
theorem lookup?_eq_some_iff {v : Value} :
    store.lookup? id name = some v ↔
      ∃ holder, store.Nearest id name holder ∧ store.binding? holder name = some v := by
  simp only [lookup?_eq_bind, Option.bind_eq_some_iff, holder?_eq_some_iff hnested]

/-- A name that is bound somewhere on a chain has a nearest scope. -/
theorem contains_iff : store.Contains id name ↔ ∃ holder, store.Nearest id name holder := by
  constructor
  · rintro ⟨ids, hids, holder, hmem, hbinds⟩
    cases hfind : ids.find? fun inner => (store.binding? inner name).isSome with
    | none =>
      have hnone := List.find?_eq_none.1 hfind holder hmem
      exact absurd hbinds hnone
    | some nearest =>
      rw [← holderFrom_eq_find? hids (hids.length_le hnested)] at hfind
      exact ⟨nearest, (holder?_eq_some_iff hnested).1 hfind⟩
  · rintro ⟨holder, before, after, hchain, hbinds, -⟩
    exact ⟨_, hchain, holder, by simp, hbinds⟩

theorem holder?_eq_none_iff : store.holder? id name = none ↔ ¬ store.Contains id name := by
  rw [contains_iff hnested, not_exists, Option.eq_none_iff_forall_ne_some]
  exact forall_congr' fun holder => not_congr (holder?_eq_some_iff hnested)

end Names

/-! ## Updates -/

section Updates

variable {store : Store} {touched : ScopeId} {name : String} {v : Value}

theorem getElem?_bind (id : ScopeId) :
    (store.bind touched name v).scopes[id]? =
      if touched = id then store.scopes[id]?.map (·.insert name v) else store.scopes[id]? := by
  rw [bind, Array.getElem?_modify]

@[simp] theorem size_bind : (store.bind touched name v).scopes.size = store.scopes.size := by
  rw [bind, Array.size_modify]

/-- Binding a name changes one slot. -/
theorem binding?_bind (htouched : touched < store.scopes.size) (id : ScopeId) (other : String) :
    (store.bind touched name v).binding? id other =
      if id = touched ∧ other = name then some v else store.binding? id other := by
  rw [binding?, getElem?_bind]
  by_cases hid : touched = id
  · subst hid
    rw [if_pos rfl, Array.getElem?_eq_getElem htouched]
    by_cases hother : other = name <;>
      simp [binding?, hother, Array.getElem?_eq_getElem htouched]
  · have hne : ¬ (id = touched ∧ other = name) := fun h => hid h.1.symm
    rw [if_neg hid, if_neg hne, binding?]

/-- Binding a name leaves all scopes where they are. -/
theorem exists_getElem?_bind {id : ScopeId} {scope : Scope}
    (h : (store.bind touched name v).scopes[id]? = some scope) :
    ∃ old, store.scopes[id]? = some old ∧ old.parent = scope.parent := by
  rw [getElem?_bind] at h
  split at h
  · obtain ⟨old, hold, rfl⟩ := Option.map_eq_some_iff.1 h
    exact ⟨old, hold, rfl⟩
  · exact ⟨scope, h, rfl⟩

theorem Chain.of_bind {id : ScopeId} {ids : List ScopeId}
    (h : (store.bind touched name v).Chain id ids) : store.Chain id ids := by
  induction h with
  | last hscope hparent =>
    obtain ⟨old, hold, heq⟩ := exists_getElem?_bind hscope
    exact .last hold (heq.trans hparent)
  | inside hscope hparent _ ih =>
    obtain ⟨old, hold, heq⟩ := exists_getElem?_bind hscope
    exact .inside hold (heq.trans hparent) ih

theorem Nested.bind (h : store.Nested) : (store.bind touched name v).Nested where
  size_pos := by
    rw [size_bind]
    exact h.size_pos
  parent_lt hscope hparent := by
    obtain ⟨old, hold, heq⟩ := exists_getElem?_bind hscope
    exact h.parent_lt hold (heq.trans hparent)
  eq_global hscope hparent := by
    obtain ⟨old, hold, heq⟩ := exists_getElem?_bind hscope
    exact h.eq_global hold (heq.trans hparent)

/-- A scope has the same chain before and after. -/
theorem chain_bind_iff (hnested : store.Nested) {id : ScopeId} {ids : List ScopeId} :
    (store.bind touched name v).Chain id ids ↔ store.Chain id ids := by
  refine ⟨Chain.of_bind, fun h => ?_⟩
  have hlt : id < (store.bind touched name v).scopes.size := by
    rw [size_bind]
    exact h.lt_size
  obtain ⟨ids', hids'⟩ := hnested.bind.exists_chain hlt
  exact h.inj hids'.of_bind ▸ hids'

/-- The second store is what the first one is after the slot of a name in one scope got a
value.  A scope sees the value if the touched scope is now the nearest one that binds the
name, and sees everything else as before. -/
structure Rebinds (store store' : Store) (touched : ScopeId) (name : String) (v : Value) :
    Prop where
  chain_iff {id : ScopeId} {ids : List ScopeId} : store'.Chain id ids ↔ store.Chain id ids
  slot (id : ScopeId) (other : String) :
    store'.binding? id other =
      if id = touched ∧ other = name then some v else store.binding? id other
  seen {id : ScopeId} (h : store'.Nearest id name touched) : store'.lookup? id name = some v
  kept {id : ScopeId} {other : String} (h : ¬ (other = name ∧ store'.Nearest id name touched)) :
    store'.lookup? id other = store.lookup? id other

variable (htouched : touched < store.scopes.size)
include htouched

/-- Another slot that holds a name now has held it before. -/
theorem Nearest.of_bind {id holder : ScopeId} {other : String}
    (h : (store.bind touched name v).Nearest id other holder)
    (hslot : ¬ (holder = touched ∧ other = name)) : store.Nearest id other holder := by
  obtain ⟨before, after, hchain, hbinds, hbefore⟩ := h
  refine ⟨before, after, hchain.of_bind, ?_, fun inner hinner => ?_⟩
  · rwa [binding?_bind htouched, if_neg hslot] at hbinds
  · have hnone := hbefore inner hinner
    rw [binding?_bind htouched] at hnone
    split at hnone
    · cases hnone
    · exact hnone

variable (hnested : store.Nested)
include hnested

/-- No name goes away when a name is bound. -/
theorem Contains.bind {id : ScopeId} {other : String} (h : store.Contains id other) :
    (store.bind touched name v).Contains id other := by
  obtain ⟨ids, hids, holder, hmem, hbinds⟩ := h
  refine ⟨ids, (chain_bind_iff hnested).2 hids, holder, hmem, ?_⟩
  rw [binding?_bind htouched]
  split
  · rfl
  · exact hbinds

/-- Binding a name changes one slot. -/
theorem rebinds_bind : store.Rebinds (store.bind touched name v) touched name v where
  chain_iff := chain_bind_iff hnested
  slot := binding?_bind htouched
  seen h := by
    refine (lookup?_eq_some_iff hnested.bind).2 ⟨touched, h, ?_⟩
    rw [binding?_bind htouched, if_pos ⟨rfl, rfl⟩]
  kept {id other} hother := by
    cases hholder : (store.bind touched name v).holder? id other with
    | none =>
      have hcontains := (holder?_eq_none_iff hnested.bind).1 hholder
      have hbefore : store.holder? id other = none :=
        (holder?_eq_none_iff hnested).2 fun h => hcontains (h.bind htouched hnested)
      rw [lookup?_eq_bind, lookup?_eq_bind, hholder, hbefore, Option.bind_none, Option.bind_none]
    | some holder =>
      have hnearest := (holder?_eq_some_iff hnested.bind).1 hholder
      have hslot : ¬ (holder = touched ∧ other = name) := by
        rintro ⟨rfl, rfl⟩
        exact hother ⟨rfl, hnearest⟩
      have hbefore := (holder?_eq_some_iff hnested).2 (hnearest.of_bind htouched hslot)
      rw [lookup?_eq_bind, lookup?_eq_bind, hholder, hbefore, Option.bind_some, Option.bind_some,
        binding?_bind htouched, if_neg hslot]

omit htouched in
/-- If a name can be found, then changing its nearest binding changes one slot. -/
theorem holder?_cases (id : ScopeId) (name : String) :
    store.holder? id name = none ∧ ¬ store.Contains id name ∨
      ∃ holder, store.holder? id name = some holder ∧ store.Contains id name ∧
        store.Nearest id name holder ∧
        ∀ v, store.Rebinds (store.bind holder name v) holder name v := by
  cases hholder : store.holder? id name with
  | none => exact .inl ⟨rfl, (holder?_eq_none_iff hnested).1 hholder⟩
  | some holder =>
    have hnearest := (holder?_eq_some_iff hnested).1 hholder
    have hlt : holder < store.scopes.size := by
      obtain ⟨-, -, -, hbinds, -⟩ := hnearest
      exact lt_size_of_isSome_binding? hbinds
    exact .inr ⟨holder, rfl, (contains_iff hnested).2 ⟨holder, hnearest⟩, hnearest,
      fun v => rebinds_bind hlt hnested⟩

end Updates

/-! ## Growth -/

/-- Nothing goes away: scopes stay, with their parents and with the names they bind. -/
def Grows (store store' : Store) : Prop :=
  ∀ (id : ScopeId) (scope : Scope), store.scopes[id]? = some scope →
    ∃ scope', store'.scopes[id]? = some scope' ∧ scope'.parent = scope.parent ∧
      ∀ name, (scope.get? name).isSome → (scope'.get? name).isSome

section Growth

variable {store store' store'' : Store}

theorem Grows.refl (store : Store) : store.Grows store :=
  fun _ scope hscope => ⟨scope, hscope, rfl, fun _ h => h⟩

theorem Grows.trans (h : store.Grows store') (h' : store'.Grows store'') :
    store.Grows store'' := by
  intro id scope hscope
  obtain ⟨scope', hscope', hparent, hnames⟩ := h id scope hscope
  obtain ⟨scope'', hscope'', hparent', hnames'⟩ := h' id scope' hscope'
  exact ⟨scope'', hscope'', hparent'.trans hparent,
    fun name hname => hnames' name (hnames name hname)⟩

theorem Grows.size_le (h : store.Grows store') : store.scopes.size ≤ store'.scopes.size := by
  rcases Nat.eq_zero_or_pos store.scopes.size with hzero | hpos
  · rw [hzero]
    exact Nat.zero_le _
  · have hlast : store.scopes.size - 1 < store.scopes.size := Nat.sub_one_lt_of_lt hpos
    obtain ⟨scope', hscope', -⟩ := h _ _ (Array.getElem?_eq_getElem hlast)
    have hlt := (Array.getElem?_eq_some_iff.1 hscope').1
    omega

theorem grows_bind (store : Store) (id : ScopeId) (name : String) (v : Value) :
    store.Grows (store.bind id name v) := by
  intro other scope hscope
  rw [getElem?_bind, hscope]
  split
  · refine ⟨_, rfl, rfl, fun other hother => ?_⟩
    rw [Scope.get?_insert]
    split
    · rfl
    · exact hother
  · exact ⟨scope, rfl, rfl, fun _ h => h⟩

theorem grows_extend (store : Store) (parent : ScopeId) (bindings : List (String × Value)) :
    store.Grows (store.extend parent bindings) := by
  intro id scope hscope
  have hlt := (Array.getElem?_eq_some_iff.1 hscope).1
  refine ⟨scope, ?_, rfl, fun _ h => h⟩
  rw [extend, Array.getElem?_push, if_neg (Nat.ne_of_lt hlt), hscope]

theorem nested_initial : initial.Nested where
  size_pos := Nat.one_pos
  parent_lt {id parent scope} hscope hparent := by
    cases id with
    | zero =>
      obtain rfl := Option.some.inj hscope
      cases hparent
    | succ id => simp [initial] at hscope
  eq_global {id scope} hscope _ := by
    cases id with
    | zero => rfl
    | succ id => simp [initial] at hscope

/-- A scope is added inside of one that is there. -/
theorem Nested.extend (h : store.Nested) {parent : ScopeId} (hparent : parent < store.scopes.size)
    (bindings : List (String × Value)) : (store.extend parent bindings).Nested where
  size_pos := by
    rw [Store.extend, Array.size_push]
    exact Nat.succ_pos _
  parent_lt {id other scope} hscope hother := by
    rw [Store.extend, Array.getElem?_push] at hscope
    split at hscope
    · rename_i hid
      obtain rfl := Option.some.inj hscope
      obtain rfl := Option.some.inj hother
      exact hid ▸ hparent
    · exact h.parent_lt hscope hother
  eq_global {id scope} hscope hnone := by
    rw [Store.extend, Array.getElem?_push] at hscope
    split at hscope
    · obtain rfl := Option.some.inj hscope
      cases hnone
    · exact h.eq_global hscope hnone

theorem Nested.newSerial (h : store.Nested) : store.newSerial.Nested :=
  ⟨h.size_pos, h.parent_lt, h.eq_global⟩

end Growth

end StackScheme.Store
