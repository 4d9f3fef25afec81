/-!
# Stacks that know their size

A stack is a list with the top first, together with its length, so that asking
for the size costs nothing however deep the stack is.

* Operations.  `push`, `pop?`, `top?`, `drop` and `truncate`; `splitOff?` takes
  off everything above a height.
* Views.  Each operation is described by what it does to `items`, and
  `Stack.ext` says that a stack is determined by its items.
-/

namespace StackScheme

/-- A list with its length. -/
structure Stack (α : Type) where
  /-- The elements, the top first. -/
  items : List α := []
  size : Nat := 0
  size_eq : size = items.length := by rfl

namespace Stack

variable {α : Type}

/-- A stack is determined by its items. -/
@[ext] theorem ext {s t : Stack α} (h : s.items = t.items) : s = t := by
  cases s
  cases t
  simp_all

/-- The stack without elements. -/
def empty : Stack α := {}

/-- Puts an element on top. -/
def push (s : Stack α) (a : α) : Stack α :=
  ⟨a :: s.items, s.size + 1, by simp [s.size_eq]⟩

/-- The element on top. -/
def top? (s : Stack α) : Option α :=
  s.items.head?

/-- The element on top and the stack below it. -/
def pop? (s : Stack α) : Option (α × Stack α) :=
  match s with
  | ⟨[], _, _⟩ => none
  | ⟨a :: items, n, h⟩ => some (a, ⟨items, n - 1, by simp [h]⟩)

/-- The stack without its `n` upper elements. -/
def drop (s : Stack α) (n : Nat) : Stack α :=
  ⟨s.items.drop n, s.size - n, by simp [s.size_eq]⟩

/-- The stack cut down to a height. -/
def truncate (s : Stack α) (height : Nat) : Stack α :=
  s.drop (s.size - height)

/-- The elements above a height, the lowest first, and the stack below them.
There are none if the stack is not that high. -/
def splitOff? (s : Stack α) (height : Nat) : Option (List α × Stack α) :=
  if height ≤ s.size then
    some ((s.items.take (s.size - height)).reverse, s.truncate height)
  else none

/-! ## Views -/

@[simp] theorem items_empty : (empty : Stack α).items = [] := rfl

@[simp] theorem size_empty : (empty : Stack α).size = 0 := rfl

@[simp] theorem items_push (s : Stack α) (a : α) : (s.push a).items = a :: s.items := rfl

@[simp] theorem size_push (s : Stack α) (a : α) : (s.push a).size = s.size + 1 := rfl

@[simp] theorem top?_push (s : Stack α) (a : α) : (s.push a).top? = some a := rfl

@[simp] theorem pop?_empty : (empty : Stack α).pop? = none := rfl

@[simp] theorem pop?_push (s : Stack α) (a : α) : (s.push a).pop? = some (a, s) := rfl

@[simp] theorem items_drop (s : Stack α) (n : Nat) : (s.drop n).items = s.items.drop n := rfl

@[simp] theorem size_drop (s : Stack α) (n : Nat) : (s.drop n).size = s.size - n := rfl

@[simp] theorem size_truncate (s : Stack α) (height : Nat) :
    (s.truncate height).size = min s.size height := by
  simp only [truncate, size_drop]
  omega

/-- A stack that can be popped is a stack that was pushed to. -/
theorem eq_push_of_pop? {s t : Stack α} {a : α} (h : s.pop? = some (a, t)) : s = t.push a := by
  rcases s with ⟨_ | ⟨b, items⟩, n, hn⟩
  · simp [pop?] at h
  · simp only [pop?, Option.some.injEq, Prod.mk.injEq] at h
    obtain ⟨rfl, rfl⟩ := h
    exact ext rfl

end Stack

end StackScheme
