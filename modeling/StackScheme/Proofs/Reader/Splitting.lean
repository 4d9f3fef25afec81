import StackScheme.Reader

/-!
# Where expressions end

The first expression of a list of tokens is found by counting parentheses, and so
it depends on its own tokens alone.

* `splitExpression_append` says that more tokens behind the list do not change
  what its first expression is.
* `eq_append_of_splitExpression` takes the list apart, and `splitExpression_self`
  says that the expression alone has nothing behind it.
* Readers.  `Reader.Waits` are the readers that need more tokens, whatever the
  arena.  `Reader.read_append` says that tokens behind a complete expression do
  not change how it is read.
-/

namespace StackScheme.Token

/-- Tokens behind the list stay behind what is left of it. -/
theorem splitAtBalance_append {depth : Nat} {taken ts p rest : List Token}
    (h : splitAtBalance depth taken ts = some (p, rest)) (us : List Token) :
    splitAtBalance depth taken (ts ++ us) = some (p, rest ++ us) := by
  induction ts generalizing depth taken with
  | nil => cases h
  | cons t ts ih =>
    rw [splitAtBalance] at h
    rw [List.cons_append, splitAtBalance]
    by_cases hzero : t.nest depth = 0
    · simp only [hzero, if_true, Option.some.injEq, Prod.mk.injEq] at h ⊢
      obtain ⟨rfl, rfl⟩ := h
      exact ⟨rfl, rfl⟩
    · simp only [hzero, if_false] at h ⊢
      exact ih h

/-- What is cut off are the first tokens of the list, and they suffice to find
the cut. -/
theorem exists_of_splitAtBalance {depth : Nat} {taken ts p rest : List Token}
    (h : splitAtBalance depth taken ts = some (p, rest)) :
    ∃ q, q ≠ [] ∧ p = taken.reverse ++ q ∧ ts = q ++ rest ∧
      splitAtBalance depth taken q = some (p, []) := by
  induction ts generalizing depth taken with
  | nil => cases h
  | cons t ts ih =>
    rw [splitAtBalance] at h
    by_cases hzero : t.nest depth = 0
    · simp only [hzero, if_true, Option.some.injEq, Prod.mk.injEq] at h
      obtain ⟨rfl, rfl⟩ := h
      refine ⟨[t], by simp, by simp, rfl, ?_⟩
      simp [splitAtBalance, hzero]
    · simp only [hzero, if_false] at h
      obtain ⟨q, -, hp, hts, hq⟩ := ih h
      refine ⟨t :: q, by simp, by simp [hp], by simp [hts], ?_⟩
      rw [splitAtBalance]
      simp only [hzero, if_false]
      exact hq

/-- The first expression of a list is the first expression of a longer list. -/
theorem splitExpression_append {ts p rest : List Token}
    (h : splitExpression ts = some (p, rest)) (us : List Token) :
    splitExpression (ts ++ us) = some (p, rest ++ us) :=
  splitAtBalance_append h us

/-- A list is its first expression and what is left of it. -/
theorem eq_append_of_splitExpression {ts p rest : List Token}
    (h : splitExpression ts = some (p, rest)) : p ≠ [] ∧ ts = p ++ rest := by
  obtain ⟨q, hne, hp, hts, -⟩ := exists_of_splitAtBalance h
  rw [List.reverse_nil, List.nil_append] at hp
  rw [hp]
  exact ⟨hne, hts⟩

/-- An expression has nothing behind it. -/
theorem splitExpression_self {ts p rest : List Token}
    (h : splitExpression ts = some (p, rest)) : splitExpression p = some (p, []) := by
  obtain ⟨q, -, hp, -, hq⟩ := exists_of_splitAtBalance h
  rw [List.reverse_nil, List.nil_append] at hp
  rw [← hp] at hq
  exact hq

end StackScheme.Token

namespace StackScheme.Reader

/-! ## Readers -/

/-- The reader needs more tokens. -/
def Waits (reader : Reader) : Prop :=
  ∀ arena, reader.read arena = ⟨.ok none, reader, arena⟩

theorem waits_empty : ({} : Reader).Waits :=
  fun _ => rfl

theorem read_closing {reader : Reader} {rest : List Token}
    (h : reader.pending = .closing :: rest) (arena : Arena) :
    reader.read arena = ⟨.error .unexpectedClose, ⟨rest⟩, arena⟩ := by
  rw [read, h]

/-- A reader that does not start with a closing parenthesis looks for a complete
expression. -/
theorem read_eq {reader : Reader} (hopen : ∀ ts, reader.pending ≠ .closing :: ts)
    (arena : Arena) :
    reader.read arena =
      match Token.splitExpression reader.pending with
      | none => ⟨.ok none, reader, arena⟩
      | some (p, rest) => ⟨(arena.build p).1.map some, ⟨rest⟩, (arena.build p).2⟩ := by
  rw [read]
  split
  · rename_i hnil
    rw [hnil]
    rfl
  · exact absurd ‹_› (hopen _)
  · rfl

/-- A reader waits, starts with a closing parenthesis, or has a complete
expression. -/
theorem read_cases (reader : Reader) :
    reader.Waits ∨ (∃ rest, reader.pending = .closing :: rest) ∨
      ∃ p rest, (∀ ts, reader.pending ≠ .closing :: ts) ∧
        Token.splitExpression reader.pending = some (p, rest) := by
  by_cases hclosing : ∃ rest, reader.pending = .closing :: rest
  · exact .inr (.inl hclosing)
  have hopen : ∀ ts, reader.pending ≠ .closing :: ts := fun ts h => hclosing ⟨ts, h⟩
  cases hsplit : Token.splitExpression reader.pending with
  | none =>
    refine .inl fun arena => ?_
    rw [read_eq hopen, hsplit]
  | some found => exact .inr (.inr ⟨found.1, found.2, hopen, rfl⟩)

/-- A reading that gives nothing changes nothing. -/
theorem waits_of_root_eq_none {reader : Reader} {arena : Arena}
    (h : (reader.read arena).root = .ok none) : reader.Waits := by
  rcases reader.read_cases with hwaits | ⟨rest, hclosing⟩ | ⟨p, rest, hopen, hsplit⟩
  · exact hwaits
  · rw [read_closing hclosing] at h
    cases h
  · rw [read_eq hopen, hsplit] at h
    dsimp only at h
    cases hbuild : (arena.build p).1 <;> rw [hbuild] at h <;> cases h

/-- Tokens behind the ones that are read stay where they are. -/
theorem read_append {p : List Token} {arena : Arena} (hwaits : ¬ (⟨p⟩ : Reader).Waits)
    (q : List Token) :
    (⟨p ++ q⟩ : Reader).read arena =
      { (⟨p⟩ : Reader).read arena with
        reader := ⟨((⟨p⟩ : Reader).read arena).reader.pending ++ q⟩ } := by
  rcases (⟨p⟩ : Reader).read_cases with h | ⟨rest, hclosing⟩ | ⟨e, rest, hopen, hsplit⟩
  · exact absurd h hwaits
  · obtain rfl : p = .closing :: rest := hclosing
    rfl
  · obtain ⟨hne, hp⟩ := Token.eq_append_of_splitExpression hsplit
    have hopen' : ∀ ts, (⟨p ++ q⟩ : Reader).pending ≠ .closing :: ts := by
      intro ts hts
      cases p with
      | nil => cases hsplit
      | cons t p =>
        obtain ⟨rfl, -⟩ := List.cons.inj hts
        exact hopen p rfl
    rw [read_eq hopen', read_eq hopen, hsplit, Token.splitExpression_append hsplit q]

/-- A reader whose tokens are no more than none is empty. -/
theorem eq_empty_of_length_le {reader : Reader} (h : reader.pending.length ≤ 0) : reader = {} :=
  congrArg mk (List.eq_nil_of_length_eq_zero (Nat.le_zero.1 h))

/-- A reading that does not ask for more tokens takes at least one. -/
theorem length_read_lt {reader : Reader} {arena : Arena}
    (h : (reader.read arena).root ≠ .ok none) :
    (reader.read arena).reader.pending.length < reader.pending.length := by
  rcases reader.read_cases with hwaits | ⟨rest, hclosing⟩ | ⟨p, rest, hopen, hsplit⟩
  · rw [hwaits arena] at h
    exact absurd rfl h
  · rw [read_closing hclosing, hclosing]
    exact Nat.lt_succ_self _
  · obtain ⟨hne, hpending⟩ := Token.eq_append_of_splitExpression hsplit
    have hpos := List.length_pos_iff.2 hne
    have hlen : reader.pending.length = p.length + rest.length := by
      rw [hpending, List.length_append]
    rw [read_eq hopen, hsplit]
    show rest.length < reader.pending.length
    omega

/-- An expression that is read has at least one token. -/
theorem length_pending_lt {reader : Reader} {arena : Arena} {root : NodeId}
    (h : (reader.read arena).root = .ok (some root)) :
    (reader.read arena).reader.pending.length < reader.pending.length :=
  length_read_lt (by simp [h])

end StackScheme.Reader
