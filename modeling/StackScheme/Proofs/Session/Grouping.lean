import StackScheme.Proofs.Reader.RoundTrip
import StackScheme.Proofs.Session.Lines
import StackScheme.Proofs.Session.Safety

/-!
# Texts and their expressions

It does not matter how the expressions of a text are laid out and whether they come in
one chunk or one after the other.

* Reading.  `Reader.ReadsAll` says which expressions a reader has.
  `Reader.ReadsAll.exists_parts` gives the tokens of each of them.
* Evaluating.  An expression of a chunk is evaluated like its printed text on its own:
  `evaluate_unlex` and `drainAll_source` have the same right-hand side.
* `evaluate_each_eq_feed` is about all expressions of a chunk.
-/

namespace StackScheme

open SExpr

/-! ## Reading -/

namespace Reader

/-- Expressions with the given roots are read one after the other, and then nothing is
left. -/
inductive ReadsAll : Reader → Arena → List NodeId → Arena → Prop
  | done (arena : Arena) : ReadsAll {} arena [] arena
  | read {reader : Reader} {arena last : Arena} {root : NodeId} {roots : List NodeId}
    (hroot : (reader.read arena).root = .ok (some root))
    (h : ReadsAll (reader.read arena).reader (reader.read arena).arena roots last) :
    ReadsAll reader arena (root :: roots) last

/-- The tokens of an expression, and its tree. -/
abbrev Part := List Token × SExpr

/-- The tokens of a text that is read completely are those of its expressions, one after
the other, and each expression is printed as its own tokens. -/
theorem ReadsAll.exists_parts {reader : Reader} {arena last : Arena} {roots : List NodeId}
    (h : reader.ReadsAll arena roots last) :
    ∀ {trees}, arena = .ofForest trees → (∀ token ∈ reader.pending, token.Lexable) →
      ∃ parts : List Part, (∀ part ∈ parts, Source part.1 part.2) ∧
        reader.pending = parts.flatMap Prod.fst ∧
        last = .ofForest (trees ++ parts.map Prod.snd) ∧
        roots.map last.render = parts.map fun part => Token.unlex part.1 := by
  induction h with
  | done arena =>
    intro trees harena _
    exact ⟨[], nofun, rfl, by rw [harena, List.map_nil, List.append_nil], rfl⟩
  | @read reader arena last root roots hroot h ih =>
    rintro trees rfl hlexable
    obtain ⟨p, rest, t, hsource, hpending, rfl, hread⟩ := exists_source_of_read hlexable hroot
    have hmore : ∀ token ∈ (reader.read (.ofForest trees)).reader.pending, token.Lexable :=
      fun token htoken => hlexable token (mem_pending_of_read htoken)
    obtain ⟨parts, hparts, hrest, hlast, hrender⟩ := ih (by rw [hread]) hmore
    have hforest : trees ++ [t] ++ parts.map Prod.snd = trees ++ t :: parts.map Prod.snd := by
      rw [List.append_assoc, List.singleton_append]
    rw [hread] at hrest
    rw [hforest] at hlast
    refine ⟨(p, t) :: parts, List.forall_mem_cons.2 ⟨hsource, hparts⟩, ?_, hlast, ?_⟩
    · rw [hpending, List.flatMap_cons, ← hrest]
    · rw [List.map_cons, List.map_cons, hrender, hlast, hsource.render_ofForest]

end Reader

/-! ## Evaluating -/

namespace Session

/-- The session with one more tree in its arena. -/
def withTree (session : Session) (trees : List SExpr) (t : SExpr) : Session :=
  { session with arena := .ofForest (trees ++ [t]) }

variable {session : Session} {trees : List SExpr} {p : List Token} {t : SExpr}

/-- The text of one expression has the result of the expression. -/
theorem evaluate_unlex (hsource : Reader.Source p t) (harena : session.arena = .ofForest trees)
    (budget : Nat) :
    session.evaluate budget (Token.unlex p) =
      (session.withTree trees t).evaluateRoot budget (count trees + t.beneath) := by
  obtain ⟨hne, -⟩ := Token.eq_append_of_splitExpression hsource.complete
  obtain ⟨token, ts, hp⟩ := List.exists_cons_of_ne_nil hne
  have hread := hsource.read_append [] trees
  rw [List.append_nil] at hread
  have hafter : session.afterRead ⟨p⟩ = session.withTree trees t := by
    rw [afterRead, harena, hread]
    rfl
  rw [evaluate, hsource.feed_unlex]
  dsimp only
  rw [hp, List.length_cons, ← hp, evaluateAll_succ, harena, hread, hafter]
  dsimp only
  cases (session.withTree trees t).evaluateRoot budget (count trees + t.beneath) with
  | none => rfl
  | some ended =>
    obtain ⟨result, next⟩ := ended
    cases result with
    | error e => rfl
    | ok answer => exact evaluateAll_empty budget _ next answer

/-- An expression of a chunk has the result that it has without the rest of the chunk. -/
theorem drainAll_source (hsource : Reader.Source p t) (harena : session.arena = .ofForest trees)
    (budget : Nat) (rest : List Token) :
    (session.withPending (p ++ rest)).drainAll budget =
      match (session.withTree trees t).evaluateRoot budget (count trees + t.beneath) with
      | none => none
      | some (result, next) =>
        ((next.withPending rest).drainAll budget).map fun (results, last) =>
          (result :: results, last) := by
  have hread : (session.withPending (p ++ rest)).reader.read
      (session.withPending (p ++ rest)).arena =
        ⟨.ok (some (count trees + t.beneath)), ⟨rest⟩, .ofForest (trees ++ [t])⟩ := by
    rw [← hsource.read_append rest trees, ← harena]
    rfl
  have hafter : (session.withPending (p ++ rest)).afterOwnRead =
      (session.withTree trees t).withPending rest := by
    rw [afterOwnRead, hread]
    rfl
  rw [drainAll_eq, hread, hafter]
  dsimp only
  rw [evaluateRoot_withPending]
  cases (session.withTree trees t).evaluateRoot budget (count trees + t.beneath) <;> rfl

/-- Expressions that are evaluated one after the other have the results that they have in
one chunk. -/
theorem handleAll_parts {parts : List Reader.Part}
    (hparts : ∀ part ∈ parts, Reader.Source part.1 part.2) (budget : Nat) {session : Session}
    {trees : List SExpr} (harena : session.arena = .ofForest trees)
    (hreader : session.reader = {}) :
    session.handleAll budget (parts.map fun part => .evaluate (Token.unlex part.1)) =
      ((session.withPending (parts.flatMap Prod.fst)).drainAll budget).map
        fun (results, next) => (results.map ([·]), next) := by
  induction parts generalizing session trees with
  | nil =>
    have hsame : session.withPending [] = session := by
      rw [withPending, ← hreader]
    have hwaits : session.reader.Waits := hreader ▸ Reader.waits_empty
    rw [List.map_nil, List.flatMap_nil, hsame, handleAll, drainAll_eq, hwaits,
      afterOwnRead_of_waits hwaits]
    rfl
  | cons part parts ih =>
    obtain ⟨hsource, hrest⟩ := List.forall_mem_cons.1 hparts
    rw [List.map_cons, handleAll, handle, evaluate_unlex hsource harena, List.flatMap_cons,
      drainAll_source hsource harena]
    cases hrun : (session.withTree trees part.2).evaluateRoot budget
        (count trees + part.2.beneath) with
    | none => rfl
    | some ended =>
      obtain ⟨result, next⟩ := ended
      obtain ⟨harena', hreader', -⟩ := kept_of_evaluateRoot hrun
      simp only [Option.map_some]
      rw [ih hrest harena' (hreader'.trans hreader), Option.map_map, Option.map_map]
      rfl

theorem length_of_handleAll {budget : Nat} {session next : Session} {requests : List Request}
    {answers : List (List Result)} (h : session.handleAll budget requests = some (answers, next)) :
    answers.length = requests.length := by
  induction requests generalizing session answers with
  | nil =>
    cases h
    rfl
  | cons request requests ih =>
    rw [handleAll] at h
    split at h
    · cases h
    · obtain ⟨⟨answers', last⟩, hrest, heq⟩ := Option.map_eq_some_iff.1 h
      cases heq
      rw [List.length_cons, List.length_cons, ih hrest]

/-- A chunk that is read completely has one result for each of its expressions.  These are
the results of evaluating the printed expressions one after the other, which also leads
to the same session.  This is so whatever the results are.  There is no answer if an
expression takes more steps than the budget allows, and then there is none in either way
of asking. -/
theorem evaluate_each_eq_feed {session : Session} (hreachable : session.Reachable)
    (hpending : session.isPending = false) {text : String} {reader : Reader} {arena : Arena}
    {roots : List NodeId} (hfeed : ({} : Reader).feed text = .ok reader)
    (hreads : reader.ReadsAll {} roots arena) (budget : Nat) :
    session.handleAll budget (roots.map fun root => .evaluate (arena.render root)) =
        (session.feed budget text).map (fun (results, next) => (results.map ([·]), next)) ∧
      ∀ results next, session.feed budget text = some (results, next) →
        results.length = roots.length := by
  obtain ⟨ts, hlex, rfl⟩ : ∃ ts, Token.lex text = .ok ts ∧ reader = ⟨ts⟩ := by
    rw [Reader.feed] at hfeed
    split at hfeed
    · rename_i ts hlex
      cases hfeed
      exact ⟨ts, hlex, rfl⟩
    · cases hfeed
  obtain ⟨trees, harena⟩ := hreachable.sound.grown.exists_eq_ofForest
  have hreader : session.reader = {} := by
    rcases hr : session.reader with ⟨_ | _⟩
    · rfl
    · rw [isPending, hr] at hpending
      cases hpending
  have hempty : ({} : Arena) = .ofForest [] := rfl
  obtain ⟨parts, hparts, hts, -, hrender⟩ :=
    hreads.exists_parts hempty (Token.lexable_of_lex hlex)
  have hchunk : session.feed budget text =
      (session.withPending (parts.flatMap Prod.fst)).drainAll budget := by
    rw [feed_of_lex hlex, addPending, hreader, ← hts]
    rfl
  have hrequests : (roots.map fun root => Request.evaluate (arena.render root)) =
      parts.map fun part => .evaluate (Token.unlex part.1) := by
    have := congrArg (List.map Request.evaluate) hrender
    rwa [List.map_map, List.map_map] at this
  have heach := handleAll_parts hparts budget harena hreader
  rw [← hrequests, ← hchunk] at heach
  refine ⟨heach, fun results next hresults => ?_⟩
  rw [hresults] at heach
  have hlength := length_of_handleAll heach
  rwa [List.length_map, List.length_map] at hlength

/-- Three expressions on two lines, of which the second one fails, in a session with a
definition. -/
theorem evaluate_each_eq_feed_failure :
    ∃ session next : Session, session.Reachable ∧ session.isPending = false ∧
      session.feed 30 "(set! x(+ x 1) ) (x)\n\t( display\n x )" =
        some ([.ok .unspecified, .error (.notApplicable (.integer 2) "(x)"), .ok .unspecified],
          next) ∧
      session.handleAll 30
          [.evaluate "(set! x (+ x 1))", .evaluate "(x)", .evaluate "(display x)"] =
        some ([[.ok .unspecified], [.error (.notApplicable (.integer 2) "(x)")],
          [.ok .unspecified]], next) ∧
      next.sink.text = "2" := by
  have hbegun : ∃ session, handle 30 { sink := .accepting, limit := none } (.feed "(define x 1)") =
      some ([.ok .unspecified], session) ∧ session.isPending = false ∧
      ∃ next, session.feed 30 "(set! x(+ x 1) ) (x)\n\t( display\n x )" =
        some ([.ok .unspecified, .error (.notApplicable (.integer 2) "(x)"), .ok .unspecified],
          next) ∧
        next.sink.text = "2" :=
    ⟨_, rfl, rfl, _, rfl, rfl⟩
  have hfeed : ({} : Reader).feed "(set! x(+ x 1) ) (x)\n\t( display\n x )" =
      .ok ⟨[.opening, .word "set!", .word "x", .opening, .word "+", .word "x", .word "1", .closing,
        .closing, .opening, .word "x", .closing, .opening, .word "display", .word "x",
        .closing]⟩ := rfl
  have hreads : ∃ arena, Reader.ReadsAll ⟨[.opening, .word "set!", .word "x", .opening, .word "+",
        .word "x", .word "1", .closing, .closing, .opening, .word "x", .closing, .opening,
        .word "display", .word "x", .closing]⟩ {} [6, 8, 11] arena ∧
      arena.render 6 = "(set! x (+ x 1))" ∧ arena.render 8 = "(x)" ∧
      arena.render 11 = "(display x)" :=
    ⟨_, .read rfl (.read rfl (.read rfl (.done _))), rfl, rfl, rfl⟩
  obtain ⟨session, hbegun, hpending, next, hresults, htext⟩ := hbegun
  obtain ⟨arena, hreads, hset, hx, hdisplay⟩ := hreads
  have hreachable : session.Reachable := .handle (.fresh .accepting none) hbegun
  have heach := (evaluate_each_eq_feed hreachable hpending hfeed hreads 30).1
  rw [hresults] at heach
  simp only [List.map_cons, List.map_nil, hset, hx, hdisplay] at heach
  exact ⟨session, next, hreachable, hpending, hresults, heach, htext⟩

end Session

end StackScheme
