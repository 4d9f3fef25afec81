import StackScheme.Answer
import StackScheme.Machine.Step
import StackScheme.Reader

/-!
# Sessions

A session evaluates texts one after the other.  Definitions last from one text
to the next, and so do all expressions, since procedures name their bodies.

* One expression.  `Session.evaluateRoot` runs the machine and then flushes the
  sink; an error of the evaluation wins over a refused flush.
* Whole texts.  `Session.evaluate` stops at the first error and gives the value
  of the last expression.
* Chunks.  `Session.feed` gives one result for each expression that a chunk
  completes, and keeps an incomplete expression for the next chunk.

`budget` bounds the number of steps of each expression.  There is no result if
some expression needs more.
-/

namespace StackScheme

/-- The result of one expression. -/
abbrev Result := Except Error Answer

/-- Everything that lasts from one text to the next. -/
structure Session where
  arena : Arena := {}
  reader : Reader := {}
  store : Store := .initial
  sink : Sink := .accepting
  /-- The greatest depth that an evaluation may reach. -/
  limit : Option Nat := none
  /-- The counters of the latest expression. -/
  stats : Machine.Stats := {}

namespace Session

/-! ## One expression -/

/-- The result of an evaluation, given why the flush after it was refused. -/
def withFlush (outcome : Except Error Value) (refusal : Option String) : Result :=
  match outcome, refusal with
  | .error e, _ => .error e
  | .ok _, some reason => .error (.output reason)
  | .ok v, none => .ok v.answer

/-- Evaluates the expression at `root` in the global scope. -/
def evaluateRoot (budget : Nat) (session : Session) (root : NodeId) : Option (Result × Session) :=
  let { arena, reader, store, sink, limit, stats := _ } := session
  match Machine.run arena limit budget (.initial store sink root) with
  | none => none
  | some (outcome, { store, sink, stats, .. }) =>
    let (refusal, sink) := sink.flush
    some (withFlush outcome refusal, { arena, reader, store, sink, limit, stats })

/-! ## Whole texts -/

/-- Evaluates the expressions that wait in a reader, at most `fuel` of them.
`last` is the value of the expression before. -/
def evaluateAll (budget : Nat) : (fuel : Nat) → Session → Reader → (last : Answer) →
    Option (Result × Session)
  | 0, session, reader, last =>
    some (if reader.isPending then .error (.unreadable .incomplete) else .ok last, session)
  | fuel + 1, session, reader, last =>
    let reading := reader.read session.arena
    let session := { session with arena := reading.arena }
    match reading.root with
    | .error e => some (.error (.unreadable e), session)
    | .ok none =>
      some (if reading.reader.isPending then .error (.unreadable .incomplete) else .ok last,
        session)
    | .ok (some root) =>
      match session.evaluateRoot budget root with
      | none => none
      | some (.error e, session) => some (.error e, session)
      | some (.ok answer, session) => evaluateAll budget fuel session reading.reader answer

/-- Evaluates all expressions of a text up to the first error, and gives the
value of the last one.  Input that waits in the session stays as it is. -/
def evaluate (budget : Nat) (session : Session) (text : String) : Option (Result × Session) :=
  match ({} : Reader).feed text with
  | .error e => some (.error (.unreadable e), session)
  | .ok reader => session.evaluateAll budget reader.pending.length reader .unspecified

/-! ## Chunks -/

/-- Evaluates the expressions that wait in the session, at most `fuel` of them.
`done` holds the results so far, the newest first. -/
def drain (budget : Nat) : (fuel : Nat) → Session → (done : List Result) →
    Option (List Result × Session)
  | 0, session, done => some (done.reverse, session)
  | fuel + 1, session, done =>
    let reading := session.reader.read session.arena
    let session := { session with arena := reading.arena, reader := reading.reader }
    match reading.root with
    | .error e =>
      some ((.error (.unreadable e) :: done).reverse,
        { session with reader := session.reader.clear })
    | .ok none => some (done.reverse, session)
    | .ok (some root) =>
      match session.evaluateRoot budget root with
      | none => none
      | some (result, session) => drain budget fuel session (result :: done)

/-- Adds a chunk of text and evaluates every expression that it completes.  A
syntax error drops all input that waits. -/
def feed (budget : Nat) (session : Session) (text : String) : Option (List Result × Session) :=
  match session.reader.feed text with
  | .error e =>
    some ([.error (.unreadable e)], { session with reader := session.reader.clear })
  | .ok reader => { session with reader }.drain budget reader.pending.length []

/-- Whether an incomplete expression waits. -/
def isPending (session : Session) : Bool :=
  session.reader.isPending

/-- Drops the input that waits. -/
def resetInput (session : Session) : Session :=
  { session with reader := session.reader.clear }

end Session

end StackScheme
