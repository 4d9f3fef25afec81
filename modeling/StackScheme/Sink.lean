/-!
# Output sinks

A sink is asked to take texts and to flush, and may refuse either with a
reason.  A refused write takes nothing.  What a sink answers may depend on
everything that it was asked before.

* Requests.  `Sink.write` and `Sink.flush` ask the sink and note the request;
  writing the empty text asks nothing.
* Accepted text.  `Sink.text` is everything that was accepted, and
  `Sink.textSince` is what was accepted after an earlier state.
* Sinks.  `Sink.accepting` takes everything and `Sink.bounded` takes so many
  bytes.
-/

namespace StackScheme

namespace Sink

/-- A request that was made, and whether it was granted. -/
inductive Request where
  | write (text : String) (granted : Bool)
  | flush (granted : Bool)
  deriving DecidableEq, Repr

/-- The text that a request brought in. -/
def Request.accepted? : Request → Option String
  | write text true => some text
  | _ => none

/-- What a sink has been asked so far. -/
structure History where
  /-- The requests, the newest first. -/
  requests : List Request := []
  /-- The number of bytes accepted so far. -/
  bytes : Nat := 0
  deriving DecidableEq, Repr

end Sink

/-- A place that output goes to. -/
structure Sink where
  /-- The reason for refusing a text, if it is refused. -/
  refuseWrite : Sink.History → String → Option String
  /-- The reason for refusing to flush, if it is refused. -/
  refuseFlush : Sink.History → Option String
  history : Sink.History := {}

namespace Sink

/-! ## Requests -/

/-- The sink after one more request. -/
def note (sink : Sink) (request : Request) (bytes : Nat) : Sink :=
  { sink with
    history :=
      { requests := request :: sink.history.requests, bytes := sink.history.bytes + bytes } }

/-- Asks the sink to take a text.  The result has the reason if it is refused. -/
def write (sink : Sink) (text : String) : Option String × Sink :=
  if text.isEmpty then (none, sink)
  else
    match sink.refuseWrite sink.history text with
    | some reason => (some reason, sink.note (.write text false) 0)
    | none => (none, sink.note (.write text true) text.utf8ByteSize)

/-- Asks the sink to flush.  The result has the reason if it is refused. -/
def flush (sink : Sink) : Option String × Sink :=
  match sink.refuseFlush sink.history with
  | some reason => (some reason, sink.note (.flush false) 0)
  | none => (none, sink.note (.flush true) 0)

/-! ## Accepted text -/

/-- The text that a list of requests, the newest first, brought in. -/
def acceptedText (requests : List Request) : String :=
  String.join (requests.reverse.filterMap Request.accepted?)

/-- Everything that was accepted so far. -/
def text (sink : Sink) : String :=
  acceptedText sink.history.requests

/-- What was accepted after an earlier state of the same sink. -/
def textSince (sink earlier : Sink) : String :=
  let new := sink.history.requests.length - earlier.history.requests.length
  acceptedText (sink.history.requests.take new)

/-! ## Sinks -/

/-- A sink that refuses nothing. -/
def accepting : Sink where
  refuseWrite := fun _ _ => none
  refuseFlush := fun _ => none

/-- A sink that refuses each text that would bring it above `capacity` bytes. -/
def bounded (capacity : Nat) (reason : String) : Sink where
  refuseWrite := fun history text =>
    if capacity < history.bytes + text.utf8ByteSize then some reason else none
  refuseFlush := fun _ => none

/-- The sink with every flush refused. -/
def withoutFlush (sink : Sink) (reason : String) : Sink :=
  { sink with refuseFlush := fun _ => some reason }

end Sink

end StackScheme
