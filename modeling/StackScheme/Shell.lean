import StackScheme.Answer.Json
import StackScheme.CommandLine
import StackScheme.FileSystem
import StackScheme.Session

/-!
# The shell

A shell runs files and reads input line by line in one session, and says what is
to be shown on the two output streams.

* `Shell.load` runs a file.  Its own output comes first, then its values if they
  are asked for, and its errors by the number of the expression.
* `Shell.enterLine` takes a line of input and shows each result by its number.
* `Shell.prompt` asks for a line.
* `Failure` is what ends the program early.
-/

namespace StackScheme

/-- A text for one of the two output streams. -/
inductive Shown where
  | out (text : String)
  | err (text : String)
  deriving DecidableEq, Repr

/-- What ends the program early. -/
inductive Failure where
  /-- A file cannot be read. -/
  | unreadableFile (name : String) (reason : ReadFailure)
  /-- The input cannot be read. -/
  | unreadableInput (reason : ReadFailure)
  deriving DecidableEq, Repr

/-- The failure in words. -/
def Failure.message : Failure → String
  | unreadableFile name reason =>
    "Error: Failed to read " ++ name ++ "\n\nCaused by:\n    " ++ reason.message ++ "\n"
  | unreadableInput reason => "Error: " ++ reason.message ++ "\n"

/-- A session that shows its results. -/
structure Shell where
  session : Session
  /-- Whether values are shown as JSON. -/
  json : Bool
  /-- The number of results of interactive input so far. -/
  results : Nat := 0

namespace Shell

/-- The shell that the options ask for. -/
def start (options : CommandLine.Options) : Shell where
  session := { limit := options.maxDepth }
  json := options.json

/-- The lines for the results of a file, from the result number `index` on. -/
def fileReport (name : String) (json : Bool) : (index : Nat) → List Result → List Shown
  | _, [] => []
  | index, .ok a :: rest =>
    let shown := fileReport name json (index + 1) rest
    if json then .out (a.json ++ "\n") :: shown else shown
  | index, .error e :: rest =>
    .err (name ++ ": expression " ++ Decimal.ofNat index ++ ": " ++ e.message ++ "\n") ::
      fileReport name json (index + 1) rest

/-- Runs a file with the given text.  An expression that the file does not
complete is dropped. -/
def load (budget : Nat) (shell : Shell) (name text : String) : Option (List Shown × Shell) :=
  match shell.session.feed budget text with
  | none => none
  | some (results, session) =>
    let shown := .out (session.sink.textSince shell.session.sink) ::
      fileReport name shell.json 0 results
    if session.isPending then
      some (shown ++ [.err (name ++ ": incomplete expression at end of file\n")],
        { shell with session := session.resetInput })
    else some (shown, { shell with session })

/-- The line for a result of interactive input. -/
def resultLine (json : Bool) (index : Nat) : Result → Shown
  | .ok a =>
    if json then .out (a.json ++ "\n")
    else .out ("$" ++ Decimal.ofNat index ++ " = " ++ a.text ++ "\n")
  | .error e => .err ("error: " ++ e.message ++ "\n")

/-- Takes a line of input, with the line feed at its end. -/
def enterLine (budget : Nat) (shell : Shell) (line : String) : Option (List Shown × Shell) :=
  match shell.session.feed budget line with
  | none => none
  | some (results, session) =>
    some (.out (session.sink.textSince shell.session.sink) ::
        results.mapIdx fun i result => resultLine shell.json (shell.results + i) result,
      { shell with session, results := shell.results + results.length })

/-- The text that asks for a line. -/
def prompt (shell : Shell) : Shown :=
  .err (if shell.session.isPending then "... " else "> ")

end Shell

end StackScheme
