import StackScheme.Shell

/-!
# Whole runs of the shell

A run of the program on files and input that are at hand: what it shows
on the two output streams, and with which status it ends.

* `linesOf` divides the input into lines.
* `Transcript` collects what is shown.
* `runProgram` is a whole run.
-/

namespace StackScheme

/-! ## Lines -/

/-- The lines of a sequence of bytes.  Each line keeps the line feed at its end,
and the last one may lack it.  `line` holds the start of the first line, the
newest byte first. -/
def linesFrom (line : List UInt8) : List UInt8 → List ByteArray
  | [] => if line.isEmpty then [] else [⟨line.reverse.toArray⟩]
  | b :: bs =>
    if b = 10 then ⟨(b :: line).reverse.toArray⟩ :: linesFrom [] bs
    else linesFrom (b :: line) bs

/-- The lines of a sequence of bytes. -/
def linesOf (bytes : ByteArray) : List ByteArray :=
  linesFrom [] bytes.toList

/-! ## Runs -/

/-- What a run has shown, and how it ended. -/
structure Transcript where
  status : Nat := 0
  out : String := ""
  err : String := ""
  deriving DecidableEq, Repr

namespace Transcript

/-- Shows one more text. -/
def add (t : Transcript) : Shown → Transcript
  | .out text => { t with out := t.out ++ text }
  | .err text => { t with err := t.err ++ text }

/-- Shows more texts. -/
def addAll (t : Transcript) (shown : List Shown) : Transcript :=
  shown.foldl add t

/-- Ends early. -/
def failed (t : Transcript) (failure : Failure) : Transcript :=
  { t.add (.err failure.message) with status := 1 }

end Transcript

/-- Runs files one after the other, up to the first one that cannot be read.
The shell and the rest of the input are there if all of them were run. -/
def runFiles (budget : Nat) (fs : FileSystem) : (names : List String) → (input : ByteArray) →
    Shell → Transcript → Option (Option (Shell × ByteArray) × Transcript)
  | [], input, shell, t => some (some (shell, input), t)
  | name :: names, input, shell, t =>
    match fs.read input name with
    | .error reason => some (none, t.failed (.unreadableFile name reason))
    | .ok (bytes, input) =>
      match decodeText bytes with
      | .error reason => some (none, t.failed (.unreadableFile name reason))
      | .ok text =>
        match shell.load budget name text with
        | none => none
        | some (shown, shell) => runFiles budget fs names input shell (t.addAll shown)

/-- Reads lines up to the end of the input or to the first one that is no text.
There is a prompt before each line and before the end. -/
def runLines (budget : Nat) : (lines : List ByteArray) → Shell → Transcript →
    Option Transcript
  | [], shell, t => some (t.add shell.prompt)
  | line :: lines, shell, t =>
    let t := t.add shell.prompt
    match decodeText line with
    | .error reason => some (t.failed (.unreadableInput reason))
    | .ok text =>
      match shell.enterLine budget text with
      | none => none
      | some (shown, shell) => runLines budget lines shell (t.addAll shown)

/-- A whole run with the given options. -/
def runOptions (budget : Nat) (fs : FileSystem) (input : ByteArray)
    (options : CommandLine.Options) : Option Transcript :=
  match runFiles budget fs (options.loads ++ options.files) input (.start options) {} with
  | none => none
  | some (none, t) => some t
  | some (some (shell, input), t) =>
    if options.files.isEmpty then runLines budget (linesOf input) shell t else some t

/-- A whole run of the program with the given arguments.  Wrong arguments end it
with status 2. -/
def runProgram (budget : Nat) (fs : FileSystem) (input : ByteArray)
    (arguments : List String) : Option Transcript :=
  match CommandLine.Invocation.ofArguments arguments with
  | .error e => some { status := 2, err := "error: " ++ e.message ++ "\n" }
  | .ok .help => some { out := CommandLine.helpText }
  | .ok .version => some { out := CommandLine.versionText }
  | .ok (.run options) => runOptions budget fs input options

end StackScheme
