import StackScheme.Shell

/-!
# The program

The outer layer: takes the arguments, reads files and standard input, and prints
what the shell shows.
-/

namespace StackScheme.Program

/-- More steps than any evaluation takes. -/
def budget : Nat := twoTo 62

/-- Prints what the shell shows. -/
def print (shown : List Shown) : IO Unit := do
  for text in shown do
    match text with
    | .out text => (← IO.getStdout).putStr text
    | .err text => (← IO.getStderr).putStr text
  (← IO.getStdout).flush
  (← IO.getStderr).flush

/-- Why a file could not be read. -/
def readFailure (e : IO.Error) : ReadFailure :=
  match e with
  | .noFileOrDirectory .. => .notFound
  | .permissionDenied .. => .permissionDenied
  | .inappropriateType _ code _ => if code = 20 then .notDirectory else .isDirectory
  | .invalidArgument _ 36 _ => .nameTooLong
  | e => .other (toString e)

/-- Reads a file as text. -/
def readText (name : String) : IO (Except ReadFailure String) := do
  try
    return decodeText (← IO.FS.readBinFile name)
  catch e => return .error (readFailure e)

/-- Ends the program early. -/
def fail (failure : Failure) : IO UInt32 := do
  print [.err failure.message]
  return 1

/-- Reads the bytes of a line, with the line feed at its end. -/
partial def readLine (input : IO.FS.Stream) (line : ByteArray) : IO ByteArray := do
  let byte ← input.read 1
  match byte[0]? with
  | none => return line
  | some b => if b = 10 then return line.push b else readLine input (line.push b)

/-- Reads lines until the input ends. -/
partial def interact (input : IO.FS.Stream) (shell : Shell) : IO UInt32 := do
  print [shell.prompt]
  let line ← readLine input .empty
  if line.isEmpty then return 0
  match decodeText line with
  | .error reason => fail (.unreadableInput reason)
  | .ok text =>
    match shell.enterLine budget text with
    | none => return 1
    | some (shown, shell) =>
      print shown
      interact input shell

/-- Runs files, and then the input if it is asked for. -/
def runFiles (options : CommandLine.Options) (shell : Shell) : List String → IO UInt32
  | [] => do
    if options.files.isEmpty then interact (← IO.getStdin) shell else return 0
  | name :: names => do
    match ← readText name with
    | .error reason => fail (.unreadableFile name reason)
    | .ok text =>
      match shell.load budget name text with
      | none => return 1
      | some (shown, shell) =>
        print shown
        runFiles options shell names

end StackScheme.Program

open StackScheme in
/-- The command line program. -/
def main (arguments : List String) : IO UInt32 := do
  match CommandLine.Invocation.ofArguments arguments with
  | .error e =>
    Program.print [.err ("error: " ++ e.message ++ "\n")]
    return 2
  | .ok .help =>
    Program.print [.out CommandLine.helpText]
    return 0
  | .ok .version =>
    Program.print [.out CommandLine.versionText]
    return 0
  | .ok (.run options) =>
    Program.runFiles options (.start options) (options.loads ++ options.files)
