/-!
# The command line

What the arguments of the program ask for.  Arguments are taken from left to
right, and the first one that is wrong, or that asks for help or for the
version, settles the matter.

* `Argument.ofText` says what a single argument is.
* `Invocation.ofArguments` puts the arguments together.
-/

namespace StackScheme

namespace CommandLine

/-- What is wrong with the arguments. -/
inductive UsageError where
  | unknownOption (text : String)
  | missingValue (option : String)
  | unexpectedValue (option : String)
  | emptyValue (what : String)
  | repeated (option : String)
  | invalidNumber (text : String)
  deriving DecidableEq, Repr

/-- The usage error in words. -/
def UsageError.message : UsageError → String
  | unknownOption text => "unexpected argument '" ++ text ++ "' found"
  | missingValue option => "a value is required for '" ++ option ++ "' but none was supplied"
  | unexpectedValue option => "no value is accepted for '" ++ option ++ "'"
  | emptyValue what => "a value is required for '" ++ what ++ "' but none was supplied"
  | repeated option => "the argument '" ++ option ++ "' cannot be used multiple times"
  | invalidNumber text => "invalid value '" ++ text ++ "' for '--max-depth <N>'"

/-- A single argument.  An option that takes a value may have it attached. -/
inductive Argument where
  | file (name : String)
  | load (attached : Option String)
  | maxDepth (attached : Option String)
  | json
  | help
  | version
  deriving DecidableEq, Repr

namespace Argument

/-- An option without a value. -/
def flag (a : Argument) (option : String) (attached : Option String) :
    Except UsageError Argument :=
  match attached with
  | none => .ok a
  | some _ => .error (.unexpectedValue option)

/-- An argument that starts with two hyphens, given what follows them.  A value
may follow an equals sign. -/
def ofLong (body : List Char) : Except UsageError Argument :=
  let name := body.takeWhile (· != '=')
  let attached := match body.dropWhile (· != '=') with
    | [] => none
    | _ :: value => some (String.ofList value)
  match String.ofList name with
  | "load" => .ok (.load attached)
  | "max-depth" => .ok (.maxDepth attached)
  | "json" => flag .json "--json" attached
  | "help" => flag .help "--help" attached
  | "version" => flag .version "--version" attached
  | _ => .error (.unknownOption (String.ofList ('-' :: '-' :: body)))

/-- An argument that starts with one hyphen, given what follows it.  A value may
follow at once or after an equals sign. -/
def ofShort : List Char → Except UsageError Argument
  | ['l'] => .ok (.load none)
  | 'l' :: '=' :: value => .ok (.load (some (String.ofList value)))
  | 'l' :: value => .ok (.load (some (String.ofList value)))
  | 'h' :: _ => .ok .help
  | 'V' :: _ => .ok .version
  | body => .error (.unknownOption (String.ofList ('-' :: body)))

/-- What an argument is.  A hyphen alone is a file name. -/
def ofText (text : String) : Except UsageError Argument :=
  match text.toList with
  | '-' :: '-' :: body => ofLong body
  | ['-'] => .ok (.file text)
  | '-' :: body => ofShort body
  | _ => .ok (.file text)

end Argument

/-- Whether an argument cannot be the value of the option before it. -/
def looksLikeOption (text : String) : Bool :=
  match text.toList with
  | '-' :: _ :: _ => true
  | _ => false

/-- What a run of the program is to do. -/
structure Options where
  /-- Files to run before everything else. -/
  loads : List String := []
  /-- Files to run.  Without any, input is read interactively. -/
  files : List String := []
  /-- Whether values are shown as JSON. -/
  json : Bool := false
  maxDepth : Option Nat := none
  deriving DecidableEq, Repr

namespace Options

/-- Adds a file to run. -/
def addFile (options : Options) (name : String) : Except UsageError Options :=
  if name.isEmpty then .error (.emptyValue "[FILES]...")
  else .ok { options with files := options.files ++ [name] }

/-- Adds a file to run before everything else. -/
def addLoad (options : Options) (name : String) : Except UsageError Options :=
  if name.isEmpty then .error (.emptyValue "--load <FILE>")
  else .ok { options with loads := options.loads ++ [name] }

/-- Asks for JSON, once. -/
def setJson (options : Options) : Except UsageError Options :=
  if options.json then .error (.repeated "--json") else .ok { options with json := true }

/-- The number that an optional plus sign and digits denote, if it has at most
64 bits. -/
def number? (text : String) : Option Nat :=
  let ds := match text.toList with
    | '+' :: ds => ds
    | ds => ds
  if !ds.isEmpty && ds.all Char.isDigit then
    let n := Nat.ofDigitChars 10 ds 0
    if n < UInt64.size then some n else none
  else none

/-- Sets the depth limit, once. -/
def setMaxDepth (options : Options) (text : String) : Except UsageError Options :=
  if options.maxDepth.isSome then .error (.repeated "--max-depth <N>")
  else
    match number? text with
    | some n => .ok { options with maxDepth := some n }
    | none => .error (.invalidNumber text)

/-- Adds the remaining arguments as files to run. -/
def addFiles (options : Options) : List String → Except UsageError Options
  | [] => .ok options
  | name :: names =>
    match options.addFile name with
    | .ok options => options.addFiles names
    | .error e => .error e

end Options

/-- What the program is asked for. -/
inductive Invocation where
  | run (options : Options)
  | help
  | version
  deriving DecidableEq, Repr

namespace Invocation

/-- Goes on with the arguments that are left. -/
def ofRest (options : Options) : List String → Except UsageError Invocation
  | [] => .ok (.run options)
  | text :: rest =>
    if text = "--" then (options.addFiles rest).map .run
    else
      match Argument.ofText text with
      | .error e => .error e
      | .ok .help => .ok .help
      | .ok .version => .ok .version
      | .ok .json => options.setJson.bind fun options => ofRest options rest
      | .ok (.file name) => (options.addFile name).bind fun options => ofRest options rest
      | .ok (.load (some name)) => (options.addLoad name).bind fun options => ofRest options rest
      | .ok (.maxDepth (some n)) => (options.setMaxDepth n).bind fun options => ofRest options rest
      | .ok (.load none) =>
        match rest with
        | [] => .error (.missingValue "--load <FILE>")
        | value :: rest =>
          if looksLikeOption value then .error (.missingValue "--load <FILE>")
          else (options.addLoad value).bind fun options => ofRest options rest
      | .ok (.maxDepth none) =>
        match rest with
        | [] => .error (.missingValue "--max-depth <N>")
        | value :: rest =>
          if looksLikeOption value then .error (.missingValue "--max-depth <N>")
          else (options.setMaxDepth value).bind fun options => ofRest options rest

/-- What the arguments of the program ask for. -/
def ofArguments (arguments : List String) : Except UsageError Invocation :=
  ofRest {} arguments

end Invocation

/-- The text of the version. -/
def versionText : String :=
  "skiff 0.1.0\n"

/-- The text of the help. -/
def helpText : String :=
  "Evaluate Scheme programs, or read them interactively\n\n" ++
  "Usage: skiff [OPTIONS] [FILES]...\n\n" ++
  "Arguments:\n" ++
  "  [FILES]...  Script files evaluated in order. Without any, an interactive session starts\n\n" ++
  "Options:\n" ++
  "  -l, --load <FILE>    Load a file, then continue interactively\n" ++
  "      --json           Print every result as a JSON value\n" ++
  "      --max-depth <N>  Bound on pending evaluation depth\n" ++
  "  -h, --help           Print help\n" ++
  "  -V, --version        Print version\n"

end CommandLine

end StackScheme
