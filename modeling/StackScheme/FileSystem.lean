/-!
# File systems

Files by their place in a tree of directories, and what reading a path gives.

* Places.  A `Place` is the list of names that lead from the root to an entry.
  `FileSystem.entry?` says what is at a place: a directory is there as soon as
  something is inside of it.
* Paths.  `pathSteps` splits a path, and `FileSystem.walk` follows the steps one
  by one.  Only from a directory is there a next step, even for the steps that
  stay or go up.
* Reading.  `FileSystem.read` gives the bytes at a path, or why there are none.
* Writing.  `FileSystem.write` puts a file at a path, and `FileSystem.ofFiles` has
  the given files in its working directory.
-/

namespace StackScheme

/-- Why bytes could not be read as text. -/
inductive ReadFailure where
  | notFound
  | permissionDenied
  | notDirectory
  | isDirectory
  | nameTooLong
  /-- The bytes are no text. -/
  | notText
  /-- Any other reason, in words. -/
  | other (reason : String)
  deriving DecidableEq, Repr

/-- The reason in words. -/
def ReadFailure.message : ReadFailure → String
  | notFound => "No such file or directory (os error 2)"
  | permissionDenied => "Permission denied (os error 13)"
  | notDirectory => "Not a directory (os error 20)"
  | isDirectory => "Is a directory (os error 21)"
  | nameTooLong => "File name too long (os error 36)"
  | notText => "stream did not contain valid UTF-8"
  | other reason => reason

/-- The text of some bytes. -/
def decodeText (bytes : ByteArray) : Except ReadFailure String :=
  match String.fromUTF8? bytes with
  | some text => .ok text
  | none => .error .notText

/-! ## Places -/

/-- The names that lead from the root to an entry. -/
abbrev Place := List String

/-- The place that one step leads to.  The root is its own parent. -/
def Place.step (place : Place) (step : String) : Place :=
  if step = "." then place
  else if step = ".." then place.dropLast
  else place ++ [step]

/-- What is at a place. -/
inductive Entry where
  | directory
  | file (bytes : ByteArray)
  /-- Empty at all times. -/
  | null
  /-- The standard input, which is used up by reading it. -/
  | input

/-- Entries by place, and the place that relative paths start from. -/
structure FileSystem where
  entries : List (Place × Entry)
  workingDirectory : Place

namespace FileSystem

/-- What is at a place. -/
def entry? (fs : FileSystem) (place : Place) : Option Entry :=
  match fs.entries.lookup place with
  | some entry => some entry
  | none =>
    if fs.entries.any fun (inside, _) => place.isPrefixOf inside then some .directory else none

/-! ## Paths -/

/-- The steps of a path.  Slashes divide them, several slashes count as one, and
a slash at the end is a step that stays. -/
def pathSteps (path : String) : List String :=
  let names := (path.splitOn "/").filter (· ≠ "")
  if path.endsWith "/" then names ++ ["."] else names

/-- The place that a path starts from. -/
def pathStart (fs : FileSystem) (path : String) : Place :=
  if path.startsWith "/" then [] else fs.workingDirectory

/-- The greatest number of bytes in a name. -/
def maxNameBytes : Nat := 255

/-- The greatest number of bytes in a path. -/
def maxPathBytes : Nat := 4095

/-- The place that some steps lead to. -/
def walk (fs : FileSystem) (place : Place) : List String → Except ReadFailure Place
  | [] => .ok place
  | step :: steps =>
    match fs.entry? place with
    | none => .error .notFound
    | some .directory =>
      if maxNameBytes < step.utf8ByteSize then .error .nameTooLong
      else fs.walk (place.step step) steps
    | some _ => .error .notDirectory

/-- What is at the end of a path.  The empty path leads nowhere. -/
def find (fs : FileSystem) (path : String) : Except ReadFailure Entry :=
  if path = "" then .error .notFound
  else if maxPathBytes < path.utf8ByteSize then .error .nameTooLong
  else
    match fs.walk (fs.pathStart path) (pathSteps path) with
    | .error reason => .error reason
    | .ok place =>
      match fs.entry? place with
      | none => .error .notFound
      | some entry => .ok entry

/-! ## Reading -/

/-- The bytes at a path, and what is left of the standard input after that. -/
def read (fs : FileSystem) (input : ByteArray) (path : String) :
    Except ReadFailure (ByteArray × ByteArray) :=
  match fs.find path with
  | .error reason => .error reason
  | .ok .directory => .error .isDirectory
  | .ok (.file bytes) => .ok (bytes, input)
  | .ok .null => .ok (.empty, input)
  | .ok .input => .ok (input, .empty)

/-! ## Writing -/

/-- Puts a file at a path, in the place of a file that was there.  The directories
on the way are there as soon as the file is.  Nothing but a file gives way. -/
def write (fs : FileSystem) (path : String) (bytes : ByteArray) : FileSystem :=
  let place := (pathSteps path).foldl Place.step (fs.pathStart path)
  match fs.entry? place with
  | none | some (.file _) => { fs with entries := (place, .file bytes) :: fs.entries }
  | some _ => fs

/-! ## A system with some files -/

/-- The system without any files.  Its working directory is empty. -/
def bare : FileSystem where
  workingDirectory := ["tmp", "work"]
  entries :=
    ["bin", "boot", "dev", "etc", "home", "lib", "media", "mnt", "opt", "proc", "root", "run",
      "sbin", "srv", "sys", "tmp", "usr", "var"].map (fun name => ([name], .directory)) ++
    [(["tmp", "work"], .directory), (["dev", "null"], .null), (["dev", "stdin"], .input),
      (["dev", "fd", "0"], .input), (["proc", "self", "fd", "0"], .input)]

/-- A system with the given files, written one after the other.  Their paths start
from the working directory. -/
def ofFiles (files : List (String × ByteArray)) : FileSystem :=
  files.foldl (fun fs (path, bytes) => fs.write path bytes) bare

end FileSystem

end StackScheme
