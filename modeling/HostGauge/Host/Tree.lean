import HostGauge.Host.Basic
import HostGauge.Host.Path

/-!
A host held in memory: a tree of directories, files, and utilities that answer from a list of
cases. Paths are followed part by part from the top, so every part but the last must be a
directory, and going up at the top stays there. An absolute path starts at the top too.
-/
namespace HostGauge

/-- What a utility does when it is run in some way. -/
structure UtilityCase where
  /-- The arguments it must be given, if that matters. -/
  arguments : Option (List String) := none
  /-- The locale it must be given in its environment, if that matters. -/
  locale : Option String := none
  output : List UInt8 := []
  status : ExitStatus := .code 0
  deriving DecidableEq, Repr

namespace UtilityCase

def localeVariable : String := "LC_ALL"

/-- The status of a utility that was run in a way for which it has no case. -/
def usageStatus : ExitStatus := .code 64

def accepts (c : UtilityCase) (command : Command) : Bool :=
  c.arguments.all (· = command.arguments)
    && c.locale.all fun l => command.environment.lookup localeVariable = some l

/-- The outcome of the first case that accepts a command. -/
def outcome (cases : List UtilityCase) (command : Command) : Outcome :=
  match cases.find? (·.accepts command) with
  | some c => .ended c.status c.output
  | none => .ended usageStatus []

end UtilityCase

/-- What is found at a path. -/
inductive TreeEntry where
  | directory
  /-- A file, and whether its permissions let it be run. -/
  | file (bytes : List UInt8) (executable : Bool)
  | utility (cases : List UtilityCase) (executable : Bool)
  deriving DecidableEq, Repr

def TreeEntry.isExecutable : TreeEntry → Bool
  | .directory => false
  | .file _ executable => executable
  | .utility _ executable => executable

/-- The entries below the top by their paths, part by part. -/
structure Tree where
  entries : List (List String × TreeEntry) := []
  deriving Repr

namespace Tree

def parts (path : String) : List String := (path.toList.splitOn '/').map String.ofList

def entry? (t : Tree) (path : List String) : Option TreeEntry :=
  if path.isEmpty then some .directory else t.entries.lookup path

/-! ### Changing a tree -/

/-- Removes what is at a path, and everything below it. -/
def remove (t : Tree) (path : List String) : Tree :=
  ⟨t.entries.filter fun e => !path.isPrefixOf e.1⟩

/-- The paths of the directories around a path, from the top down. -/
def parents (path : List String) : List (List String) :=
  (List.range path.length).map path.take

/-- Makes a path a directory, unless something is there. -/
def makeDirectory (t : Tree) (path : List String) : Tree :=
  match t.entry? path with
  | some _ => t
  | none => ⟨(path, .directory) :: t.entries⟩

def makeDirectories (t : Tree) (path : List String) : Tree :=
  (parents path ++ [path]).foldl makeDirectory t

/-- Puts an entry at a path, with the directories around it. -/
def put (t : Tree) (path : List String) (entry : TreeEntry) : Tree :=
  let t := (parents path).foldl makeDirectory t
  ⟨(path, entry) :: t.entries.filter (·.1 ≠ path)⟩

/-- Writes a file, which keeps the permissions of what was there. -/
def write (t : Tree) (path : List String) (bytes : List UInt8) : Tree :=
  t.put path (.file bytes ((t.entry? path).any (·.isExecutable)))

/-- The tree of some texts at their paths. -/
def ofTexts (texts : List (List String × String)) : Tree :=
  texts.foldl (fun t e => t.write e.1 e.2.toUTF8.toList) {}

/-! ### Following a path -/

/-- The largest number of bytes in a part of a path. -/
def longestPart : Nat := 255

/-- The largest number of bytes in a path. -/
def longestPath : Nat := 4095

/-- Follows the parts of a path from a place on. -/
def follow (t : Tree) (place : List String) :
    List String → Except FileFault (List String × TreeEntry)
  | [] =>
    match t.entry? place with
    | some entry => .ok (place, entry)
    | none => .error .notFound
  | part :: rest =>
    match t.entry? place with
    | none => .error .notFound
    | some .directory =>
      if part = "" || part = "." then follow t place rest
      else if part = ".." then follow t place.dropLast rest
      else if longestPart < part.utf8ByteSize then .error .nameTooLong
      else follow t (place ++ [part]) rest
    | some _ => .error .notADirectory

/-- The entry that a path leads to, and its place. -/
def locate (t : Tree) (path : String) : Except FileFault (List String × TreeEntry) :=
  if path.toList.contains '\x00' then .error .nulInPath
  else if path.isEmpty then .error .notFound
  else if longestPath < path.utf8ByteSize then .error .nameTooLong
  else follow t [] (parts path)

/-! ### The host -/

def read (t : Tree) (path : String) : Except FileFault (List UInt8) :=
  match t.locate path with
  | .error cause => .error cause
  | .ok (_, .directory) => .error .isADirectory
  | .ok (_, .file bytes _) => .ok bytes
  | .ok (_, .utility _ _) => .ok []

def isPresent (t : Tree) (path : String) : Bool :=
  match t.locate path with
  | .ok _ => true
  | .error _ => false

def isRegularFile (t : Tree) (path : String) : Bool :=
  match t.locate path with
  | .ok (_, .directory) => false
  | .ok _ => true
  | .error _ => false

/-- The names of the entries right below a place. -/
def namesBelow (t : Tree) (place : List String) : List String :=
  t.entries.filterMap fun e =>
    if e.1.dropLast = place then e.1.getLast? else none

def list (t : Tree) (path : String) : Except FileFault (List String) :=
  match t.locate path with
  | .error cause => .error cause
  | .ok (place, .directory) => .ok (t.namesBelow place)
  | .ok _ => .error .notADirectory

/-- The largest number of bytes in an argument. -/
def longestArgument : Nat := 131071

def run (t : Tree) (command : Command) : Outcome :=
  if (command.path :: command.arguments).any (·.toList.contains '\x00') then
    .notStarted .nulInArgument
  else
    match t.locate command.path with
    | .error cause => .notStarted cause
    | .ok (_, .utility cases true) =>
      if command.arguments.any (longestArgument < ·.utf8ByteSize) then
        .notStarted .argumentTooLong
      else UtilityCase.outcome cases command
    | .ok (_, .file _ true) => .notStarted .notExecutable
    | .ok _ => .notStarted .permissionDenied

/-- The host with the files and utilities of a tree, whose JSON reader refuses without a word. -/
def host (t : Tree) : Host where
  read := t.read
  isPresent := t.isPresent
  isRegularFile := t.isRegularFile
  list := t.list
  run := t.run
  jsonRefusal _ := ""

end Tree

end HostGauge
