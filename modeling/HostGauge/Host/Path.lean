/-!
Paths as texts. Joining puts a separator where one is missing, and a path that starts at the
top replaces everything before it.
-/
namespace HostGauge.Path

def isAbsolute (path : String) : Bool := path.toList.head? = some '/'

def join (base part : String) : String :=
  if isAbsolute part then part
  else if base.isEmpty || base.toList.getLast? = some '/' then base ++ part
  else base ++ "/" ++ part

/-- Joins the parts to `base` from left to right. -/
def joinAll (base : String) (parts : List String) : String := parts.foldl join base

/-- The parts of a path that are not empty and do not stay in place. -/
def parts (path : String) : List (List Char) :=
  (path.toList.splitOn '/').filter fun part => !part.isEmpty && part ≠ ['.']

/-- The name of what a path leads to, unless it ends by going up. -/
def fileName? (path : String) : Option (List Char) :=
  (parts path).getLast?.filter (· ≠ ['.', '.'])

/-- What follows the last period of a file's name, if anything stands before that period. -/
def extension? (path : String) : Option String :=
  match fileName? path with
  | none => none
  | some name =>
    let tail := name.reverse.takeWhile (· ≠ '.')
    if tail.length + 1 < name.length then some (String.ofList tail.reverse) else none

end HostGauge.Path
