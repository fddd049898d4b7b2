/-!
Lines of a text. A line ends at a line feed or at the end of the text; a carriage return right
before the line feed belongs to the line's end, and an empty piece after the last line feed is
no line.
-/
namespace HostGauge.Text

/-- A line without the carriage return that stood before its line feed. -/
def chomp (line : List Char) : List Char :=
  if line.getLast? = some '\r' then line.dropLast else line

/-- The lines of a text that was cut at every line feed. -/
def closeLines : List (List Char) → List (List Char)
  | [] => []
  | [last] => if last.isEmpty then [] else [last]
  | line :: next :: rest => chomp line :: closeLines (next :: rest)

def lines (s : List Char) : List (List Char) :=
  closeLines (s.splitOn '\n')

/-- The text before the first `sep` and the text after it, or `none` where there is no `sep`. -/
def splitOnce (sep : Char) : List Char → Option (List Char × List Char)
  | [] => none
  | c :: rest =>
    if c = sep then some ([], rest)
    else (splitOnce sep rest).map fun p => (c :: p.1, p.2)

/-- What follows `start` in a text that begins with it. -/
def stripStart (start s : List Char) : Option (List Char) :=
  if start.isPrefixOf s then some (s.drop start.length) else none

/-- Whether `part` stands somewhere in the text. -/
def contains (part : List Char) : List Char → Bool
  | [] => part.isEmpty
  | c :: rest => part.isPrefixOf (c :: rest) || contains part rest

end HostGauge.Text
