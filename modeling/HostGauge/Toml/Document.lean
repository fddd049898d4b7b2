import HostGauge.Toml.Value

/-!
TOML documents: the pairs before the first heading, and the tables under headings in their
order. `Document.isConsistent` says when the headings do not define a table twice.
-/
namespace HostGauge.Toml

/-- A table under a heading, `[a.b]` or `[[a.b]]`. -/
structure Section where
  path : List String
  /-- The heading adds an element to an array of tables. -/
  element : Bool
  pairs : List (String × Value)

structure Document where
  pairs : List (String × Value) := []
  sections : List Section := []

/-- One line of a document. -/
inductive Line where
  | heading (path : List String) (element : Bool)
  | pair (key : List String) (value : Value)

/-- The end of a line: spaces, then a comment or a line feed or the end of the text. -/
def endLine? (ts : List Token) : Option (List Token) :=
  match skipSpace ts with
  | [] => some []
  | .newline :: ts => some ts
  | .comment :: .newline :: ts => some ts
  | [.comment] => some []
  | _ => none

def heading? (element : Bool) (ts : List Token) : Option (Line × List Token) :=
  match dottedKey? (skipSpace ts) with
  | some (path, .closeBracket :: ts) =>
    if element then
      match ts with
      | .closeBracket :: ts => (endLine? ts).map fun ts => (.heading path element, ts)
      | _ => none
    else (endLine? ts).map fun ts => (.heading path element, ts)
  | _ => none

/-- The first line of tokens that do not start with blank lines. -/
def line? (ts : List Token) : Option (Line × List Token) :=
  match ts with
  | .openBracket :: .openBracket :: ts => heading? true ts
  | .openBracket :: ts => heading? false ts
  | ts =>
    match dottedKey? ts with
    | some (key, .equals :: ts) =>
      match value? ts.length.succ (skipSpace ts) with
      | some (value, ts) => (endLine? ts).map fun ts => (.pair key value, ts)
      | none => none
    | _ => none

/-- All lines; `steps` bounds their number. -/
def lines? : Nat → List Token → Option (List Line)
  | 0, _ => none
  | steps + 1, ts =>
    match skipLines ts with
    | [] => some []
    | ts =>
      match line? ts with
      | some (line, ts) => (lines? steps ts).map (line :: ·)
      | none => none

namespace Document

/-- Adds a line to a document whose sections have their last one first. -/
def addLine? (d : Document) : Line → Option Document
  | .heading path element => some { d with sections := ⟨path, element, []⟩ :: d.sections }
  | .pair key value =>
    match d.sections with
    | [] => (addPair? key value d.pairs).map fun pairs => { d with pairs := pairs }
    | s :: before =>
      (addPair? key value s.pairs).map fun pairs =>
        { d with sections := { s with pairs := pairs } :: before }

/-- A heading below some path: what remains of it, and whether it adds an element. -/
abbrev Heading := List String × Bool

/-- The headings below one name, without that name. -/
def below (name : String) (headings : List Heading) : List Heading :=
  headings.filterMap fun h =>
    match h.1 with
    | k :: rest => if k = name then some (rest, h.2) else none
    | [] => none

/-- The headings that stand under each element of an array: those between its own heading and
the next one. -/
def elements : List Heading → List (List Heading)
  | [] => [[]]
  | h :: rest =>
    match elements rest with
    | [] => [[h]]
    | first :: others =>
      if h.1.isEmpty && h.2 then [] :: first :: others else (h :: first) :: others

/-- Whether the headings below a path define nothing twice. The table at the path itself has at
most one heading, none if it is `defined` otherwise. A name whose first heading adds an element
belongs to an array of tables; below each element the rule holds again. `depth` bounds the
length of the headings. -/
def consistentBelow : Nat → Bool → List Heading → Bool
  | 0, _, _ => true
  | depth + 1, defined, headings =>
    let own := headings.filter (·.1.isEmpty)
    own.all (!·.2) && own.length ≤ (if defined then 0 else 1)
      && (headings.filterMap (·.1.head?)).eraseDups.all fun name =>
        let inner := below name headings
        match inner.head? with
        | some ([], true) => (elements (inner.drop 1)).all (consistentBelow depth true)
        | _ => consistentBelow depth false inner

def headings (d : Document) : List Heading := d.sections.map fun s => (s.path, s.element)

def isConsistent (d : Document) : Bool :=
  let depth := d.headings.foldl (fun n h => max n h.1.length) 0
  consistentBelow (depth + 1) true d.headings

/-- The members of the top table: its pairs, then one table for every section. -/
def members (d : Document) : List (String × Value) :=
  d.pairs ++ d.sections.filterMap fun s => s.path.head?.map fun k => (k, .table false s.pairs)

/-- The document of a text. -/
def parse? (text : List Char) : Option Document := do
  let tokens ← scan text
  let lines ← lines? (tokens.length + 1) tokens
  let reversed ← lines.foldlM addLine? {}
  let document : Document := { reversed with sections := reversed.sections.reverse }
  if document.isConsistent then some document else none

end Document

end HostGauge.Toml
