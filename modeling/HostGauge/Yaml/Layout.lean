import HostGauge.Yaml.Token

/-!
From a text to its tokens. Outside brackets, collections are laid out by indentation: a key or
an item in a column further right than the surrounding one starts a collection, and a token
further left ends it. A key needs no mark of its own; the place of a token that may turn out to
be a key is remembered until a value mark follows it on the same line.
-/
namespace HostGauge.Yaml

/-- Where a token starts that may be a key. -/
structure KeyPlace where
  /-- How many tokens stand before it. -/
  number : Nat
  index : Nat
  line : Nat
  column : Nat
  /-- Nothing else than a key may start here. -/
  required : Bool
  deriving DecidableEq, Repr

/-- A key extends over one line and at most this many bytes. -/
def KeyPlace.reach : Nat := 1024

def KeyPlace.isStale (k : KeyPlace) (c : Cursor) : Bool :=
  k.line < c.line || k.index + KeyPlace.reach < c.index

/-- What has been read of a text. -/
structure Layout where
  cursor : Cursor
  /-- The tokens, the last one first. -/
  tokens : List Lexeme := []
  /-- How many tokens there are. -/
  count : Nat := 0
  /-- The column of the innermost collection that is laid out by indentation. -/
  indent : Int := -1
  /-- The columns of the collections around it. -/
  outerIndents : List Int := []
  /-- The place of a possible key within the innermost brackets. -/
  place : Option KeyPlace := none
  /-- The same for the brackets around them. -/
  outerPlaces : List (Option KeyPlace) := []
  /-- A key that has no mark may start here. -/
  keyAllowed : Bool := true

namespace Layout

def inFlow (l : Layout) : Bool := !l.outerPlaces.isEmpty

def add (l : Layout) (t : Lexeme) : Layout :=
  { l with tokens := t :: l.tokens, count := l.count + 1 }

/-- Inserts a token after the first `number` ones. -/
def insert (l : Layout) (number : Nat) (t : Lexeme) : Layout :=
  let (after, before) := l.tokens.splitAt (l.count - number)
  { l with tokens := after ++ t :: before, count := l.count + 1 }

def moveTo (l : Layout) (c : Cursor) : Layout := { l with cursor := c }

def skip (l : Layout) (n : Nat) : Layout := l.moveTo (l.cursor.skip n)

def allowKey (l : Layout) (allowed : Bool) : Layout := { l with keyAllowed := allowed }

/-! ### Indentation -/

/-- Starts a collection in a column that lies further right than the surrounding. -/
def openAt (l : Layout) (column number : Nat) (start : Mark) : Layout :=
  if !l.inFlow && l.indent < (column : Int) then
    { l with indent := column, outerIndents := l.indent :: l.outerIndents }.insert number
      (.mark start)
  else l

/-- The collections that end before a column: how many there are, and those that remain. -/
def closed (column : Int) : Int → List Int → Nat × Int × List Int
  | indent, [] => (0, indent, [])
  | indent, outer :: rest =>
    if column < indent then
      let (n, remaining) := closed column outer rest
      (n + 1, remaining)
    else (0, indent, outer :: rest)

/-- Ends the collections further right than a column. -/
def closeTo (l : Layout) (column : Int) : Layout :=
  if l.inFlow then l
  else
    let (n, indent, outer) := closed column l.indent l.outerIndents
    { l with
      tokens := List.replicate n (.mark .blockEnd) ++ l.tokens
      count := l.count + n
      indent := indent
      outerIndents := outer }

/-! ### Keys without a mark -/

/-- Forgets the place of a possible key, unless it has to be one. -/
def dropPlace? (l : Layout) : Option Layout :=
  if l.place.any (·.required) then none else some { l with place := none }

/-- Remembers the position as the place of a possible key. -/
def savePlace? (l : Layout) : Option Layout :=
  if l.keyAllowed then do
    let l ← l.dropPlace?
    let c := l.cursor
    let required := !l.inFlow && l.indent = (c.column : Int)
    return { l with place := some ⟨l.count, c.index, c.line, c.column, required⟩ }
  else some l

/-- Forgets the place if it is too far back, unless it has to be a key. The places around the
innermost brackets have their turn when these are closed. -/
def dropStale? (l : Layout) : Option Layout :=
  if l.place.any (·.isStale l.cursor) then l.dropPlace? else some l

/-! ### Between tokens -/

/-- A byte order mark at the start of a line is skipped. -/
def skipMark (c : Cursor) : Cursor :=
  if c.column = 0 && c.rest.head? = some '\uFEFF' then c.skip 1 else c

theorem length_skipMark_le (c : Cursor) : (skipMark c).rest.length ≤ c.rest.length := by
  unfold skipMark
  split
  next =>
    rw [Cursor.length_skip]
    exact Nat.sub_le ..
  next => exact Nat.le_refl _

/-- Moves over blanks and a comment. Where a key may start outside brackets, tabs are no
blanks. -/
def skipLine (inFlow keyAllowed : Bool) (c : Cursor) : Cursor :=
  let isSkipped (b : Char) : Bool := b = ' ' || ((inFlow || !keyAllowed) && b = '\t')
  ((skipMark c).skipWhile isSkipped).skipComment

theorem length_skipLine_le (inFlow keyAllowed : Bool) (c : Cursor) :
    (skipLine inFlow keyAllowed c).rest.length ≤ c.rest.length :=
  Nat.le_trans (Cursor.length_skipComment_le _) <|
    Nat.le_trans (Cursor.length_skipWhile_le ..) (length_skipMark_le c)

/-- Moves over blanks, comments and line ends, after which a key may start outside brackets. -/
def skipLines (inFlow keyAllowed : Bool) (c : Cursor) : Bool × Cursor :=
  match _h : (skipLine inFlow keyAllowed c).skipBreak? with
  | some (_, next) => skipLines inFlow (keyAllowed || !inFlow) next
  | none => (keyAllowed, skipLine inFlow keyAllowed c)
  termination_by c.rest.length
  decreasing_by
    exact Nat.lt_of_lt_of_le (Cursor.length_of_skipBreak? _h) (length_skipLine_le ..)

def skipBlanks (l : Layout) : Layout :=
  let (keyAllowed, c) := skipLines l.inFlow l.keyAllowed l.cursor
  { l with keyAllowed := keyAllowed, cursor := c }

/-! ### Tokens -/

/-- Ends all that is open at the end of a document. -/
def endDocument? (l : Layout) : Option Layout :=
  ((l.closeTo (-1)).dropPlace?).map (·.allowKey false)

/-- A directive, or a mark at the start of a line. -/
def lineToken? (l : Layout) : Option (Option Layout) :=
  if l.cursor.column = 0 && l.cursor.rest.head? = some '%' then
    some do
      let l ← l.endDocument?
      let (t, c) ← directive? (l.cursor.skip 1)
      return (l.add t).moveTo c
  else if l.cursor.atMark '-' then
    some (l.endDocument?.map fun l => (l.add (.mark .documentStart)).skip 3)
  else if l.cursor.atMark '.' then
    some (l.endDocument?.map fun l => (l.add (.mark .documentEnd)).skip 3)
  else none

def openFlow? (l : Layout) (m : Mark) : Option Layout :=
  l.savePlace?.map fun l =>
    ({ l with
        place := none
        outerPlaces := l.place :: l.outerPlaces
        keyAllowed := true }.add (.mark m)).skip 1

def closeFlow? (l : Layout) (m : Mark) : Option Layout :=
  l.dropPlace?.map fun l =>
    let l :=
      match l.outerPlaces with
      | place :: outer => { l with place := place, outerPlaces := outer }
      | [] => l
    ((l.allowKey false).add (.mark m)).skip 1

def comma? (l : Layout) : Option Layout :=
  l.dropPlace?.map fun l => ((l.allowKey true).add (.mark .comma)).skip 1

/-- Starts a collection at the position, where a key may start. -/
def openHere? (l : Layout) (start : Mark) : Option Layout :=
  if l.inFlow then some l
  else if l.keyAllowed then some (l.openAt l.cursor.column l.count start)
  else none

def item? (l : Layout) : Option Layout := do
  let l ← l.openHere? .sequenceStart
  let l ← l.dropPlace?
  return ((l.allowKey true).add (.mark .item)).skip 1

def key? (l : Layout) : Option Layout := do
  let l ← l.openHere? .mappingStart
  let l ← l.dropPlace?
  return ((l.allowKey (!l.inFlow)).add (.mark .key)).skip 1

/-- A value mark. What started at a remembered place becomes a key. -/
def value? (l : Layout) : Option Layout :=
  match l.place with
  | some k =>
    let l := (l.insert k.number (.mark .key)).openAt k.column k.number .mappingStart
    some (({ l with place := none, keyAllowed := false }.add (.mark .value)).skip 1)
  | none =>
    (l.openHere? .mappingStart).map fun l => ((l.allowKey (!l.inFlow)).add (.mark .value)).skip 1

/-- A token that may be a key, or part of one. -/
def keyToken? (l : Layout) (read : Cursor → Option (Lexeme × Cursor)) : Option Layout := do
  let l ← l.savePlace?
  let (t, c) ← read l.cursor
  return ((l.allowKey false).add t).moveTo c

def blockToken? (l : Layout) (literal : Bool) : Option Layout := do
  let l ← l.dropPlace?
  let (t, c) ← blockScalar? literal l.indent l.cursor
  return ((l.allowKey true).add t).moveTo c

def plainToken? (l : Layout) : Option Layout := do
  let l ← l.savePlace?
  let c := l.cursor
  let p ← plain? l.inFlow (l.indent + 1).toNat {} c
  return ((l.allowKey p.broken).add (.scalar .plain p.text)).moveTo p.cursor

/-- The token that starts with a character. -/
def charToken? (l : Layout) (c : Char) (rest : List Char) : Option Layout :=
  let named (make : String → Lexeme) (c : Cursor) : Option (Lexeme × Cursor) :=
    (anchorName? (c.skip 1)).map fun p => (make (String.ofList p.1), p.2)
  if c = '[' then l.openFlow? .openBracket
  else if c = '\x7b' then l.openFlow? .openBrace
  else if c = ']' then l.closeFlow? .closeBracket
  else if c = '\x7d' then l.closeFlow? .closeBrace
  else if c = ',' then l.comma?
  else if c = '-' && atBlankOrEnd rest then l.item?
  else if c = '?' && (l.inFlow || atBlankOrEnd rest) then l.key?
  else if c = ':' && (l.inFlow || atBlankOrEnd rest) then l.value?
  else if c = '*' then l.keyToken? (named .alias)
  else if c = '&' then l.keyToken? (named .anchor)
  else if c = '!' then l.keyToken? (tag? l.inFlow)
  else if c = '|' && !l.inFlow then l.blockToken? true
  else if c = '>' && !l.inFlow then l.blockToken? false
  else if c = '\'' then l.keyToken? (quotedScalar? true)
  else if c = '"' then l.keyToken? (quotedScalar? false)
  else if startsPlain l.inFlow (c :: rest) then l.plainToken?
  else none

/-- The tokens from a position on; `steps` bounds their number. -/
def run? : Nat → Layout → Option (List Lexeme)
  | 0, _ => none
  | steps + 1, l =>
    match l.skipBlanks.dropStale? with
    | none => none
    | some l =>
      let l := l.closeTo l.cursor.column
      match l.cursor.rest with
      | [] => l.endDocument?.map (·.tokens.reverse)
      | c :: rest =>
        match l.lineToken?.getD (l.charToken? c rest) with
        | some l => run? steps l
        | none => none

end Layout

/-- The tokens of a text. -/
def Lexeme.ofText? (text : List Char) : Option (List Lexeme) :=
  if text.all isAllowed then Layout.run? (text.length + 1) { cursor := ⟨text, 0, 0, 0⟩ }
  else none

end HostGauge.Yaml
