import HostGauge.Yaml.Scalar

/-!
The tokens of a YAML text, and those of them that are read in one piece: directives, names of
anchors, tags and scalars. The characters of a tag stand for its octets.
-/
namespace HostGauge.Yaml

/-- The tokens that only give structure. -/
inductive Mark where
  | documentStart
  | documentEnd
  /-- A sequence or a mapping that is laid out by its indentation starts, or ends. -/
  | sequenceStart
  | mappingStart
  | blockEnd
  | openBracket
  | closeBracket
  | openBrace
  | closeBrace
  | comma
  /-- An item of a sequence follows. -/
  | item
  | key
  | value
  deriving DecidableEq, Repr

/-- A token, with names of type `ν` for its anchors. -/
inductive Token (ν : Type) where
  | mark (m : Mark)
  | version (major minor : Nat)
  | tagHandle (handle start : List Char)
  | alias (name : ν)
  | anchor (name : ν)
  | tag (handle suffix : List Char)
  | scalar (style : ScalarStyle) (text : List Char)
  deriving DecidableEq, Repr

/-- A token as it is read from a text. -/
abbrev Lexeme := Token String

/-! ### Names and numbers -/

/-- A run of word characters. -/
def word? (c : Cursor) : Option (List Char × Cursor) :=
  let name := c.rest.takeWhile isWord
  if name.isEmpty then none else some (name, c.skip name.length)

/-- A number of at most nine digits. -/
def versionNumber? (c : Cursor) : Option (Nat × Cursor) :=
  let digits := c.rest.takeWhile Char.isDigit
  if digits.isEmpty || 9 < digits.length then none
  else some (Nat.ofDigitChars 10 digits 0, c.skip digits.length)

/-- The characters other than blanks that may follow the name of an anchor. -/
def endsAnchor (c : Char) : Bool := "?:,]\x7d%@`".toList.contains c

/-- The name of an anchor. -/
def anchorName? (c : Cursor) : Option (List Char × Cursor) := do
  let (name, c) ← word? c
  if atBlankOrEnd c.rest || c.rest.head?.any endsAnchor then some (name, c) else none

/-! ### Tags -/

/-- The characters of a tag; between angle brackets also some that are indicators. -/
def isTagChar (verbatim : Bool) (c : Char) : Bool :=
  isWord c || ";/?:@&=+$.!~*'()".toList.contains c || (verbatim && ",[]".toList.contains c)

/-- An octet written with two hexadecimal digits. -/
def octet? : List Char → Option (Char × List Char)
  | '%' :: a :: b :: rest =>
    if isHex a && isHex b then some (Char.ofNat (16 * hexValue a + hexValue b), rest) else none
  | _ => none

/-- How many octets follow the first one of a character. -/
def octetsAfter? (octet : Char) : Option Nat :=
  let n := octet.toNat
  if n < 0x80 then some 0
  else if n / 32 = 6 then some 1
  else if n / 16 = 14 then some 2
  else if n / 8 = 30 then some 3
  else none

/-- The further octets of a character. -/
def moreOctets? : Nat → List Char → Option (List Char × List Char)
  | 0, s => some ([], s)
  | n + 1, s =>
    match octet? s with
    | some (o, s) =>
      if o.toNat / 64 = 2 then (moreOctets? n s).map fun p => (o :: p.1, p.2) else none
    | none => none

/-- One character of a tag whose octets are written with percent signs. -/
def octets? (s : List Char) : Option (List Char × List Char) := do
  let (first, s) ← octet? s
  let n ← octetsAfter? first
  let (more, s) ← moreOctets? n s
  return (first :: more, s)

theorem length_of_octet? {s rest : List Char} {o : Char} (h : octet? s = some (o, rest)) :
    rest.length < s.length := by
  unfold octet? at h
  split at h
  next =>
    split at h
    next =>
      simp only [Option.some.injEq, Prod.mk.injEq] at h
      rw [← h.2]
      simp only [List.length_cons]
      omega
    next => simp at h
  next => simp at h

theorem length_of_moreOctets? {n : Nat} {s more rest : List Char}
    (h : moreOctets? n s = some (more, rest)) : rest.length ≤ s.length := by
  induction n generalizing s more with
  | zero =>
    simp only [moreOctets?, Option.some.injEq, Prod.mk.injEq] at h
    exact Nat.le_of_eq (congrArg List.length h.2.symm)
  | succ n ih =>
    unfold moreOctets? at h
    split at h
    next ho =>
      split at h
      next =>
        obtain ⟨⟨_, _⟩, hp, heq⟩ := Option.map_eq_some_iff.1 h
        simp only [Prod.mk.injEq] at heq
        obtain ⟨-, rfl⟩ := heq
        exact Nat.le_trans (ih hp) (Nat.le_of_lt (length_of_octet? ho))
      next => simp at h
    next => simp at h

theorem length_of_octets? {s octets rest : List Char} (h : octets? s = some (octets, rest)) :
    rest.length < s.length := by
  simp only [octets?, bind, Option.bind_eq_some_iff, pure, Option.some.injEq, Prod.mk.injEq] at h
  obtain ⟨p, hp, n, -, q, hq, -, rfl⟩ := h
  exact Nat.lt_of_le_of_lt (length_of_moreOctets? hq) (length_of_octet? hp)

/-- The octets of the longest run of characters of a tag, and what follows it. -/
def tagOctets? (verbatim : Bool) : List Char → Option (List Char × List Char)
  | [] => some ([], [])
  | c :: rest =>
    if c = '%' then
      match _h : octets? (c :: rest) with
      | some (octets, after) =>
        (tagOctets? verbatim after).map fun p => (octets ++ p.1, p.2)
      | none => none
    else if isTagChar verbatim c then
      (tagOctets? verbatim rest).map fun p => (c :: p.1, p.2)
    else some ([], c :: rest)
  termination_by s => s.length
  decreasing_by
  · exact length_of_octets? _h
  · exact Nat.lt_succ_self _

/-- A part of a tag. A zero octet ends it. -/
def tagPart? (verbatim : Bool) (c : Cursor) : Option (List Char × Cursor) :=
  (tagOctets? verbatim c.rest).map fun p =>
    (p.1.takeWhile (· ≠ '\x00'), c.skip (c.rest.length - p.2.length))

/-- As `tagPart?`, with at least one character. -/
def someTagPart? (verbatim : Bool) (c : Cursor) : Option (List Char × Cursor) := do
  let (octets, after) ← tagPart? verbatim c
  if after.index = c.index then none else some (octets, after)

/-- A handle with an exclamation mark at both ends, which may be one and the same where
`single` allows it. -/
def handle? (single : Bool) (c : Cursor) : Option (List Char × Cursor) :=
  match c.rest with
  | '!' :: rest =>
    let name := rest.takeWhile isWord
    if (rest.drop name.length).head? = some '!' then
      some ('!' :: (name ++ ['!']), c.skip (name.length + 2))
    else if single && name.isEmpty then some (['!'], c.skip 1)
    else none
  | _ => none

/-- The handle and the suffix of a tag. An exclamation mark alone has no handle. -/
def tagName? (c : Cursor) : Option (Lexeme × Cursor) :=
  if (c.rest.drop 1).head? = some '<' then do
    let (suffix, c) ← someTagPart? true (c.skip 2)
    if c.rest.head? = some '>' then some (.tag [] suffix, c.skip 1) else none
  else
    match handle? false c with
    | some (handle, c) => (someTagPart? false c).map fun p => (.tag handle p.1, p.2)
    | none =>
      (tagPart? false (c.skip 1)).map fun p =>
        (if p.1.isEmpty then .tag [] ['!'] else .tag ['!'] p.1, p.2)

/-- A tag, which a blank must follow, or within brackets a comma. -/
def tag? (inFlow : Bool) (c : Cursor) : Option (Lexeme × Cursor) := do
  let (token, c) ← tagName? c
  if atBlankOrEnd c.rest || (inFlow && c.rest.head? = some ',') then some (token, c) else none

/-! ### Directives -/

def versionDirective? (c : Cursor) : Option (Lexeme × Cursor) := do
  let (major, c) ← versionNumber? (c.skipWhile isBlank)
  if c.rest.head? = some '.' then
    let (minor, c) ← versionNumber? (c.skip 1)
    return (.version major minor, c)
  else none

def tagDirective? (c : Cursor) : Option (Lexeme × Cursor) := do
  let (handle, c) ← handle? true (c.skipWhile isBlank)
  if c.rest.head?.any isBlank then
    let (start, c) ← someTagPart? true (c.skipWhile isBlank)
    if atBlankOrEnd c.rest then some (.tagHandle handle start, c) else none
  else none

/-- A directive after its percent sign, with the rest of its line. -/
def directive? (c : Cursor) : Option (Lexeme × Cursor) := do
  let (name, c) ← word? c
  if atBlankOrEnd c.rest then
    let (token, c) ←
      if name = "YAML".toList then versionDirective? c
      else if name = "TAG".toList then tagDirective? c
      else none
    let c := (c.skipWhile isBlank).skipComment
    if atBreakOrEnd c.rest then some (token, c.skipBreak) else none
  else none

/-! ### Scalars -/

/-- A scalar between quotes, of which the first is at the position. -/
def quotedScalar? (single : Bool) (c : Cursor) : Option (Lexeme × Cursor) :=
  (quoted? single (c.skip 1)).map fun p =>
    (.scalar (if single then .singleQuoted else .doubleQuoted) p.1, p.2)

/-- A block after its indicator. -/
def blockScalar? (literal : Bool) (parent : Int) (c : Cursor) : Option (Lexeme × Cursor) :=
  (block? literal parent (c.skip 1)).map fun p =>
    (.scalar (if literal then .literal else .folded) p.1, p.2)

/-- Whether a plain scalar may start with a text's first character. -/
def startsPlain (inFlow : Bool) : List Char → Bool
  | [] => false
  | c :: rest =>
    if c = '-' then !rest.head?.any isBlank
    else if c = '?' || c = ':' then !inFlow && !atBlankOrEnd rest
    else !isBlank c && !isBreak c && !",[]\x7b\x7d#&*!|>'\"%@`".toList.contains c

end HostGauge.Yaml
