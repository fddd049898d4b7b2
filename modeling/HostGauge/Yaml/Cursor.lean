/-!
Characters of YAML texts, and a position in a text with its line and column.
-/
namespace HostGauge.Yaml

/-- The characters that may stand in a text. -/
def isAllowed (c : Char) : Bool :=
  let n := c.toNat
  n = 0x9 || n = 0xA || n = 0xD || (0x20 ≤ n && n ≤ 0x7E) || n = 0x85 || (0xA0 ≤ n && n ≤ 0xD7FF)
    || (0xE000 ≤ n && n ≤ 0xFFFD) || 0x10000 ≤ n

def isBlank (c : Char) : Bool := c = ' ' || c = '\t'

/-- The characters that end a line. -/
def isBreak (c : Char) : Bool :=
  c = '\n' || c = '\r' || c = '\u0085' || c = '\u2028' || c = '\u2029'

/-- The characters of names of anchors, directives and tag handles. -/
def isWord (c : Char) : Bool := c.isAlphanum || c = '_' || c = '-'

def isFlowIndicator (c : Char) : Bool :=
  c = ',' || c = '[' || c = ']' || c = '\x7b' || c = '\x7d'

def isHex (c : Char) : Bool :=
  c.isDigit || ('a' ≤ c && c ≤ 'f') || ('A' ≤ c && c ≤ 'F')

def hexValue (c : Char) : Nat :=
  if c.isDigit then c.toNat - '0'.toNat
  else if 'a' ≤ c && c ≤ 'f' then c.toNat - 'a'.toNat + 10
  else c.toNat - 'A'.toNat + 10

/-- A text that is empty or starts with a line end. -/
def atBreakOrEnd (s : List Char) : Bool := s.head?.all isBreak

/-- A text that is empty or starts with a blank or a line end. -/
def atBlankOrEnd (s : List Char) : Bool := s.head?.all fun c => isBlank c || isBreak c

/-- The length of a text in UTF-8. -/
def byteLength (s : List Char) : Nat := s.foldl (fun n c => n + c.utf8Size) 0

/-- A position: what follows it, how many bytes and lines precede it, and its column in
characters. -/
structure Cursor where
  rest : List Char
  /-- In bytes. -/
  index : Nat := 0
  line : Nat := 0
  column : Nat := 0
  deriving DecidableEq, Repr

namespace Cursor

/-- Moves over characters of one line. -/
def skip (c : Cursor) (n : Nat) : Cursor :=
  { c with
    rest := c.rest.drop n
    index := c.index + byteLength (c.rest.take n)
    column := c.column + n }

def skipWhile (c : Cursor) (p : Char → Bool) : Cursor := c.skip (c.rest.takeWhile p).length

/-- Moves over a line end, and gives the character it stands for: a line feed, or one of the
two separators of lines and paragraphs as it is. -/
def skipBreak? (c : Cursor) : Option (Char × Cursor) :=
  match c.rest with
  | '\r' :: '\n' :: rest => some ('\n', ⟨rest, c.index + 2, c.line + 1, 0⟩)
  | b :: rest =>
    if isBreak b then
      let kept := if b = '\u2028' || b = '\u2029' then b else '\n'
      some (kept, ⟨rest, c.index + b.utf8Size, c.line + 1, 0⟩)
    else none
  | [] => none

theorem length_skip (c : Cursor) (n : Nat) : (c.skip n).rest.length = c.rest.length - n :=
  List.length_drop ..

theorem length_skipWhile_le (c : Cursor) (p : Char → Bool) :
    (c.skipWhile p).rest.length ≤ c.rest.length := by
  rw [skipWhile, length_skip]
  exact Nat.sub_le ..

theorem length_of_skipBreak? {c next : Cursor} {b : Char} (h : c.skipBreak? = some (b, next)) :
    next.rest.length < c.rest.length := by
  unfold skipBreak? at h
  split at h
  next rest heq =>
    simp only [Option.some.injEq, Prod.mk.injEq] at h
    rw [heq, ← h.2]
    exact Nat.lt_add_of_pos_right Nat.two_pos
  next heq =>
    split at h
    next =>
      simp only [Option.some.injEq, Prod.mk.injEq] at h
      rw [heq, ← h.2]
      exact Nat.lt_succ_self _
    next => simp at h
  next => simp at h

theorem isSome_skipBreak? {c : Cursor} (h : c.rest.head?.any isBreak) : c.skipBreak?.isSome := by
  unfold skipBreak?
  split
  next => rfl
  next heq =>
    rw [heq] at h
    simp only [List.head?_cons, Option.any_some] at h
    simp [h]
  next heq => simp [heq] at h

/-- Moves over a line end if there is one. -/
def skipBreak (c : Cursor) : Cursor :=
  match c.skipBreak? with
  | some (_, c) => c
  | none => c

theorem length_skipBreak_le (c : Cursor) : c.skipBreak.rest.length ≤ c.rest.length := by
  unfold skipBreak
  split
  next h => exact Nat.le_of_lt (length_of_skipBreak? h)
  next => exact Nat.le_refl _

/-- A mark of three equal characters alone at the start of a line. -/
def atMark (c : Cursor) (mark : Char) : Bool :=
  c.column = 0 && [mark, mark, mark].isPrefixOf c.rest && atBlankOrEnd (c.rest.drop 3)

/-- The start or the end of a document is marked here. -/
def atDocumentMark (c : Cursor) : Bool := c.atMark '-' || c.atMark '.'

/-- Moves over a comment up to the end of its line, if there is one. -/
def skipComment (c : Cursor) : Cursor :=
  match c.rest with
  | '#' :: _ => c.skipWhile (!isBreak ·)
  | _ => c

theorem length_skipComment_le (c : Cursor) : c.skipComment.rest.length ≤ c.rest.length := by
  unfold skipComment
  split
  next => exact length_skipWhile_le ..
  next => exact Nat.le_refl _

end Cursor

end HostGauge.Yaml
