import HostGauge.Yaml.Cursor

/-!
Reading scalars: plain ones, quoted ones, and blocks. Line ends within plain and quoted scalars
are folded: one line feed becomes a space, and of several the first is dropped.
-/
namespace HostGauge.Yaml

inductive ScalarStyle where
  | plain
  | singleQuoted
  | doubleQuoted
  | literal
  | folded
  deriving DecidableEq, Repr

/-! ### Folding -/

/-- Blanks and line ends between two parts of a scalar. -/
structure Gap where
  /-- The blanks before the first line end, the last one first. -/
  blanks : List Char := []
  broken : Bool := false
  /-- The first line end, unless it was escaped. -/
  first : Option Char := none
  /-- The line ends after it, the last one first. -/
  more : List Char := []
  deriving DecidableEq, Repr

/-- What a gap contributes to the scalar. -/
def Gap.fold (g : Gap) : List Char :=
  if g.broken then
    match g.first with
    | some '\n' => if g.more.isEmpty then [' '] else g.more.reverse
    | some b => b :: g.more.reverse
    | none => g.more.reverse
  else g.blanks.reverse

def Gap.addBreak (g : Gap) (b : Char) : Gap :=
  if g.broken then { g with more := b :: g.more }
  else { g with blanks := [], broken := true, first := some b }

def Gap.addBlank (g : Gap) (b : Char) : Gap :=
  if g.broken then g else { g with blanks := b :: g.blanks }

/-- Reads a gap, of which something may have been read. A tab in the indentation, left of column
`indent`, is refused. -/
def gap? (indent : Nat) (g : Gap) (c : Cursor) : Option (Gap × Cursor) :=
  match _h : c.rest with
  | [] => some (g, c)
  | b :: _ =>
    if isBlank b then
      if g.broken && b = '\t' && c.column < indent then none
      else gap? indent (g.addBlank b) (c.skip 1)
    else
      match _h : c.skipBreak? with
      | some (b, next) => gap? indent (g.addBreak b) next
      | none => some (g, c)
  termination_by c.rest.length
  decreasing_by
  · rw [Cursor.length_skip, _h]
    exact Nat.sub_lt (Nat.succ_pos _) Nat.one_pos
  · exact Cursor.length_of_skipBreak? _h

theorem length_gap?_le {indent : Nat} {g g' : Gap} {c next : Cursor}
    (h : gap? indent g c = some (g', next)) : next.rest.length ≤ c.rest.length := by
  fun_induction gap? indent g c with
  | case1 => simp_all
  | case2 => simp at h
  | case3 g c b rest hc hb hi ih =>
    have := ih h
    rw [Cursor.length_skip] at this
    omega
  | case4 g c a rest hc ha b after hs ih =>
    exact Nat.le_trans (ih h) (Nat.le_of_lt (Cursor.length_of_skipBreak? hs))
  | case5 => simp_all

/-- A blank or a line end stands at the position. -/
def atGap (c : Cursor) : Bool := c.rest.head?.any fun b => isBlank b || isBreak b

theorem length_gap?_lt {indent : Nat} {g g' : Gap} {c next : Cursor} (hc : atGap c)
    (h : gap? indent g c = some (g', next)) : next.rest.length < c.rest.length := by
  rw [gap?] at h
  split at h
  next heq => simp [atGap, heq] at hc
  next b rest heq =>
    split at h
    next =>
      split at h
      next => simp at h
      next =>
        have := length_gap?_le h
        rw [Cursor.length_skip, heq, List.length_cons] at this
        rw [heq, List.length_cons]
        omega
    next hb =>
      split at h
      next hs => exact Nat.lt_of_le_of_lt (length_gap?_le h) (Cursor.length_of_skipBreak? hs)
      next hs =>
        have hbreak : c.rest.head?.any isBreak := by
          simpa [atGap, heq, hb] using hc
        simpa [hs] using Cursor.isSome_skipBreak? hbreak

/-! ### Plain scalars -/

/-- The part of a plain scalar up to the next blank, or up to an indicator that ends the scalar.
Within brackets a colon must not stand right before one of them. -/
def plainRun? (inFlow : Bool) : List Char → Option (List Char)
  | [] => some []
  | c :: rest =>
    if isBlank c || isBreak c then some []
    else if inFlow && c = ':' && rest.head?.any (fun d => isFlowIndicator d || d = '?') then none
    else if (c = ':' && atBlankOrEnd rest) || (inFlow && isFlowIndicator c) then some []
    else (plainRun? inFlow rest).map (c :: ·)

/-- A scalar that was read, where it ends, and whether a line end follows its last character
before that place. -/
structure PlainScalar where
  text : List Char
  cursor : Cursor
  broken : Bool

/-- Reads what follows the gap `pending` of a plain scalar whose lines are indented at least to
`indent`; the text is that of the gap and what follows it. -/
def plain? (inFlow : Bool) (indent : Nat) (pending : Gap) (c : Cursor) : Option PlainScalar :=
  if c.atDocumentMark || c.rest.head? = some '#' then some ⟨[], c, pending.broken⟩
  else
    match plainRun? inFlow c.rest with
    | none => none
    | some run =>
      let part := if run.isEmpty then [] else pending.fold ++ run
      let pending := if run.isEmpty then pending else {}
      let after := c.skip run.length
      if _hgap : atGap after then
        match _h : gap? indent pending after with
        | none => none
        | some (pending, next) =>
          if !inFlow && next.column < indent then some ⟨part, next, pending.broken⟩
          else
            (plain? inFlow indent pending next).map fun p => { p with text := part ++ p.text }
      else some ⟨part, after, pending.broken⟩
  termination_by c.rest.length
  decreasing_by
    have := length_gap?_lt _hgap _h
    rw [Cursor.length_skip] at this
    omega

/-! ### Quoted scalars -/

/-- The character of an escape with one letter. -/
def unescape? : Char → Option Char
  | '0' => some '\x00'
  | 'a' => some '\x07'
  | 'b' => some '\x08'
  | 't' => some '\t'
  | '\t' => some '\t'
  | 'n' => some '\n'
  | 'v' => some '\x0b'
  | 'f' => some '\x0c'
  | 'r' => some '\r'
  | 'e' => some '\x1b'
  | ' ' => some ' '
  | '"' => some '"'
  | '/' => some '/'
  | '\\' => some '\\'
  | 'N' => some '\u0085'
  | '_' => some '\u00a0'
  | 'L' => some '\u2028'
  | 'P' => some '\u2029'
  | _ => none

/-- How many hexadecimal digits follow the letter of an escape. -/
def codeLength? : Char → Option Nat
  | 'x' => some 2
  | 'u' => some 4
  | 'U' => some 8
  | _ => none

/-- The character of an escape after its backslash, and the number of characters it takes. -/
def escape? : List Char → Option (Char × Nat)
  | [] => none
  | letter :: rest =>
    match codeLength? letter with
    | none => (unescape? letter).map fun c => (c, 1)
    | some n =>
      let digits := rest.take n
      if digits.length < n || !digits.all isHex then none
      else
        let code := digits.foldl (fun v d => 16 * v + hexValue d) 0
        if code.isValidChar then some (Char.ofNat code, n + 1) else none

/-- What the next characters of a quoted scalar are. -/
inductive QuotedPart where
  /-- A blank, a line end or the closing quote. -/
  | stop
  /-- A character, and how many characters it takes beside the first one. -/
  | char (c : Char) (more : Nat)
  /-- A line end after a backslash. -/
  | escapedBreak
  | invalid
  deriving DecidableEq, Repr

def quoteMark (single : Bool) : Char := if single then '\'' else '"'

/-- The part that starts with a character. -/
def quotedPart (single : Bool) (a : Char) (rest : List Char) : QuotedPart :=
  if isBlank a || isBreak a then .stop
  else if single then
    if a = '\'' then if rest.head? = some '\'' then .char a 1 else .stop else .char a 0
  else if a = '"' then .stop
  else if a = '\\' then
    if rest.head?.any isBreak then .escapedBreak
    else
      match escape? rest with
      | some (d, n) => .char d n
      | none => .invalid
  else .char a 0

/-- The part of a quoted scalar up to the next blank, line end or closing quote, and whether it
ended in an escaped line end. -/
def quotedRun? (single : Bool) (c : Cursor) : Option (List Char × Cursor × Bool) :=
  match _h : c.rest with
  | [] => some ([], c, false)
  | a :: rest =>
    match quotedPart single a rest with
    | .stop => some ([], c, false)
    | .char d more =>
      (quotedRun? single (c.skip (more + 1))).map fun p => (d :: p.1, p.2)
    | .escapedBreak => some ([], (c.skip 1).skipBreak, true)
    | .invalid => none
  termination_by c.rest.length
  decreasing_by
    rw [Cursor.length_skip, _h, List.length_cons]
    omega

theorem quotedPart_eq_stop {single : Bool} {a : Char} {rest : List Char}
    (h : quotedPart single a rest = .stop) :
    (isBlank a || isBreak a) = true ∨ a = quoteMark single := by
  unfold quotedPart at h
  unfold quoteMark
  cases single <;> grind

/-- A run moves on, unless it is empty before a blank, a line end, the closing quote or the end
of the text. -/
theorem length_quotedRun? {single : Bool} {c next : Cursor} {run : List Char} {escaped : Bool}
    (h : quotedRun? single c = some (run, next, escaped)) :
    next.rest.length < c.rest.length ∨
      next = c ∧ (c.rest = [] ∨ atGap c ∨ c.rest.head? = some (quoteMark single)) := by
  fun_induction quotedRun? single c generalizing run next with
  | case1 c hc =>
    simp only [Option.some.injEq, Prod.mk.injEq] at h
    exact .inr ⟨h.2.1.symm, .inl hc⟩
  | case2 c a rest hc hstop =>
    simp only [Option.some.injEq, Prod.mk.injEq] at h
    refine .inr ⟨h.2.1.symm, .inr ?_⟩
    rcases quotedPart_eq_stop hstop with hgap | rfl
    · exact .inl (by simp [atGap, hc] at hgap ⊢; exact hgap)
    · exact .inr (by rw [hc]; rfl)
  | case3 c a rest hc d more hpart ih =>
    obtain ⟨⟨_, _, _⟩, hp, heq⟩ := Option.map_eq_some_iff.1 h
    simp only [Prod.mk.injEq] at heq
    obtain ⟨-, rfl, rfl⟩ := heq
    have hskip := Cursor.length_skip c (more + 1)
    rw [hc, List.length_cons] at hskip
    left
    rw [hc, List.length_cons]
    rcases ih hp with hlt | ⟨rfl, -⟩ <;> omega
  | case4 c a rest hc hpart =>
    simp only [Option.some.injEq, Prod.mk.injEq] at h
    have := Cursor.length_skipBreak_le (c.skip 1)
    rw [Cursor.length_skip, hc, List.length_cons] at this
    rw [← h.2.1, hc, List.length_cons]
    omega
  | case5 => simp at h

/-- The rest of a quoted scalar after its opening quote, and where it ends. -/
def quoted? (single : Bool) (c : Cursor) : Option (List Char × Cursor) :=
  if _hrest : c.atDocumentMark || c.rest.isEmpty then none
  else
    match _hrun : quotedRun? single c with
    | none => none
    | some (run, after, escaped) =>
      if _hmark : after.rest.head? = some (quoteMark single) then some (run, after.skip 1)
      else
        match _hgap : gap? 0 { broken := escaped } after with
        | none => none
        | some (gap, next) =>
          (quoted? single next).map fun p => (run ++ gap.fold ++ p.1, p.2)
  termination_by c.rest.length
  decreasing_by
    rcases length_quotedRun? _hrun with hlt | ⟨rfl, hempty | hgap | hmark⟩
    · exact Nat.lt_of_le_of_lt (length_gap?_le _hgap) hlt
    · simp [hempty] at _hrest
    · exact length_gap?_lt hgap _hgap
    · exact absurd hmark _hmark

/-! ### Blocks -/

/-- What becomes of the line ends at the end of a block. -/
inductive Chomping where
  | strip
  | clip
  | keep
  deriving DecidableEq, Repr

structure BlockHeader where
  chomping : Chomping := .clip
  /-- The indentation relative to the surrounding, if it is given. -/
  indentation : Option Nat := none
  deriving DecidableEq, Repr

def chomping? : Char → Option Chomping
  | '+' => some .keep
  | '-' => some .strip
  | _ => none

/-- The indicators after the first one of a block, in either order, and how many there are. -/
def blockHeader? (s : List Char) : Option (BlockHeader × Nat) :=
  let digit? (c : Char) : Bool := c.isDigit
  let value (c : Char) : Nat := c.toNat - '0'.toNat
  match s with
  | [] => some ({}, 0)
  | a :: rest =>
    match chomping? a with
    | some ch =>
      match rest with
      | d :: _ =>
        if digit? d then if d = '0' then none else some (⟨ch, some (value d)⟩, 2)
        else some (⟨ch, none⟩, 1)
      | [] => some (⟨ch, none⟩, 1)
    | none =>
      if digit? a then
        if a = '0' then none
        else
          match rest.head?.bind chomping? with
          | some ch => some (⟨ch, some (value a)⟩, 2)
          | none => some (⟨.clip, some (value a)⟩, 1)
      else some ({}, 0)

/-- Blank lines and indentation before a line of a block. -/
structure BlockBreaks where
  breaks : List Char
  /-- The largest column of a blank line or of the line that follows. -/
  widest : Nat
  cursor : Cursor

/-- Reads blank lines and the indentation of the next line, which is as deep as it is where
`indent` is not known. A tab in the indentation is refused. -/
def blockBreaks? (indent : Option Nat) (c : Cursor) : Option BlockBreaks :=
  let spaces := (c.rest.takeWhile (· = ' ')).length
  let n :=
    match indent with
    | some i => min spaces (i - c.column)
    | none => spaces
  let start := c.skip n
  if indent.all (start.column < ·) && start.rest.head? = some '\t' then none
  else
    match _h : start.skipBreak? with
    | some (b, next) =>
      (blockBreaks? indent next).map fun r =>
        { r with breaks := b :: r.breaks, widest := max start.column r.widest }
    | none => some ⟨[], start.column, start⟩
  termination_by c.rest.length
  decreasing_by
    have := Cursor.length_of_skipBreak? _h
    rw [Cursor.length_skip] at this
    omega

theorem length_blockBreaks? {indent : Option Nat} {c : Cursor} {r : BlockBreaks}
    (h : blockBreaks? indent c = some r) : r.cursor.rest.length ≤ c.rest.length := by
  fun_induction blockBreaks? indent c generalizing r with
  | case1 => simp at h
  | case2 c spaces n start hstart b next hbreak =>
    rename_i ih
    obtain ⟨p, hp, rfl⟩ := Option.map_eq_some_iff.1 h
    have := Cursor.length_of_skipBreak? hbreak
    rw [Cursor.length_skip] at this
    have := ih hp
    simp only
    omega
  | case3 c spaces n start hstart =>
    simp only [Option.some.injEq] at h
    rw [← h, Cursor.length_skip]
    exact Nat.sub_le ..

/-- What decides how the next line of a block joins the one before it. -/
structure BlockState where
  /-- The line end after the last line. -/
  lastBreak : List Char := []
  /-- The blank lines after that. -/
  blankLines : List Char := []
  /-- The last line started with a blank. -/
  indented : Bool := false

/-- How a line joins the text before it: in a folded block a single line feed between lines that
are not indented further becomes a space. -/
def BlockState.join (b : BlockState) (literal startsBlank : Bool) : List Char :=
  if !literal && b.lastBreak.head? = some '\n' && !b.indented && !startsBlank then
    (if b.blankLines.isEmpty then [' '] else []) ++ b.blankLines
  else b.lastBreak ++ b.blankLines

/-- Moves over the line end after a line, if there is one, and gives what it stands for. -/
def lineEnd (c : Cursor) : List Char × Cursor :=
  match c.skipBreak? with
  | some (b, next) => ([b], next)
  | none => ([], c)

theorem length_lineEnd_le (c : Cursor) : (lineEnd c).2.rest.length ≤ c.rest.length := by
  unfold lineEnd
  split
  next h => exact Nat.le_of_lt (Cursor.length_of_skipBreak? h)
  next => exact Nat.le_refl _

theorem length_lineEnd_lt {c : Cursor} (h : c.rest.head?.any isBreak) :
    (lineEnd c).2.rest.length < c.rest.length := by
  unfold lineEnd
  split
  next hb => exact Cursor.length_of_skipBreak? hb
  next hb => simpa [hb] using Cursor.isSome_skipBreak? h

/-- A line and the line end after it are not both empty. -/
theorem length_line_lt {c : Cursor} (h : c.rest ≠ []) :
    (lineEnd (c.skip (c.rest.takeWhile (!isBreak ·)).length)).2.rest.length < c.rest.length := by
  have hskip := Cursor.length_skip c (c.rest.takeWhile (!isBreak ·)).length
  have hle := length_lineEnd_le (c.skip (c.rest.takeWhile (!isBreak ·)).length)
  have hpos := List.length_pos_iff.2 h
  rcases Nat.eq_zero_or_pos (c.rest.takeWhile (!isBreak ·)).length with hzero | hline
  · obtain ⟨a, rest, hc⟩ := List.exists_cons_of_ne_nil h
    have hbreak : isBreak a := by
      rw [hc, List.takeWhile_cons] at hzero
      by_cases ha : isBreak a <;> simp_all
    rw [hzero]
    refine Nat.lt_of_lt_of_le (length_lineEnd_lt ?_) ?_
    · simp [Cursor.skip, hc, hbreak]
    · rw [Cursor.length_skip]
      exact Nat.sub_le ..
  · omega

/-- Reads the lines of a block that start at column `indent`, and gives their text, the state
after the last line, and where the block ends. -/
def blockLines? (literal : Bool) (indent : Nat) (b : BlockState) (c : Cursor) :
    Option (List Char × BlockState × Cursor) :=
  if _hrest : c.column ≠ indent || c.rest.isEmpty then some ([], b, c)
  else
    let startsBlank := c.rest.head?.any isBlank
    let line := c.rest.takeWhile (!isBreak ·)
    let part := b.join literal startsBlank ++ line
    let ended := lineEnd (c.skip line.length)
    match _h : blockBreaks? (some indent) ended.2 with
    | none => none
    | some next =>
      (blockLines? literal indent ⟨ended.1, next.breaks, startsBlank⟩ next.cursor).map fun p =>
        (part ++ p.1, p.2)
  termination_by c.rest.length
  decreasing_by
    have hne : c.rest ≠ [] := by
      intro hempty
      simp [hempty] at _hrest
    exact Nat.lt_of_le_of_lt (length_blockBreaks? _h) (length_line_lt hne)

/-- A block after its first indicator, within a surrounding indented to `parent`. -/
def block? (literal : Bool) (parent : Int) (c : Cursor) : Option (List Char × Cursor) := do
  let (header, n) ← blockHeader? c.rest
  let c := ((c.skip n).skipWhile isBlank).skipComment
  if !atBreakOrEnd c.rest then none
  else
    let c := c.skipBreak
    let given := header.indentation.map fun i => (max parent 0).toNat + i
    let first ← blockBreaks? given c
    let indent := given.getD (max (max first.widest (parent + 1).toNat) 1)
    let (text, b, c) ← blockLines? literal indent { blankLines := first.breaks } first.cursor
    let tail :=
      match header.chomping with
      | .strip => []
      | .clip => b.lastBreak
      | .keep => b.lastBreak ++ b.blankLines
    return (text ++ tail, c)

end HostGauge.Yaml
