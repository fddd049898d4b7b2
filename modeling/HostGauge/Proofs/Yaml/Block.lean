import HostGauge.Proofs.Text.Run
import HostGauge.Proofs.Yaml.Gap

/-!
Literal blocks, read back. A block is a list of lines, indented where they are not empty; what is
read of it is its lines with their ends, and the indicators of the block say which of the last
line ends belong to the scalar.
-/
namespace HostGauge.Yaml

variable {c : Cursor} {b : Char} {s t l rest : List Char} {p : BlockState} {indent : Option ℕ}

/-! ### Lines of a block -/

/-- How far the indentation of a line reaches. -/
def indentWidthAt (indent : Option ℕ) (c : Cursor) : ℕ :=
  match indent with
  | some i => min (c.rest.takeWhile (· = ' ')).length (i - c.column)
  | none => (c.rest.takeWhile (· = ' ')).length

/-- What stands after the indentation of a line decides whether it is empty. -/
theorem blockBreaks?_eq (htab : (c.skip (indentWidthAt indent c)).rest.head? ≠ some '\t') :
    blockBreaks? indent c =
      match (c.skip (indentWidthAt indent c)).skipBreak? with
      | some (b, next) => (blockBreaks? indent next).map fun r =>
        { r with
          breaks := b :: r.breaks
          widest := max (c.skip (indentWidthAt indent c)).column r.widest }
      | none => some ⟨[], (c.skip (indentWidthAt indent c)).column,
          c.skip (indentWidthAt indent c)⟩ := by
  have hno : ¬ (indent.all ((c.skip (indentWidthAt indent c)).column < ·) &&
      decide ((c.skip (indentWidthAt indent c)).rest.head? = some '\t')) = true := by
    simp [htab]
  rw [blockBreaks?.eq_def]
  refine (if_neg hno).trans ?_
  split
  case h_1 hsome =>
    change (c.skip (indentWidthAt indent c)).skipBreak? = _ at hsome
    rw [hsome]
    rfl
  case h_2 hnone =>
    change (c.skip (indentWidthAt indent c)).skipBreak? = _ at hnone
    rw [hnone]
    rfl

theorem indentWidthAt_of_ne (h : c.rest.head? ≠ some ' ') : indentWidthAt indent c = 0 := by
  have hspaces : (c.rest.takeWhile (· = ' ')).length = 0 := by
    cases hrest : c.rest with
    | nil => rfl
    | cons b t =>
        have hb : b ≠ ' ' := by simpa [hrest] using h
        simp [hb]
  cases indent <;> simp [indentWidthAt, hspaces]

/-- An empty line. -/
theorem blockBreaks?_break (hb : IsKept b) (h : c.rest = b :: t) :
    blockBreaks? indent c = (blockBreaks? indent ⟨t, c.index + b.utf8Size, c.line + 1, 0⟩).map
      fun r => { r with breaks := b :: r.breaks, widest := max c.column r.widest } := by
  have hne : c.rest.head? ≠ some ' ' ∧ c.rest.head? ≠ some '\t' := by
    rw [h]
    rcases hb with rfl | rfl | rfl <;> simp
  have hstart : c.skip (indentWidthAt indent c) = c := by
    rw [indentWidthAt_of_ne hne.1, Cursor.skip_zero]
  rw [blockBreaks?_eq (by rw [hstart]; exact hne.2), hstart, Cursor.skipBreak?_of_isKept hb h]

/-- The end of a block, before a line that is not indented. -/
theorem blockBreaks?_end (hsolid : Solid c.rest) :
    blockBreaks? indent c = some ⟨[], c.column, c⟩ := by
  have hstart : c.skip (indentWidthAt indent c) = c := by
    rw [indentWidthAt_of_ne (hsolid.head?_ne rfl), Cursor.skip_zero]
  rw [blockBreaks?_eq (by rw [hstart]; exact hsolid.head?_ne rfl), hstart,
    Cursor.skipBreak?_of_solid hsolid]

/-- A line with its indentation, which is deeper only where the indentation is known. -/
theorem blockBreaks?_line {d : Char} (hcolumn : c.column = 0) (h : c.rest = indentation ++ d :: t)
    (hbreak : isBreak d = false) (htab : d ≠ '\t')
    (hindent : indent = some 2 ∨ indent = none ∧ d ≠ ' ') :
    blockBreaks? indent c = some ⟨[], 2, c.skip 2⟩ ∧ (c.skip 2).rest = d :: t ∧
      (c.skip 2).column = 2 := by
  have hwidth : indentWidthAt indent c = 2 := by
    rcases hindent with rfl | ⟨rfl, hd⟩
    · simp [indentWidthAt, h, hcolumn, indentation]
    · simp [indentWidthAt, h, indentation, hd]
  have hrest : (c.skip 2).rest = d :: t := Cursor.rest_skip (s := indentation) h
  have hskip : (c.skip 2).column = 2 := by
    change c.column + 2 = 2
    omega
  refine ⟨?_, hrest, hskip⟩
  rw [blockBreaks?_eq (by rw [hwidth, hrest]; simpa using htab), hwidth,
    Cursor.skipBreak?_of_not_isBreak (by simp [hrest, hbreak]), hskip]

/-- The lines of a block from the start of a line on. -/
def linesFrom? (p : BlockState) (c : Cursor) : Option (List Char × BlockState × Cursor) :=
  (blockBreaks? (some 2) c).bind fun next =>
    blockLines? true 2 { p with blankLines := p.blankLines ++ next.breaks } next.cursor

theorem linesFrom?_break (hb : IsKept b) (h : c.rest = b :: t) :
    linesFrom? p c = linesFrom? { p with blankLines := p.blankLines ++ [b] }
      ⟨t, c.index + b.utf8Size, c.line + 1, 0⟩ := by
  rw [linesFrom?, blockBreaks?_break hb h, linesFrom?]
  cases blockBreaks? (some 2) ⟨t, c.index + b.utf8Size, c.line + 1, 0⟩ with
  | none => rfl
  | some next => simp

theorem linesFrom?_end (hcolumn : c.column = 0) (hsolid : Solid c.rest) :
    linesFrom? p c = some ([], p, c) := by
  rw [linesFrom?, blockBreaks?_end hsolid, Option.bind_some, blockLines?,
    dif_pos (by simp [hcolumn]), List.append_nil]

/-- One line of a literal block, and its line end. -/
theorem blockLines?_line (hcolumn : c.column = 2) (h : c.rest = l ++ b :: t)
    (hchars : ∀ d ∈ l, isBreak d = false) (hb : IsKept b) :
    ∃ indented next, next.rest = t ∧ next.column = 0 ∧
      blockLines? true 2 p c = (linesFrom? ⟨[b], [], indented⟩ next).map fun q =>
        (p.lastBreak ++ p.blankLines ++ l ++ q.1, q.2) := by
  have hrun : ∀ d ∈ l, (!isBreak d) = true := fun d hd => by simp [hchars d hd]
  have hstop : (b :: t).head?.all (!!isBreak ·) := by simp [hb.isBreak]
  have hline : c.rest.takeWhile (!isBreak ·) = l := by rw [h, Text.takeWhile_run hrun hstop]
  obtain ⟨next, hbreak, hnext, hzero⟩ : ∃ next : Cursor,
      (c.skip l.length).skipBreak? = some (b, next) ∧ next.rest = t ∧ next.column = 0 :=
    ⟨_, Cursor.skipBreak?_of_isKept hb (Cursor.rest_skip h), rfl, rfl⟩
  have hend : lineEnd (c.skip l.length) = ([b], next) := by rw [lineEnd, hbreak]
  refine ⟨c.rest.head?.any isBlank, next, hnext, hzero, ?_⟩
  rw [blockLines?, dif_neg (by simp [hcolumn, h])]
  simp only [hline, hend]
  split
  case h_1 hnone =>
    rw [hline, hend] at hnone
    rw [linesFrom?, show blockBreaks? (some 2) next = none from hnone]
    rfl
  case h_2 r hsome =>
    rw [hline, hend] at hsome
    rw [linesFrom?, show blockBreaks? (some 2) next = some r from hsome, Option.bind_some]
    rfl

theorem linesFrom?_line (hcolumn : c.column = 0) (h : c.rest = indentation ++ (l ++ b :: t))
    (hl : l ≠ []) (hchars : ∀ d ∈ l, isBreak d = false ∧ d ≠ '\t') (hb : IsKept b) :
    ∃ indented next, next.rest = t ∧ next.column = 0 ∧
      linesFrom? p c = (linesFrom? ⟨[b], [], indented⟩ next).map fun q =>
        (p.lastBreak ++ p.blankLines ++ l ++ q.1, q.2) := by
  obtain ⟨d, l, rfl⟩ := List.exists_cons_of_ne_nil hl
  obtain ⟨hbreak, htab⟩ := hchars d List.mem_cons_self
  obtain ⟨hstart, hrest, htwo⟩ :=
    blockBreaks?_line hcolumn h hbreak htab (.inl rfl)
  obtain ⟨indented, next, hnext, hzero, hlines⟩ :=
    blockLines?_line (p := p) htwo hrest (fun d hd => (hchars d hd).1) hb
  refine ⟨indented, next, hnext, hzero, ?_⟩
  rw [linesFrom?, hstart, Option.bind_some, List.append_nil]
  exact hlines

/-! ### The text of a block -/

/-- The texts of characters as the lines of a literal block. -/
inductive LiteralText : List Char → List Char → Prop
  | nil : LiteralText [] []
  | blank {b : Char} {s t : List Char} (hb : IsKept b) (h : LiteralText s t) :
      LiteralText (b :: s) (b :: t)
  | line {l s t : List Char} {b : Char} (hl : l ≠ [])
      (hchars : ∀ d ∈ l, isBreak d = false ∧ d ≠ '\t') (hb : IsKept b) (h : LiteralText s t) :
      LiteralText (l ++ b :: s) (indentation ++ (l ++ b :: t))

/-- Characters that were read in lines: all but the last line ends, the first of these, and those
after it. Where there are only line ends, there is no first one. -/
structure BlockState.Holds (p : BlockState) (text s : List Char) (before : BlockState) :
    Prop where
  content : text ++ (p.lastBreak ++ p.blankLines) =
    before.lastBreak ++ before.blankLines ++ s
  blankLines : p.blankLines.all isBreak
  ended : (text = [] ∧ p.lastBreak = before.lastBreak) ∨
    ∃ x b, text.getLast? = some x ∧ isBreak x = false ∧ p.lastBreak = [b] ∧ isBreak b = true

/-- The reader takes the lines of a block to the characters they were written for. -/
theorem LiteralText.reads (h : LiteralText s t) (hc : c.rest = t ++ rest) (hcolumn : c.column = 0)
    (hsolid : Solid rest) (hblank : p.blankLines.all isBreak) :
    ∃ text final next, linesFrom? p c = some (text, final, next) ∧ next.rest = rest ∧
      next.column = 0 ∧ final.Holds text s p := by
  induction h generalizing c p with
  | nil =>
      refine ⟨[], p, c, linesFrom?_end hcolumn (by rwa [hc]), hc, hcolumn, ?_⟩
      exact ⟨by simp, hblank, .inl ⟨rfl, rfl⟩⟩
  | @blank b s t hb _ ih =>
      obtain ⟨text, final, next, hread, hnext, hzero, hholds⟩ :=
        ih (c := ⟨t ++ rest, c.index + b.utf8Size, c.line + 1, 0⟩)
          (p := { p with blankLines := p.blankLines ++ [b] }) rfl rfl
          (by simp [List.all_append, hblank, hb.isBreak])
      refine ⟨text, final, next, (linesFrom?_break hb hc).trans hread, hnext, hzero, ?_⟩
      refine ⟨hholds.content.trans (by simp), hholds.blankLines, hholds.ended⟩
  | @line l s t b hl hchars hb _ ih =>
      obtain ⟨indented, after, hafter, hzero, hline⟩ :=
        linesFrom?_line (p := p) (t := t ++ rest) hcolumn (by rw [hc]; simp) hl hchars hb
      obtain ⟨text, final, next, hread, hnext, hnextColumn, hholds⟩ :=
        ih (p := ⟨[b], [], indented⟩) hafter hzero rfl
      refine ⟨p.lastBreak ++ p.blankLines ++ l ++ text, final, next,
        by rw [hline, hread, Option.map_some], hnext, hnextColumn, ?_, hholds.blankLines, ?_⟩
      · rw [List.append_assoc, hholds.content]
        simp
      · refine .inr ?_
        rcases hholds.ended with ⟨rfl, hlast⟩ | ⟨x, b', hx, hbreak, hlast, hb'⟩
        · have hx := List.getLast?_eq_some_getLast hl
          refine ⟨l.getLast hl, b, ?_, (hchars _ (List.getLast_mem hl)).1, hlast, hb.isBreak⟩
          rw [List.append_nil, List.getLast?_append, hx]
          rfl
        · refine ⟨x, b', ?_, hbreak, hlast, hb'⟩
          rw [List.getLast?_append, hx]
          rfl

/-! ### Blocks as they are written -/

/-- The line end that is written after the last line where it has none. -/
def lineEnding : Bool → List Char → List Char
  | broken, [] => if broken then [] else ['\n']
  | _, c :: rest => lineEnding (isBreak c) rest

theorem lineEnding_eq (broken : Bool) (s : List Char) : lineEnding broken s =
    if s.getLast?.elim broken isBreak then [] else ['\n'] := by
  induction s generalizing broken with
  | nil => rfl
  | cons c s ih =>
      rw [lineEnding, ih]
      cases s with
      | nil => rfl
      | cons d s => rw [List.getLast?_cons_cons, List.getLast?_cons]; rfl

theorem literalText_literalLines (hs : ∀ d ∈ s, isPrintable d = true) :
    LiteralText (s ++ lineEnding true s) (literalLines true s) ∧
      ∀ l : List Char, l ≠ [] → (∀ d ∈ l, isBreak d = false ∧ d ≠ '\t') →
        LiteralText (l ++ (s ++ lineEnding false s))
          (indentation ++ (l ++ literalLines false s)) := by
  induction s with
  | nil => exact ⟨.nil, fun l hl hchars => .line hl hchars (.inl rfl) .nil⟩
  | cons c s ih =>
      obtain ⟨hlines, hline⟩ := ih fun d hd => hs d (List.mem_cons_of_mem _ hd)
      have hprint := hs c List.mem_cons_self
      cases hbreak : isBreak c with
      | true =>
          have hkept := isKept_of_isPrintable hprint hbreak
          have htext : ∀ broken, literalLines broken (c :: s) = c :: literalLines true s :=
            fun broken => by rw [literalLines, if_pos hbreak]
          rw [htext, htext, lineEnding, lineEnding, hbreak]
          exact ⟨.blank hkept hlines, fun l hl hchars => .line hl hchars hkept hlines⟩
      | false =>
          have htab : c ≠ '\t' := by
            rintro rfl
            cases hprint
          have hstart :
              literalLines true (c :: s) = indentation ++ ([c] ++ literalLines false s) := by
            rw [literalLines, if_neg (by simp [hbreak])]
            rfl
          have hmore : literalLines false (c :: s) = c :: literalLines false s := by
            rw [literalLines, if_neg (by simp [hbreak])]
            rfl
          rw [hstart, hmore, lineEnding, lineEnding, hbreak]
          refine ⟨hline [c] (by simp) (by simp [hbreak, htab]), fun l hl hchars => ?_⟩
          have hnext := hline (l ++ [c]) (by simp) fun d hd => by
            rcases List.mem_append.mp hd with hd | hd
            · exact hchars d hd
            · rw [List.mem_singleton.mp hd]
              exact ⟨hbreak, htab⟩
          rwa [List.append_assoc, List.append_assoc] at hnext

/-- What belongs to the scalar of the line ends at its end. -/
def BlockState.tail (p : BlockState) : Chomping → List Char
  | .strip => []
  | .clip => p.lastBreak
  | .keep => p.lastBreak ++ p.blankLines

/-- A block after its indicators: its lines, of which the first shows the indentation unless it
is given. -/
theorem block?_of_header {chomping : Chomping} {width : Option ℕ} {n : ℕ}
    (hheader : blockHeader? c.rest = some (⟨chomping, width⟩, n))
    (hafter : (c.skip n).rest = '\n' :: t)
    (hwidth : width = some 2 ∨ width = none ∧ ∃ d u, t = indentation ++ d :: u ∧
      isBreak d = false ∧ d ≠ '\t' ∧ d ≠ ' ') :
    ∃ start : Cursor, start.rest = t ∧ start.column = 0 ∧
      block? true 0 c =
        (linesFrom? {} start).map fun q => (q.1 ++ q.2.1.tail chomping, q.2.2) := by
  have hblank : (c.skip n).skipWhile isBlank = c.skip n := by
    rw [Cursor.skipWhile, hafter]
    exact Cursor.skip_zero _
  have hcomment : (c.skip n).skipComment = c.skip n := by
    rw [Cursor.skipComment, hafter]
    rfl
  obtain ⟨start, hbreak, hstart, hzero⟩ : ∃ start : Cursor,
      (c.skip n).skipBreak? = some ('\n', start) ∧ start.rest = t ∧ start.column = 0 :=
    ⟨_, Cursor.skipBreak?_of_isKept (.inl rfl) hafter, rfl, rfl⟩
  have hskip : (c.skip n).skipBreak = start := by rw [Cursor.skipBreak, hbreak]
  refine ⟨start, hstart, hzero, ?_⟩
  rw [block?, hheader]
  simp only [Option.bind_eq_bind, Option.bind_some, hblank, hcomment, hafter, hskip]
  have hline : ¬ (!atBreakOrEnd ('\n' :: t)) = true := Bool.false_ne_true
  rw [if_neg hline, linesFrom?]
  rcases hwidth with rfl | ⟨rfl, d, u, rfl, hd⟩
  · change ((blockBreaks? (some 2) start).bind fun first =>
      (blockLines? true 2 { blankLines := first.breaks } first.cursor).bind _) = _
    cases blockBreaks? (some 2) start with
    | none => rfl
    | some first =>
        rw [Option.bind_some, Option.bind_some, List.nil_append]
        cases blockLines? true 2 { blankLines := first.breaks } first.cursor with
        | none => rfl
        | some q => cases chomping <;> rfl
  · have hgiven := (blockBreaks?_line hzero hstart hd.1 hd.2.1 (.inl rfl)).1
    have hfound := (blockBreaks?_line hzero hstart hd.1 hd.2.1 (.inr ⟨rfl, hd.2.2⟩)).1
    rw [hgiven, Option.bind_some, Option.map_none, hfound, Option.bind_some]
    change (blockLines? true 2 {} (start.skip 2)).bind _ =
      (blockLines? true 2 {} (start.skip 2)).map _
    cases blockLines? true 2 {} (start.skip 2) with
    | none => rfl
    | some q => cases chomping <;> rfl

/-- The indentation that the indicators of a written block give. -/
def givenWidth (s : List Char) : Option ℕ :=
  if s.head?.any fun c => c = ' ' || isBreak c then some 2 else none

/-- The chomping that the indicators of a written block give. -/
def givenChomping (s : List Char) : Chomping :=
  match s.reverse with
  | [] => .strip
  | last :: before =>
    if !isBreak last then .strip else if before.head?.all isBreak then .keep else .clip

/-- The indicator of a way of chomping. -/
def Chomping.indicator : Chomping → List Char
  | .strip => ['-']
  | .clip => []
  | .keep => ['+']

theorem literalIndicators_eq (s : List Char) : literalIndicators s =
    '|' :: ((if (givenWidth s).isSome then [indentWidth] else []) ++
      (givenChomping s).indicator) := by
  unfold literalIndicators givenWidth givenChomping
  cases s.reverse with
  | nil => split <;> rfl
  | cons last before =>
      dsimp only
      cases isBreak last <;> cases before.head?.all isBreak <;> split <;> rfl

theorem blockHeader?_literalIndicators (s t : List Char) :
    blockHeader? ((literalIndicators s).drop 1 ++ '\n' :: t) =
      some (⟨givenChomping s, givenWidth s⟩, ((literalIndicators s).drop 1).length) := by
  rw [literalIndicators_eq]
  have hwidth : givenWidth s = some 2 ∨ givenWidth s = none := by
    unfold givenWidth
    split
    · exact .inl rfl
    · exact .inr rfl
  rcases hwidth with h | h <;> rw [h] <;> cases givenChomping s <;> rfl

/-- A text has one split into what ends in no line end and the line ends after it. -/
theorem append_breaks_inj {t l u e : List Char} (h : t ++ l = u ++ e)
    (hl : ∀ d ∈ l, isBreak d = true) (he : ∀ d ∈ e, isBreak d = true)
    (ht : t.getLast?.all (!isBreak ·)) (hu : u.getLast?.all (!isBreak ·)) : t = u ∧ l = e := by
  have hrun : ∀ {t l : List Char}, (∀ d ∈ l, isBreak d = true) → t.getLast?.all (!isBreak ·) →
      (t ++ l).reverse.takeWhile isBreak = l.reverse := by
    intro t l hl ht
    rw [List.reverse_append]
    refine Text.takeWhile_run (fun d hd => hl d (List.mem_reverse.mp hd)) ?_
    rwa [List.head?_reverse]
  have hends : l = e := List.reverse_injective (by rw [← hrun hl ht, h, hrun he hu])
  subst hends
  exact ⟨List.append_cancel_right h, rfl⟩

/-- The line ends that belong to the scalar are those that it was written with. -/
theorem BlockState.Holds.append_tail {p : BlockState} {text : List Char} (hs : s ≠ [])
    (h : p.Holds text (s ++ lineEnding true s) {}) : text ++ p.tail (givenChomping s) = s := by
  have hcontent : text ++ (p.lastBreak ++ p.blankLines) = s ++ lineEnding true s := h.content
  have htext : text.getLast?.all (!isBreak ·) := by
    rcases h.ended with ⟨rfl, -⟩ | ⟨x, _, hx, hbreak, -⟩
    · rfl
    · simp [hx, hbreak]
  have hbreaks : ∀ d ∈ p.lastBreak ++ p.blankLines, isBreak d = true := by
    intro d hd
    rcases List.mem_append.mp hd with hd | hd
    · rcases h.ended with ⟨-, hlast⟩ | ⟨_, b, -, -, hlast, hb⟩
      · rw [hlast] at hd
        cases hd
      · rw [hlast, List.mem_singleton] at hd
        rwa [hd]
    · exact List.all_eq_true.mp h.blankLines d hd
  obtain ⟨front, last, rfl⟩ := s.eq_nil_or_concat.resolve_left hs
  rw [lineEnding_eq, List.concat_eq_append, List.getLast?_concat] at hcontent
  rw [List.concat_eq_append, givenChomping, List.reverse_concat]
  dsimp only
  cases hlast : isBreak last with
  | false =>
      have hending : ∀ d ∈ ['\n'], isBreak d = true := by simp [isBreak]
      simp only [Option.elim_some, hlast] at hcontent
      obtain ⟨rfl, -⟩ := append_breaks_inj hcontent hbreaks hending htext (by simp [hlast])
      exact List.append_nil _
  | true =>
      simp only [Option.elim_some, hlast, if_true, List.append_nil] at hcontent
      cases hfront : front.reverse.head?.all isBreak with
      | true => exact hcontent
      | false =>
          have hstem : front.getLast?.all (!isBreak ·) := by
            rw [List.head?_reverse] at hfront
            cases hy : front.getLast? with
            | none => rfl
            | some y => simpa [hy] using hfront
          obtain ⟨rfl, hends⟩ :=
            append_breaks_inj hcontent hbreaks (by simp [hlast]) htext hstem
          -- a line was read, so that the one line end is the one after it
          obtain ⟨rfl, -⟩ | ⟨_, b, -, -, hone, -⟩ := h.ended
          · cases hfront
          · rw [hone, List.singleton_append, List.cons_eq_cons] at hends
            change text ++ p.lastBreak = text ++ [last]
            rw [hone, hends.1]

/-- A text is read from the block it was written as. -/
theorem block?_literal (hs : ∀ d ∈ s, isPrintable d = true) (hne : s ≠ [])
    (hc : c.rest = (literalIndicators s).drop 1 ++ '\n' :: (literalLines true s ++ rest))
    (hsolid : Solid rest) :
    ∃ next, block? true 0 c = some (s, next) ∧ next.rest = rest ∧ next.column = 0 := by
  have hheader := blockHeader?_literalIndicators s (literalLines true s ++ rest)
  rw [← hc] at hheader
  have hwidth : givenWidth s = some 2 ∨ givenWidth s = none ∧ ∃ d u,
      literalLines true s ++ rest = indentation ++ d :: u ∧ isBreak d = false ∧ d ≠ '\t' ∧
        d ≠ ' ' := by
    obtain ⟨d, u, rfl⟩ := List.exists_cons_of_ne_nil hne
    cases hd : decide (d = ' ') || isBreak d with
    | true => exact .inl (by simp [givenWidth, hd])
    | false =>
        obtain ⟨hspace, hbreak⟩ := Bool.or_eq_false_iff.mp hd
        refine .inr ⟨by simp [givenWidth, hd], d, literalLines false u ++ rest, ?_, hbreak, ?_,
          of_decide_eq_false hspace⟩
        · rw [literalLines, if_neg (by simp [hbreak]), if_pos rfl, List.append_assoc]
          rfl
        · rintro rfl
          exact absurd (hs _ List.mem_cons_self) Bool.false_ne_true
  obtain ⟨start, hstart, hzero, hblock⟩ :=
    block?_of_header hheader (Cursor.rest_skip hc) hwidth
  obtain ⟨text, final, next, hread, hnext, hnextColumn, hholds⟩ :=
    (literalText_literalLines hs).1.reads (p := {}) hstart hzero hsolid rfl
  refine ⟨next, ?_, hnext, hnextColumn⟩
  rw [hblock, hread, Option.map_some, hholds.append_tail hne]

end HostGauge.Yaml
