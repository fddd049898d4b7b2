import HostGauge.Proofs.Yaml.Gap

/-!
Scalars between quotes, read back. The texts that may stand between the quotes are described as
parts with gaps between them; a gap has spaces or line ends, not both, and after line ends the
next part, or the closing quote, is indented. The reader takes each of these texts to the
characters it was written for.
-/
namespace HostGauge.Yaml

variable {single : Bool} {c : Cursor} {g : Gap} {a b d : Char} {s t w rest : List Char}

/-! ### One step of the reader -/

/-- The rest of a quoted scalar, of which a gap may have been read in part. -/
def quotedAfter? (single : Bool) (g : Gap) (c : Cursor) : Option (List Char × Cursor) :=
  match gap? 0 g c with
  | none => none
  | some (gap, next) => (quoted? single next).map fun p => (gap.fold ++ p.1, p.2)

theorem quotedAfter?_of_solid (h : Solid c.rest) :
    quotedAfter? single g c = (quoted? single c).map fun p => (g.fold ++ p.1, p.2) := by
  rw [quotedAfter?, gap?_of_solid h]

theorem quotedAfter?_space (h : c.rest = ' ' :: t) :
    quotedAfter? single g c = quotedAfter? single (g.addBlank ' ') (c.skip 1) := by
  rw [quotedAfter?, gap?_space h]
  rfl

theorem quotedAfter?_break (hb : IsKept b) (h : c.rest = b :: t) :
    quotedAfter? single g c =
      quotedAfter? single (g.addBreak b) ⟨t, c.index + b.utf8Size, c.line + 1, 0⟩ := by
  rw [quotedAfter?, gap?_break hb h]
  rfl

theorem quotedRun?_of_stop (h : c.rest = a :: t) (hstop : quotedPart single a t = .stop) :
    quotedRun? single c = some ([], c, false) := by
  rw [quotedRun?]
  split
  case h_1 => rfl
  case h_2 a' t' heq =>
    rw [h] at heq
    cases heq
    rw [hstop]

theorem quotedRun?_of_char {more : ℕ} (h : c.rest = a :: t)
    (hpart : quotedPart single a t = .char d more) :
    quotedRun? single c =
      (quotedRun? single (c.skip (more + 1))).map fun p => (d :: p.1, p.2) := by
  conv_lhs => rw [quotedRun?]
  split
  case h_1 heq => rw [h] at heq; cases heq
  case h_2 a' t' heq =>
    rw [h] at heq
    cases heq
    rw [hpart]

theorem not_atDocumentMark (h : 0 < c.column) : c.atDocumentMark = false := by
  simp [Cursor.atDocumentMark, Cursor.atMark, Nat.pos_iff_ne_zero.mp h]

/-- What is read at a position where the scalar goes on. -/
theorem quoted?_eq (hcolumn : 0 < c.column) (hne : c.rest ≠ []) :
    quoted? single c = (quotedRun? single c).bind fun p =>
      if p.2.1.rest.head? = some (quoteMark single) then some (p.1, p.2.1.skip 1)
      else (quotedAfter? single { broken := p.2.2 } p.2.1).map fun q => (p.1 ++ q.1, q.2) := by
  rw [quoted?, dif_neg (by simp [not_atDocumentMark hcolumn, hne])]
  split
  case h_1 hnone => rw [hnone]; rfl
  case h_2 run after escaped hsome =>
    rw [hsome, Option.bind_some]
    by_cases hmark : after.rest.head? = some (quoteMark single)
    · rw [dif_pos hmark, if_pos hmark]
    · rw [dif_neg hmark, if_neg hmark, quotedAfter?]
      split
      case h_1 hgap => rw [hgap]; rfl
      case h_2 gap next hgap =>
        rw [hgap]
        simp [Option.map_map, Function.comp_def]

/-- The closing quote ends the scalar. -/
theorem quoted?_close (hcolumn : 0 < c.column) (h : c.rest = quoteMark single :: rest)
    (hrest : rest.head? ≠ some (quoteMark single)) :
    quoted? single c = some ([], c.skip 1) := by
  have hstop : quotedPart single (quoteMark single) rest = .stop := by
    cases single with
    | true =>
        have hquote : ¬ rest.head? = some '\'' := hrest
        simp [quotedPart, quoteMark, hquote, isBlank, isBreak]
    | false => rfl
  rw [quoted?_eq hcolumn (by simp [h]), quotedRun?_of_stop h hstop, Option.bind_some,
    if_pos (by rw [h]; rfl)]

/-- A blank or a line end starts a gap. -/
theorem quoted?_gap (hcolumn : 0 < c.column) (h : c.rest = b :: t)
    (hb : (isBlank b || isBreak b) = true) : quoted? single c = quotedAfter? single {} c := by
  have hstop : quotedPart single b t = .stop := if_pos hb
  have hquote : ¬ c.rest.head? = some (quoteMark single) := by
    rw [h]
    intro heq
    cases Option.some.inj heq
    cases single <;> cases hb
  rw [quoted?_eq hcolumn (by simp [h]), quotedRun?_of_stop h hstop, Option.bind_some,
    if_neg hquote]
  simp

/-- A character that is no part of a gap stands for itself, or is written with more of them. -/
theorem quoted?_char {more : ℕ} (hcolumn : 0 < c.column) (h : c.rest = a :: t)
    (hpart : quotedPart single a t = .char d more) :
    quoted? single c = (quoted? single (c.skip (more + 1))).map fun p => (d :: p.1, p.2) := by
  have hnext : 0 < (c.skip (more + 1)).column := Nat.lt_of_lt_of_le hcolumn (Nat.le_add_right ..)
  rw [quoted?_eq hcolumn (by simp [h]), quotedRun?_of_char h hpart]
  by_cases hend : (c.skip (more + 1)).rest = []
  · have hrun : quotedRun? single (c.skip (more + 1)) = some ([], c.skip (more + 1), false) := by
      rw [quotedRun?]
      split
      case h_1 => rfl
      case h_2 heq => rw [hend] at heq; cases heq
    have hnone : quoted? single (c.skip (more + 1)) = none := by
      rw [quoted?, dif_pos (by simp [hend])]
    have hquote : ¬ (c.skip (more + 1)).rest.head? = some (quoteMark single) := by
      simp [hend]
    rw [hrun, hnone, Option.map_some, Option.bind_some, if_neg hquote,
      quotedAfter?_of_solid (by rw [hend]; rfl), hnone]
    rfl
  · rw [quoted?_eq hnext hend]
    cases quotedRun? single (c.skip (more + 1)) with
    | none => rfl
    | some p =>
        simp only [Option.map_some, Option.bind_some]
        split
        · rfl
        · rw [Option.map_map]
          rfl

/-! ### The texts between quotes -/

/-- What was written last. -/
inductive Last where
  | part
  | space
  | lineEnd

/-- A text that stands for one character, wherever it is written. -/
def Writes (single : Bool) (w : List Char) (d : Char) : Prop :=
  ∃ a more, w = a :: more ∧ isBlank a = false ∧ isBreak a = false ∧
    ∀ rest, quotedPart single a (more ++ rest) = .char d more.length

/-- The texts of characters between quotes. -/
inductive QuotedText (single : Bool) : Last → List Char → List Char → Prop
  | done {last : Last} (h : last ≠ .lineEnd) : QuotedText single last [] []
  | doneIndented : QuotedText single .lineEnd [] indentation
  | part {last : Last} {d : Char} {w s t : List Char} (h : last ≠ .lineEnd) (hw : Writes single w d)
      (hrest : QuotedText single .part s t) : QuotedText single last (d :: s) (w ++ t)
  | partIndented {d : Char} {w s t : List Char} (hw : Writes single w d)
      (hrest : QuotedText single .part s t) :
      QuotedText single .lineEnd (d :: s) (indentation ++ (w ++ t))
  | space {last : Last} {s t : List Char} (h : last ≠ .lineEnd)
      (hrest : QuotedText single .space s t) : QuotedText single last (' ' :: s) (' ' :: t)
  | lineEnd {last : Last} {b : Char} {s t : List Char} (h : last ≠ .space)
      (hb : b = '\u2028' ∨ b = '\u2029') (hrest : QuotedText single .lineEnd s t) :
      QuotedText single last (b :: s) (b :: t)

/-- A gap of line ends of which the first is kept. -/
structure Gap.IsBroken (g : Gap) : Prop where
  broken : g.broken = true
  first : g.first = some '\u2028' ∨ g.first = some '\u2029'

theorem Gap.IsBroken.addBlank (h : g.IsBroken) (b : Char) : g.addBlank b = g :=
  if_pos h.broken

theorem Gap.IsBroken.addBreak (h : g.IsBroken) (b : Char) : (g.addBreak b).IsBroken := by
  rw [Gap.addBreak, if_pos h.broken]
  exact ⟨h.broken, h.first⟩

theorem Gap.IsBroken.fold_addBreak (h : g.IsBroken) (b : Char) :
    (g.addBreak b).fold = g.fold ++ [b] := by
  rw [Gap.addBreak, if_pos h.broken, Gap.fold, Gap.fold, if_pos h.broken]
  dsimp only
  rw [if_pos h.broken]
  rcases h.first with hfirst | hfirst <;> simp [hfirst]

/-- What is read of a text after what was written last. -/
def Reads (single : Bool) (s rest : List Char) (c : Cursor) : Last → Prop
  | .part => 0 < c.column → ∃ next, quoted? single c = some (s, next) ∧ next.rest = rest
  | .space => 0 < c.column → ∀ n, ∃ next,
      quotedAfter? single (spaces n) c = some (List.replicate n ' ' ++ s, next) ∧ next.rest = rest
  | .lineEnd => ∀ g : Gap, g.IsBroken → ∃ next,
      quotedAfter? single g c = some (g.fold ++ s, next) ∧ next.rest = rest

/-- The position after the indentation of a line. -/
theorem quotedAfter?_indentation (h : c.rest = indentation ++ t) (hsolid : Solid t)
    (hg : g.IsBroken) : ∃ next : Cursor, next.rest = t ∧ 0 < next.column ∧
      quotedAfter? single g c = (quoted? single next).map fun p => (g.fold ++ p.1, p.2) := by
  have hone : (c.skip 1).rest = ' ' :: t := Cursor.rest_skip_one h
  have htwo : ((c.skip 1).skip 1).rest = t := Cursor.rest_skip_one hone
  refine ⟨(c.skip 1).skip 1, htwo, Nat.succ_pos _, ?_⟩
  rw [quotedAfter?_space h, hg.addBlank, quotedAfter?_space hone, hg.addBlank,
    quotedAfter?_of_solid (by rwa [htwo])]

/-- A text that starts with a part, or with nothing, is read after spaces as it is without
them. -/
theorem Reads.of_solid {last : Last} (hlast : last ≠ .lineEnd) (hsolid : Solid c.rest)
    (h : Reads single s rest c .part) : Reads single s rest c last := by
  cases last with
  | part => exact h
  | lineEnd => exact absurd rfl hlast
  | space =>
      intro hcolumn n
      obtain ⟨next, hread, hnext⟩ := h hcolumn
      refine ⟨next, ?_, hnext⟩
      rw [quotedAfter?_of_solid hsolid, hread, Option.map_some, fold_spaces]

theorem Writes.solid (h : Writes single w d) (t : List Char) : Solid (w ++ t) := by
  obtain ⟨a, more, rfl, hblank, hbreak, -⟩ := h
  simp [Solid, hblank, hbreak]

/-- A part is read as its character. -/
theorem Reads.part (hw : Writes single w d) (hc : c.rest = w ++ t)
    (h : Reads single s rest (c.skip w.length) .part) : Reads single (d :: s) rest c .part := by
  intro hcolumn
  obtain ⟨a, more, rfl, -, -, hpart⟩ := hw
  obtain ⟨next, hread, hnext⟩ := h (Nat.lt_of_lt_of_le hcolumn (Nat.le_add_right ..))
  refine ⟨next, ?_, hnext⟩
  rw [quoted?_char hcolumn hc (hpart t), ← List.length_cons, hread, Option.map_some]

theorem reads_close (hc : c.rest = quoteMark single :: rest)
    (hrest : rest.head? ≠ some (quoteMark single)) : Reads single [] rest c .part := fun hcolumn =>
  ⟨c.skip 1, quoted?_close hcolumn hc hrest, Cursor.rest_skip_one hc⟩

theorem solid_quoteMark (single : Bool) (rest : List Char) : Solid (quoteMark single :: rest) := by
  cases single <;> rfl

/-- On a line after another one the indentation is passed over. -/
theorem Reads.indented (hc : c.rest = indentation ++ t) (hsolid : Solid t)
    (h : ∀ next : Cursor, next.rest = t → Reads single s rest next .part) :
    Reads single s rest c .lineEnd := by
  intro g hg
  obtain ⟨start, hstart, hcolumn, heq⟩ := quotedAfter?_indentation hc hsolid hg
  obtain ⟨next, hread, hnext⟩ := h start hstart hcolumn
  exact ⟨next, by rw [heq, hread, Option.map_some], hnext⟩

theorem Reads.space {last : Last} (hlast : last ≠ .lineEnd) (hc : c.rest = ' ' :: t)
    (h : Reads single s rest (c.skip 1) .space) : Reads single (' ' :: s) rest c last := by
  have hspace := h (Nat.succ_pos _)
  cases last with
  | part =>
      intro hcolumn
      obtain ⟨next, hread, hnext⟩ := hspace 1
      refine ⟨next, ?_, hnext⟩
      rw [quoted?_gap hcolumn hc rfl]
      exact (quotedAfter?_space hc).trans hread
  | space =>
      intro hcolumn n
      obtain ⟨next, hread, hnext⟩ := hspace (n + 1)
      refine ⟨next, ?_, hnext⟩
      rw [quotedAfter?_space hc, addBlank_spaces, hread, List.replicate_succ', List.append_assoc]
      rfl
  | lineEnd => exact absurd rfl hlast

theorem Reads.lineEnd {last : Last} (hlast : last ≠ .space) (hb : b = '\u2028' ∨ b = '\u2029')
    (hc : c.rest = b :: t)
    (h : Reads single s rest ⟨t, c.index + b.utf8Size, c.line + 1, 0⟩ .lineEnd) :
    Reads single (b :: s) rest c last := by
  have hkept : IsKept b := .inr hb
  cases last with
  | part =>
      intro hcolumn
      have hg : (({} : Gap).addBreak b).IsBroken := ⟨rfl, hb.imp (congrArg some) (congrArg some)⟩
      obtain ⟨next, hread, hnext⟩ := h _ hg
      refine ⟨next, ?_, hnext⟩
      rw [quoted?_gap hcolumn hc (by simp [hkept.isBreak]), quotedAfter?_break hkept hc, hread]
      rcases hb with rfl | rfl <;> rfl
  | space => exact absurd rfl hlast
  | lineEnd =>
      intro g hg
      obtain ⟨next, hread, hnext⟩ := h _ (hg.addBreak b)
      refine ⟨next, ?_, hnext⟩
      rw [quotedAfter?_break hkept hc, hread, hg.fold_addBreak, List.append_assoc]
      rfl

/-- The reader takes a text between quotes to the characters it was written for. -/
theorem QuotedText.reads {last : Last} (h : QuotedText single last s t)
    (hc : c.rest = t ++ quoteMark single :: rest)
    (hrest : rest.head? ≠ some (quoteMark single)) : Reads single s rest c last := by
  induction h generalizing c with
  | done hlast => exact (reads_close hc hrest).of_solid hlast (by rw [hc]; exact solid_quoteMark ..)
  | doneIndented =>
      exact .indented hc (solid_quoteMark single rest) fun _ hnext => reads_close hnext hrest
  | part hlast hw _ ih =>
      rw [List.append_assoc] at hc
      have hpart := Reads.part hw hc (ih (Cursor.rest_skip hc))
      exact hpart.of_solid hlast (by rw [hc]; exact hw.solid _)
  | partIndented hw _ ih =>
      rw [List.append_assoc, List.append_assoc] at hc
      exact .indented hc (hw.solid _) fun _ hnext => .part hw hnext (ih (Cursor.rest_skip hnext))
  | space hlast _ ih => exact .space hlast hc (ih (Cursor.rest_skip_one hc))
  | lineEnd hlast hb _ ih => exact .lineEnd hlast hb hc (ih rfl)

end HostGauge.Yaml
