import HostGauge.Proofs.Yaml.Plain
import HostGauge.Yaml.Node
import Mathlib.Data.Int.Notation

/-!
The lines of a mapping, read back. A line is a name, a colon and a value; the layout keeps the
place of the name until the colon shows that it is a key, and goes on at the start of the line
after the value.
-/
namespace HostGauge.Yaml

variable {c next : Cursor} {a b : Char} {s t v w name rest : List Char} {k inFlow started : Bool}
  {ts : List Lexeme} {l m : Layout} {steps : ℕ} {style : ScalarStyle}

namespace Layout

/-! ### Between tokens -/

/-- Spaces at the position, and what follows them on the line. -/
theorem skipLine_spaces (h : c.rest = s ++ t) (hs : ∀ d ∈ s, d = ' ')
    (ht : t.head?.all fun d => !isBlank d && d ≠ '#') (hmark : skipMark c = c) :
    skipLine inFlow k c = c.skip s.length := by
  have hrun : c.rest.takeWhile (fun d => d = ' ' || ((inFlow || !k) && d = '\t')) = s := by
    rw [h]
    refine Text.takeWhile_run (fun d hd => by simp [hs d hd]) ?_
    cases t with
    | nil => rfl
    | cons d t =>
        obtain ⟨hspace, htab⟩ : d ≠ ' ' ∧ d ≠ '\t' := by
          simpa [isBlank] using (Bool.and_eq_true_iff.mp ht).1
        simp [hspace, htab]
  have hcomment : (c.skip s.length).skipComment = c.skip s.length := by
    have hhash : t.head? ≠ some '#' := by
      intro hhead
      rw [hhead] at ht
      cases ht
    rw [Cursor.skipComment, Cursor.rest_skip h]
    split
    case h_1 => exact absurd rfl hhash
    case h_2 => rfl
  change ((skipMark c).skipWhile fun d => d = ' ' || ((inFlow || !k) && d = '\t')).skipComment = _
  rw [hmark, Cursor.skipWhile, hrun, hcomment]

theorem skipMark_of_ne (h : c.rest.head? ≠ some '\uFEFF' ∨ 0 < c.column) : skipMark c = c := by
  refine if_neg fun hmark => ?_
  simp only [Bool.and_eq_true, decide_eq_true_eq] at hmark
  rcases h with h | h
  · exact h hmark.2
  · omega

theorem skipLines_stop (hline : skipLine inFlow k c = next) (hstop : next.skipBreak? = none) :
    skipLines inFlow k c = (k, next) := by
  subst hline
  rw [skipLines]
  split
  case h_1 hsome => rw [hstop] at hsome; cases hsome
  case h_2 => rfl

theorem skipLines_break {after : Cursor} (hline : skipLine inFlow k c = next)
    (hbreak : next.skipBreak? = some (b, after)) :
    skipLines inFlow k c = skipLines inFlow (k || !inFlow) after := by
  subst hline
  conv_lhs => rw [skipLines]
  split
  case h_1 hsome => rw [hbreak] at hsome; cases hsome; rfl
  case h_2 hnone => rw [hbreak] at hnone; cases hnone

theorem skipBlanks_of_skipLines (h : skipLines l.inFlow l.keyAllowed l.cursor = (k, next)) :
    l.skipBlanks = { l with keyAllowed := k, cursor := next } := by
  rw [skipBlanks, h]

/-- The end of the text, or a line that starts with a letter. -/
def AtKey (s : List Char) : Prop := s.head?.all Char.isAlpha

theorem AtKey.solid (h : AtKey s) : Solid s := by
  cases s with
  | nil => rfl
  | cons a s =>
      have ha : a.isAlpha = true := h
      exact solid_of_isWord (by simp [isWord, Char.isAlphanum, ha]) s

theorem AtKey.head?_ne (h : AtKey s) (hb : b.isAlpha = false) : s.head? ≠ some b := by
  intro hhead
  rw [AtKey, hhead] at h
  exact ne_of_isAlpha h hb rfl

/-- After blanks and line ends comes a line, where a key may start. -/
def EndsLine (k : Bool) (c : Cursor) (rest : List Char) : Prop :=
  ∃ next, skipLines false k c = (true, next) ∧ next.rest = rest ∧ next.column = 0

theorem endsLine_start (h : AtKey c.rest) (hcolumn : c.column = 0) : EndsLine true c c.rest := by
  refine ⟨c, skipLines_stop ?_ (Cursor.skipBreak?_of_solid h.solid), rfl, hcolumn⟩
  have hsolid := h.solid
  have hhash := h.head?_ne (by decide : '#'.isAlpha = false)
  rw [skipLine_spaces (s := []) (t := c.rest) rfl (by simp) ?_
    (skipMark_of_ne (.inl (h.head?_ne (by decide)))), List.length_nil, Cursor.skip_zero]
  · cases hrest : c.rest with
    | nil => rfl
    | cons a t =>
        rw [hrest] at hsolid hhash
        have ha : a ≠ '#' := fun ha => hhash (congrArg some ha)
        simp [not_isBlank_of_solid hsolid, ha]

theorem endsLine_break (h : c.rest = '\n' :: rest) (hrest : AtKey rest) : EndsLine k c rest := by
  have hline : skipLine false k c = c := by
    rw [skipLine_spaces (s := []) (t := c.rest) rfl (by simp) (by rw [h]; rfl)
      (skipMark_of_ne (.inl (by rw [h]; simp))), List.length_nil, Cursor.skip_zero]
  have hbreak := skipLines_break hline (Cursor.skipBreak?_of_isKept (.inl rfl) h)
  rw [EndsLine, hbreak, Bool.not_false, Bool.or_true]
  exact endsLine_start (c := ⟨rest, c.index + '\n'.utf8Size, c.line + 1, 0⟩) hrest rfl

/-! ### One token -/

/-- Between the tokens of a mapping in column 0, that may have started. -/
def reading (started : Bool) (ts : List Lexeme) (c : Cursor) (k : Bool) : Layout where
  cursor := c
  tokens := ts
  count := ts.length
  indent := if started then 0 else -1
  outerIndents := if started then [-1] else []
  keyAllowed := k

/-- No column is left of the mapping. -/
theorem not_lt_indent (started : Bool) (column : ℕ) :
    ¬ (column : ℤ) < if started then 0 else -1 := by
  split <;> omega

theorem closeTo_eq_self {column : ℤ} (h : ¬ column < l.indent) : l.closeTo column = l := by
  have hclosed : closed column l.indent l.outerIndents = (0, l.indent, l.outerIndents) := by
    cases houter : l.outerIndents with
    | nil => rfl
    | cons outer more => rw [closed, if_neg h]
  rw [closeTo]
  split
  case isTrue => rfl
  case isFalse =>
    rw [hclosed]
    rfl

theorem lineToken?_eq_none (h : 0 < l.cursor.column ∨ AtKey l.cursor.rest) :
    l.lineToken? = none := by
  have hdirective : ¬ (l.cursor.column = 0 && l.cursor.rest.head? = some '%') = true := by
    rcases h with h | h
    · simp [Nat.pos_iff_ne_zero.mp h]
    · simp [h.head?_ne (by decide : '%'.isAlpha = false)]
  have hmark : ∀ d, d.isAlpha = false → ¬ l.cursor.atMark d = true := by
    intro d hd
    rcases h with h | h
    · simp [Cursor.atMark, Nat.pos_iff_ne_zero.mp h]
    · have hne := h.head?_ne hd
      rw [Cursor.atMark]
      cases hrest : l.cursor.rest with
      | nil => simp
      | cons a t =>
          rw [hrest] at hne
          have ha : d ≠ a := fun hda => hne (congrArg some hda.symm)
          simp [ha]
  rw [lineToken?, if_neg hdirective, if_neg (hmark '-' (by decide)),
    if_neg (hmark '.' (by decide))]

/-- One token, where it neither ends a collection nor is a directive or a mark. -/
theorem run?_token (hblanks : l.skipBlanks = m)
    (hplace : m.place.any (·.isStale m.cursor) = false)
    (hcolumn : ¬ (m.cursor.column : ℤ) < m.indent) (hrest : m.cursor.rest = a :: t)
    (hline : 0 < m.cursor.column ∨ AtKey m.cursor.rest) {after : Layout}
    (htoken : m.charToken? a t = some after) : run? (steps + 1) l = run? steps after := by
  have hkeep : m.dropStale? = some m := if_neg (by simp [hplace])
  rw [run?, hblanks, hkeep]
  simp only [closeTo_eq_self hcolumn, hrest, lineToken?_eq_none hline, Option.getD_none, htoken]

/-- The characters that no plain scalar starts with. -/
def indicators : List Char := "#,[]\x7b\x7d&*!|>'\"%@`".toList

theorem ne_of_mem_indicators (hstart : startsIndicator (a :: s) = false) (hb : b ∈ indicators) :
    a ≠ b := by
  rintro rfl
  rw [startsIndicator, Bool.or_eq_false_iff, Bool.or_eq_false_iff] at hstart
  have hmem : indicators.contains a = true := List.contains_iff_mem.mpr hb
  exact Bool.false_ne_true (hstart.1.1.symm.trans hmem)

/-- The other indicators start a scalar where something comes after them. -/
theorem atBlankOrEnd_of_not_startsIndicator (hstart : startsIndicator (a :: s) = false)
    (hafter : atBlankOrEnd t → atBlankOrEnd s) (ha : a = '?' ∨ a = ':' ∨ a = '-') :
    atBlankOrEnd t = false := by
  rw [startsIndicator, Bool.or_eq_false_iff, Bool.or_eq_false_iff] at hstart
  have hmark := hstart.1.2
  refine Bool.eq_false_iff.mpr fun hend => ?_
  rw [hafter hend, Bool.and_true] at hmark
  rcases ha with rfl | rfl | rfl <;> cases hmark

theorem startsPlain_of_not_startsIndicator (hstart : startsIndicator (a :: s) = false)
    (hsolid : Solid (a :: s)) (hafter : atBlankOrEnd t → atBlankOrEnd s) :
    startsPlain false (a :: t) = true := by
  have hopen := atBlankOrEnd_of_not_startsIndicator hstart hafter
  rw [startsPlain]
  split
  case isTrue hdash =>
    have hnext := hopen (.inr (.inr hdash))
    cases t with
    | nil => rfl
    | cons d t =>
        rw [atBlankOrEnd, List.head?_cons, Option.all_some, Bool.or_eq_false_iff] at hnext
        simp [hnext.1]
  case isFalse =>
    split
    case isTrue hmark =>
      obtain hmark | hmark : a = '?' ∨ a = ':' := by simpa using hmark
      · simp [hopen (.inl hmark)]
      · simp [hopen (.inr (.inl hmark))]
    case isFalse =>
      have hnot : ",[]\x7b\x7d#&*!|>'\"%@`".toList.contains a = false := by
        refine Bool.eq_false_iff.mpr fun hmem => ?_
        have hsame : ",[]\x7b\x7d#&*!|>'\"%@`".toList.all (indicators.contains ·) = true := by
          decide
        have hindicator := List.all_eq_true.mp hsame a (List.contains_iff_mem.mp hmem)
        exact ne_of_mem_indicators hstart (List.contains_iff_mem.mp hindicator) rfl
      rw [not_isBlank_of_solid hsolid, not_isBreak_of_solid hsolid, hnot]
      rfl

/-- A character that is no indicator starts a plain scalar. -/
theorem charToken?_plain (hflow : l.outerPlaces = []) (hstart : startsIndicator (a :: s) = false)
    (hsolid : Solid (a :: s)) (hafter : atBlankOrEnd t → atBlankOrEnd s) :
    l.charToken? a t = l.plainToken? := by
  have hinFlow : l.inFlow = false := by rw [inFlow, hflow]; rfl
  have hopen := atBlankOrEnd_of_not_startsIndicator hstart hafter
  have hne : ∀ d, indicators.contains d = true → a ≠ d := fun d hd =>
    ne_of_mem_indicators hstart (List.contains_iff_mem.mp hd)
  have hitem : ¬ (a = '-' && atBlankOrEnd t) = true := by
    simpa using fun ha => hopen (.inr (.inr ha))
  have hkey : ¬ (a = '?' && (l.inFlow || atBlankOrEnd t)) = true := by
    simpa [hinFlow] using fun ha => hopen (.inl ha)
  have hvalue : ¬ (a = ':' && (l.inFlow || atBlankOrEnd t)) = true := by
    simpa [hinFlow] using fun ha => hopen (.inr (.inl ha))
  have hplain : startsPlain l.inFlow (a :: t) = true :=
    hinFlow ▸ startsPlain_of_not_startsIndicator hstart hsolid hafter
  have hliteral : decide (a = '|') = false := decide_eq_false (hne '|' rfl)
  have hfolded : decide (a = '>') = false := decide_eq_false (hne '>' rfl)
  simp only [charToken?, if_neg hitem, if_neg hkey, if_neg hvalue, if_pos hplain,
    if_neg (hne '[' rfl), if_neg (hne ']' rfl), if_neg (hne ',' rfl), if_neg (hne '\x7b' rfl),
    if_neg (hne '\x7d' rfl), if_neg (hne '*' rfl), if_neg (hne '&' rfl), if_neg (hne '!' rfl),
    if_neg (hne '\'' rfl), if_neg (hne '"' rfl), hliteral, hfolded, Bool.false_and,
    if_neg Bool.false_ne_true]

/-! ### A name and the colon after it -/

theorem startsIndicator_of_isAlphanum (ha : a.isAlphanum = true) (s : List Char) :
    startsIndicator (a :: s) = false := by
  have hne : ∀ d : Char, d.isAlphanum = false → a ≠ d := by
    rintro d hd rfl
    rw [ha] at hd
    cases hd
  have hall : indicators.all (!Char.isAlphanum ·) = true := by decide
  have hindicator : indicators.contains a = false := by
    refine Bool.eq_false_iff.mpr fun hmem => ?_
    have hnot := List.all_eq_true.mp hall a (List.contains_iff_mem.mp hmem)
    rw [ha] at hnot
    cases hnot
  change (indicators.contains a || _ || _) = false
  rw [hindicator]
  simp [hne '?' rfl, hne ':' rfl, hne '-' rfl, hne '.' rfl]

/-- After a name that may be a key. -/
def named (started : Bool) (ts : List Lexeme) (name : List Char) (c : Cursor) : Layout where
  cursor := c.skip name.length
  tokens := .scalar .plain name :: ts
  count := ts.length + 1
  indent := if started then 0 else -1
  outerIndents := if started then [-1] else []
  place := some ⟨ts.length, c.index, c.line, 0, started⟩
  keyAllowed := false

theorem plainToken?_eq {saved : Layout} {p : PlainScalar} (hsave : l.savePlace? = some saved)
    (hread : plain? saved.inFlow (saved.indent + 1).toNat {} saved.cursor = some p) :
    l.plainToken? =
      some (((saved.allowKey p.broken).add (.scalar .plain p.text)).moveTo p.cursor) := by
  rw [plainToken?, hsave]
  change (plain? saved.inFlow (saved.indent + 1).toNat {} saved.cursor).bind _ = _
  rw [hread]
  rfl

theorem savePlace?_reading (hcolumn : c.column = 0) :
    (reading started ts c true).savePlace? = some
      { reading started ts c true with
        place := some ⟨ts.length, c.index, c.line, 0, started⟩ } := by
  obtain ⟨rest, index, line, column⟩ := c
  subst hcolumn
  cases started <;> rfl

theorem run?_name (steps : ℕ) (started : Bool) (ts : List Lexeme) (hname : IsName name)
    (hend : EndsLine k c (name ++ ':' :: ' ' :: t)) :
    ∃ start : Cursor, start.rest = name ++ ':' :: ' ' :: t ∧ start.column = 0 ∧
      run? (steps + 1) (reading started ts c k) = run? steps (named started ts name start) := by
  obtain ⟨start, hblanks, hrest, hcolumn⟩ := hend
  refine ⟨start, hrest, hcolumn, ?_⟩
  obtain ⟨a, s, rfl⟩ : ∃ a s, name = a :: s := List.exists_cons_of_ne_nil (by
    rintro rfl
    cases hname.first)
  have hskip : (reading started ts c k).skipBlanks = reading started ts start true :=
    skipBlanks_of_skipLines hblanks
  have hkey : AtKey start.rest := by
    rw [hrest]
    exact hname.first
  refine run?_token (a := a) (t := s ++ ':' :: ' ' :: t) hskip rfl ?_ hrest (.inr hkey) ?_
  · exact not_lt_indent started start.column
  · have hsolid : Solid (a :: s) := solid_of_isWord (hname.chars a List.mem_cons_self) s
    have hafter : atBlankOrEnd (s ++ ':' :: ' ' :: t) → atBlankOrEnd s := by
      cases s with
      | nil => exact fun _ => rfl
      | cons d s => exact id
    have ha : a.isAlpha = true := hname.first
    have hstart := startsIndicator_of_isAlphanum (a := a) (by simp [Char.isAlphanum, ha]) s
    rw [charToken?_plain rfl hstart hsolid hafter, plainToken?_eq (savePlace?_reading hcolumn)
      (plain?_name hname hrest)]
    rfl

/-- The place of the name becomes that of a key, in front of which the mapping starts if it has not
yet. -/
theorem run?_colon (steps : ℕ) (started : Bool) (ts : List Lexeme) (hname : IsName name)
    (hrest : c.rest = name ++ ':' :: ' ' :: t) :
    run? (steps + 1) (named started ts name c) =
      run? steps (reading true (.mark .value :: .scalar .plain name :: .mark .key ::
        (if started then ts else .mark .mappingStart :: ts)) ((c.skip name.length).skip 1)
        false) := by
  have hcolon : (c.skip name.length).rest = ':' :: ' ' :: t := Cursor.rest_skip hrest
  have hpositive : 0 < (c.skip name.length).column := by
    have hlength : name.length ≠ 0 := by
      rw [Ne, List.length_eq_zero_iff]
      rintro rfl
      cases hname.first
    exact Nat.lt_of_lt_of_le (Nat.pos_of_ne_zero hlength) (Nat.le_add_left ..)
  have hline : skipLine false false (c.skip name.length) = c.skip name.length := by
    rw [skipLine_spaces (s := []) hcolon (by simp) rfl (skipMark_of_ne (.inr hpositive)),
      List.length_nil, Cursor.skip_zero]
  have hskip : (named started ts name c).skipBlanks = named started ts name c :=
    skipBlanks_of_skipLines
      (skipLines_stop hline (Cursor.skipBreak?_of_not_isBreak (by rw [hcolon]; rfl)))
  refine run?_token (a := ':') (t := ' ' :: t) hskip ?_ ?_ hcolon (.inl hpositive) ?_
  · have hshort : byteLength (c.rest.take name.length) ≤ KeyPlace.reach := by
      rw [hrest, List.take_left]
      exact hname.short
    have hreach : ¬ c.index + KeyPlace.reach < c.index + byteLength (c.rest.take name.length) := by
      omega
    simp [named, KeyPlace.isStale, Cursor.skip, hreach]
  · exact not_lt_indent started _
  · have hone : ts.length + 1 - ts.length = 1 := by omega
    have htwo : ts.length + 1 + 1 - ts.length = 2 := by omega
    change (named started ts name c).value? = _
    cases started <;>
      simp [value?, named, insert, openAt, inFlow, hone, htwo, reading, add, skip, moveTo]

/-! ### Values and the end -/

/-- The text of a value: it starts with a character of its own, and where it stands after a colon it
is read as one scalar, after which comes the next line. -/
structure IsValue (v : List Char) (style : ScalarStyle) (s : List Char) : Prop where
  first : ∃ a w, v = a :: w ∧ isBlank a = false ∧ isBreak a = false ∧ a ≠ '#'
  allowed : ∀ d ∈ v, isAllowed d = true
  reads {a : Char} {w rest : List Char} {c : Cursor} (hv : v = a :: w)
    (hc : c.rest = v ++ rest) (hcolumn : 0 < c.column) (hrest : AtKey rest) (ts : List Lexeme) :
    ∃ k next, (reading true ts c false).charToken? a (w ++ rest) =
      some (reading true (.scalar style s :: ts) next k) ∧ EndsLine k next rest

theorem run?_value (steps : ℕ) (ts : List Lexeme) (hv : IsValue v style s)
    (hc : c.rest = ' ' :: (v ++ rest)) (hcolumn : 0 < c.column) (hrest : AtKey rest) :
    ∃ k next, EndsLine k next rest ∧ run? (steps + 1) (reading true ts c false) =
      run? steps (reading true (.scalar style s :: ts) next k) := by
  obtain ⟨a, w, rfl, hblank, hbreak, hhash⟩ := hv.first
  have hstart : (c.skip 1).rest = a :: (w ++ rest) := Cursor.rest_skip_one hc
  have hpositive : 0 < (c.skip 1).column := Nat.succ_pos _
  obtain ⟨k, next, htoken, hend⟩ := hv.reads rfl hstart hpositive hrest ts
  have hline : skipLine false false c = c.skip 1 :=
    skipLine_spaces (s := [' ']) hc (by simp) (by simp [hblank, hhash])
      (skipMark_of_ne (.inr hcolumn))
  have hskip : (reading true ts c false).skipBlanks = reading true ts (c.skip 1) false :=
    skipBlanks_of_skipLines (skipLines_stop hline
      (Cursor.skipBreak?_of_not_isBreak (by rw [hstart]; simp [hbreak])))
  exact ⟨k, next, hend, run?_token hskip rfl (not_lt_indent true _) hstart (.inl hpositive) htoken⟩

theorem run?_end (hend : EndsLine k c []) :
    run? (steps + 1) (reading true ts c k) = some (ts.reverse ++ [.mark .blockEnd]) := by
  obtain ⟨next, hblanks, hrest, hcolumn⟩ := hend
  have hskip : (reading true ts c k).skipBlanks = reading true ts next true :=
    skipBlanks_of_skipLines hblanks
  have hkeep : (reading true ts next true).dropStale? = some (reading true ts next true) := rfl
  have hopen : ¬ ((reading true ts next true).cursor.column : ℤ) <
      (reading true ts next true).indent := not_lt_indent true _
  have hnext : (reading true ts next true).cursor.rest = [] := hrest
  rw [run?, hskip, hkeep]
  simp only [closeTo_eq_self hopen, hnext]
  exact congrArg some List.reverse_cons

end Layout

/-! ### Lines -/

/-- A member as it is written, on a line of its own or several. -/
structure WrittenMember where
  name : String
  value : List Char
  style : ScalarStyle
  scalar : List Char
  isName : IsName name.toList
  isValue : Layout.IsValue value style scalar

namespace WrittenMember

def line (m : WrittenMember) : List Char := m.name.toList ++ ':' :: ' ' :: m.value

/-- The tokens of a member. -/
def tokens {ν : Type} (m : WrittenMember) : List (Token ν) :=
  [.mark .key, .scalar .plain m.name.toList, .mark .value, .scalar m.style m.scalar]

theorem atKey_lines (ms : List WrittenMember) : Layout.AtKey (ms.flatMap line) := by
  cases ms with
  | nil => rfl
  | cons m ms =>
      have hfirst := m.isName.first
      rw [List.flatMap_cons, line]
      cases hname : m.name.toList with
      | nil => rw [hname] at hfirst; cases hfirst
      | cons a s => rwa [hname] at hfirst

theorem run?_lines (ms : List WrittenMember) (hstarted : started = true ∨ ms ≠ [])
    (hend : Layout.EndsLine k c (ms.flatMap line)) (hsteps : 3 * ms.length < steps) :
    Layout.run? steps (Layout.reading started ts c k) =
      some ((if started then ts else .mark .mappingStart :: ts).reverse ++ ms.flatMap tokens ++
        [.mark .blockEnd]) := by
  induction ms generalizing started ts c k steps with
  | nil =>
      obtain rfl | hne := hstarted
      · obtain ⟨steps, rfl⟩ : ∃ n, steps = n + 1 := ⟨steps - 1, by omega⟩
        rw [Layout.run?_end hend]
        simp
      · exact absurd rfl hne
  | cons m ms ih =>
      rw [List.length_cons] at hsteps
      -- a member takes three steps: its name, the colon and its value
      obtain ⟨steps, rfl⟩ : ∃ n, steps = n + 3 := ⟨steps - 3, by omega⟩
      rw [List.flatMap_cons, line, List.append_assoc, List.cons_append, List.cons_append] at hend
      obtain ⟨start, hstart, -, hname⟩ :=
        Layout.run?_name (steps + 2) started ts m.isName hend
      have hcolon := Layout.run?_colon (steps + 1) started ts m.isName hstart
      have hafter : ((start.skip m.name.toList.length).skip 1).rest =
          ' ' :: (m.value ++ ms.flatMap line) := Cursor.rest_skip_one (Cursor.rest_skip hstart)
      obtain ⟨k, next, hnext, hvalue⟩ :=
        Layout.run?_value steps (.mark .value :: .scalar .plain m.name.toList ::
          .mark .key :: (if started then ts else .mark .mappingStart :: ts)) m.isValue hafter
          (Nat.succ_pos _) (atKey_lines ms)
      rw [hname, hcolon, hvalue, ih (.inl rfl) hnext (by omega), List.flatMap_cons]
      simp [tokens]

theorem three_mul_length_le (ms : List WrittenMember) :
    3 * ms.length ≤ (ms.flatMap line).length := by
  induction ms with
  | nil => exact Nat.le_refl _
  | cons m ms ih =>
      obtain ⟨a, w, hvalue, -⟩ := m.isValue.first
      rw [List.flatMap_cons, List.length_append, List.length_cons, line, hvalue]
      simp only [List.length_append, List.length_cons]
      omega

theorem isAllowed_of_isWord (h : isWord a = true) : isAllowed a = true := by
  have hallowed : ∀ low high : Char, 0x20 ≤ low.toNat → high.toNat ≤ 0x7E →
      (decide (a.val ≥ low.val) && decide (a.val ≤ high.val)) = true → isAllowed a = true := by
    intro low high hlow hhigh hletter
    obtain ⟨hge, hle⟩ := Bool.and_eq_true_iff.mp hletter
    have hrange : 0x20 ≤ a.toNat ∧ a.toNat ≤ 0x7E :=
      ⟨Nat.le_trans hlow (UInt32.le_iff_toNat_le.mp (of_decide_eq_true hge)),
        Nat.le_trans (UInt32.le_iff_toNat_le.mp (of_decide_eq_true hle)) hhigh⟩
    simp [isAllowed, hrange]
  simp only [isWord, Char.isAlphanum, Bool.or_eq_true, decide_eq_true_eq] at h
  rcases h with ((h | h) | rfl) | rfl
  · rcases Bool.or_eq_true_iff.mp h with h | h
    · exact hallowed 'A' 'Z' (by decide) (by decide) (by simpa using of_decide_eq_true h)
    · exact hallowed 'a' 'z' (by decide) (by decide) h
  · exact hallowed '0' '9' (by decide) (by decide) h
  · rfl
  · rfl

theorem all_isAllowed (ms : List WrittenMember) : (ms.flatMap line).all isAllowed = true := by
  refine List.all_eq_true.mpr fun d hd => ?_
  obtain ⟨m, -, hd⟩ := List.mem_flatMap.mp hd
  rw [line, List.mem_append, List.mem_cons, List.mem_cons] at hd
  rcases hd with hd | rfl | rfl | hd
  · exact isAllowed_of_isWord (m.isName.chars d hd)
  · rfl
  · rfl
  · exact m.isValue.allowed d hd

/-- The tokens of the lines of a mapping. -/
theorem ofText?_lines {ms : List WrittenMember} (hms : ms ≠ []) :
    Lexeme.ofText? (ms.flatMap line) =
      some (.mark .mappingStart :: (ms.flatMap tokens ++ [.mark .blockEnd])) := by
  have hend : Layout.EndsLine true ⟨ms.flatMap line, 0, 0, 0⟩ (ms.flatMap line) :=
    Layout.endsLine_start (atKey_lines ms) rfl
  rw [Lexeme.ofText?, if_pos (all_isAllowed ms)]
  have hread : Layout.run? ((ms.flatMap line).length + 1) (Layout.reading false [] _ true) = _ :=
    run?_lines ms (.inr hms) hend (Nat.lt_succ_of_le (three_mul_length_le ms))
  exact hread

/-! ### The tree -/

theorem numberAnchors?_tokens (names : Table Nat) (ms : List WrittenMember) :
    numberAnchors? names (ms.flatMap tokens ++ [.mark .blockEnd]) =
      some (ms.flatMap tokens ++ [.mark .blockEnd]) := by
  induction ms with
  | nil => rfl
  | cons m ms ih =>
      rw [List.flatMap_cons, List.flatMap_cons, List.append_assoc, List.append_assoc]
      simp only [tokens, List.cons_append, List.nil_append, numberAnchors?] at ih ⊢
      rw [ih]
      rfl

/-- The node of a scalar without an anchor or a tag. -/
def node (m : WrittenMember) : Node × Node :=
  (.scalar {} .plain m.name.toList, .scalar {} m.style m.scalar)

theorem blockMembers?_tokens {handles : Node.Handles} (ms : List WrittenMember)
    (hsteps : ms.length + 1 < steps) :
    Node.blockMembers? handles steps (ms.flatMap tokens ++ [.mark .blockEnd]) =
      some (ms.map node, []) := by
  induction ms generalizing steps with
  | nil =>
      obtain ⟨steps, rfl⟩ : ∃ n, steps = n + 1 := ⟨steps - 1, by omega⟩
      rfl
  | cons m ms ih =>
      rw [List.length_cons] at hsteps
      obtain ⟨steps, rfl⟩ : ∃ n, steps = n + 2 := ⟨steps - 2, by omega⟩
      have hrest : Node.blockMembers? handles (steps + 1) _ = _ := ih (by omega)
      rw [List.flatMap_cons, List.append_assoc]
      change ((Node.blockMembers? handles (steps + 1)
        (ms.flatMap tokens ++ [.mark .blockEnd])).map fun p => (m.node :: p.1, p.2)) = _
      rw [hrest]
      rfl

theorem length_le_tokens (ms : List WrittenMember) :
    ms.length ≤ (ms.flatMap tokens : List (Token Nat)).length := by
  induction ms with
  | nil => exact Nat.le_refl _
  | cons m ms ih =>
      rw [List.flatMap_cons, List.length_append, List.length_cons]
      have hfour : (m.tokens : List (Token Nat)).length = 4 := rfl
      omega

/-- A document without directives and marks, that consists of one mapping. -/
theorem ofTokens?_mapping {ts rest : List (Token Nat)} {root : Node}
    (h : Node.block? [] (.mark .mappingStart :: ts) = some (root, rest))
    (hrest : rest.all (· = .mark .documentEnd) = true) :
    Node.ofTokens? (.mark .mappingStart :: ts) = some (some root) := by
  unfold Node.ofTokens?
  dsimp only [List.isEmpty_cons]
  rw [h, if_neg Bool.false_ne_true]
  dsimp only
  rw [if_pos hrest]

/-- The lines of a mapping are read as its members. -/
theorem nodeOfText?_lines {ms : List WrittenMember} (hms : ms ≠ []) :
    Node.ofText? (ms.flatMap line) = some (some (.mapping {} (ms.map node))) := by
  let ts : List (Token Nat) := ms.flatMap tokens ++ [.mark .blockEnd]
  have hnumbers : numberAnchors? {} (.mark .mappingStart :: (ms.flatMap tokens ++
      [.mark .blockEnd])) = some (.mark .mappingStart :: ts) := by
    change (numberAnchors? {} (ms.flatMap tokens ++ [.mark .blockEnd])).map _ = _
    rw [numberAnchors?_tokens]
    rfl
  have hlength : ms.length ≤ ts.length := Nat.le_trans (length_le_tokens ms) (by simp [ts])
  have hmembers : Node.blockMembers? ([] ++ Node.standardHandles) (2 * (ts.length + 1) + 1) ts =
      some (ms.map node, []) := blockMembers?_tokens ms (by omega)
  have hroot : Node.block? [] (.mark .mappingStart :: ts) =
      some (.mapping {} (ms.map node), []) := by
    change (Node.blockMembers? ([] ++ Node.standardHandles) (2 * (ts.length + 1) + 1) ts).map _ = _
    rw [hmembers]
    rfl
  rw [Node.ofText?, ofText?_lines hms]
  change (numberAnchors? {} _).bind _ = _
  rw [hnumbers, Option.bind_some]
  exact ofTokens?_mapping hroot rfl

end WrittenMember

end HostGauge.Yaml
