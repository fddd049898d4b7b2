import HostGauge.Proofs.Text.Run
import HostGauge.Proofs.Yaml.Gap
import HostGauge.Yaml.Layout

/-!
Plain scalars, read back: words with spaces between them, up to the end of their line.
-/
namespace HostGauge.Yaml

variable {c : Cursor} {g : Gap} {b : Char} {s t rest : List Char}

/-- A text that a plain scalar can hold on one line. -/
structure IsLine (s : List Char) : Prop where
  nonempty : s ≠ []
  chars : ∀ c ∈ s, isBreak c = false ∧ (isBlank c = true → c = ' ')
  inside : endsInside s = false
  first : s.head?.all fun c => c ≠ ' ' && c ≠ '#'
  last : s.getLast? ≠ some ' '

theorem atBlankOrEnd_append (s rest : List Char) :
    atBlankOrEnd (s ++ '\n' :: rest) = atBlankOrEnd s := by
  cases s <;> rfl

theorem endsInside_cons (h : endsInside (b :: s) = false) :
    (b = ':' && atBlankOrEnd s) = false ∧ (isBlank b && s.head? = some '#') = false ∧
      endsInside s = false := by
  rw [endsInside, Bool.or_eq_false_iff, Bool.or_eq_false_iff] at h
  exact ⟨h.1.1, h.1.2, h.2⟩

theorem endsInside_of_append (h : endsInside (t ++ s) = false) : endsInside s = false := by
  induction t with
  | nil => exact h
  | cons b t ih => exact ih (endsInside_cons h).2.2

theorem plainRun?_line (hchars : ∀ c ∈ s, isBreak c = false) (hinside : endsInside s = false) :
    plainRun? false (s ++ '\n' :: rest) = some (s.takeWhile (!isBlank ·)) := by
  induction s with
  | nil => rfl
  | cons b s ih =>
      obtain ⟨hcolon, -, hrest⟩ := endsInside_cons hinside
      have hbreak := hchars b List.mem_cons_self
      have hih := ih (fun c hc => hchars c (List.mem_cons_of_mem _ hc)) hrest
      rw [List.cons_append, plainRun?]
      by_cases hblank : isBlank b = true
      · rw [if_pos (by simp [hblank]), List.takeWhile_cons_of_neg (by simp [hblank])]
      · rw [if_neg (by simp [hblank, hbreak]), if_neg (by simp), atBlankOrEnd_append, hcolon,
          if_neg (by simp), hih, List.takeWhile_cons_of_pos (by simp [hblank])]
        rfl

theorem eq_replicate_append (s : List Char) :
    ∃ n, s = List.replicate n ' ' ++ s.dropWhile (· = ' ') := by
  refine ⟨(s.takeWhile (· = ' ')).length, ?_⟩
  have hspaces : s.takeWhile (· = ' ') = List.replicate (s.takeWhile (· = ' ')).length ' ' := by
    refine List.eq_replicate_of_mem fun c hc => ?_
    simpa using List.all_eq_true.mp List.all_takeWhile c hc
  rw [← hspaces, List.takeWhile_append_dropWhile]

/-- What follows spaces within a line is a line of its own. -/
theorem IsLine.of_append {w t : List Char} (h : IsLine (w ++ ' ' :: t)) (ht : t.head? ≠ some ' ') :
    IsLine t where
  nonempty := by
    rintro rfl
    exact h.last (by simp)
  chars c hc := h.chars c (by simp [hc])
  inside := (endsInside_cons (endsInside_of_append h.inside)).2.2
  first := by
    have hcomment := (endsInside_cons (endsInside_of_append h.inside)).2.1
    cases t with
    | nil => rfl
    | cons d t =>
        have hspace : d ≠ ' ' := fun hd => ht (congrArg some hd)
        have hhash : d ≠ '#' := by
          rintro rfl
          cases hcomment
        simp [hspace, hhash]
  last := by
    intro hlast
    refine h.last ?_
    rw [List.append_cons, List.getLast?_append, hlast]
    rfl

/-- After its first word a line is at its end, or goes on with spaces and another line. -/
theorem IsLine.after_word (h : IsLine s) : s.dropWhile (!isBlank ·) = [] ∨
    ∃ n t, s.dropWhile (!isBlank ·) = List.replicate (n + 1) ' ' ++ t ∧ IsLine t ∧
      t.length < s.length := by
  have hsplit := List.takeWhile_append_dropWhile (p := (!isBlank ·)) (l := s)
  have hhead := Text.head?_dropWhile_all (!isBlank ·) s
  cases hafter : s.dropWhile (!isBlank ·) with
  | nil => exact .inl rfl
  | cons b after =>
      rw [hafter] at hsplit hhead
      have hmem : b ∈ s := by
        rw [← hsplit]
        simp
      have hb : b = ' ' := (h.chars b hmem).2 (by simpa using hhead)
      subst hb
      obtain ⟨n, hn⟩ := eq_replicate_append after
      have hstop : (after.dropWhile (· = ' ')).head? ≠ some ' ' := by
        intro hspace
        have hall := Text.head?_dropWhile_all (· = ' ') after
        rw [hspace] at hall
        cases hall
      refine .inr ⟨n, after.dropWhile (· = ' '), ?_, ?_, ?_⟩
      · rw [List.replicate_succ, List.cons_append, ← hn]
      · refine IsLine.of_append (w := s.takeWhile (!isBlank ·) ++ List.replicate n ' ') ?_ hstop
        have hs : s.takeWhile (!isBlank ·) ++ List.replicate n ' ' ++
            ' ' :: after.dropWhile (· = ' ') = s := by
          rw [List.append_assoc, List.append_cons, ← List.replicate_succ', List.replicate_succ,
            List.cons_append, ← hn, hsplit]
        rwa [hs]
      · have hle := (List.dropWhile_suffix (· = ' ') (l := after)).length_le
        have hlength := congrArg List.length hsplit
        rw [List.length_append, List.length_cons] at hlength
        omega

/-- One word of a plain scalar and the gap after it. -/
theorem plain?_word {run : List Char} {gap : Gap} {after : Cursor} (hcolumn : 0 < c.column)
    (hfirst : c.rest.head? ≠ some '#') (hrun : plainRun? false c.rest = some run)
    (hnonempty : run ≠ []) (hatGap : atGap (c.skip run.length) = true)
    (hgap : gap? 1 {} (c.skip run.length) = some (gap, after)) :
    plain? false 1 g c =
      if after.column < 1 then some ⟨g.fold ++ run, after, gap.broken⟩
      else (plain? false 1 gap after).map fun p => { p with text := g.fold ++ run ++ p.text } := by
  have hmark : c.atDocumentMark = false := by
    simp [Cursor.atDocumentMark, Cursor.atMark, Nat.pos_iff_ne_zero.mp hcolumn]
  have hempty : ¬ run.isEmpty = true := by simpa using hnonempty
  rw [plain?, if_neg (by simp [hmark, hfirst]), hrun]
  simp only [hatGap, dif_pos]
  split
  case h_1 hnone => rw [if_neg hempty, hgap] at hnone; cases hnone
  case h_2 pending next hsome =>
    rw [if_neg hempty, hgap] at hsome
    cases hsome
    simp only [if_neg hempty, Bool.not_false, Bool.true_and, decide_eq_true_eq]

theorem IsLine.first_ne (h : IsLine (b :: s)) : b ≠ ' ' ∧ b ≠ '#' := by
  simpa using h.first

theorem IsLine.solid (h : IsLine s) (rest : List Char) : Solid (s ++ rest) := by
  obtain ⟨b, s, rfl⟩ := List.exists_cons_of_ne_nil h.nonempty
  obtain ⟨hbreak, hspace⟩ := h.chars b List.mem_cons_self
  have hblank : isBlank b = false := Bool.eq_false_iff.mpr fun hb => h.first_ne.1 (hspace hb)
  simp [Solid, hbreak, hblank]

theorem gap?_lineEnd (h : c.rest = '\n' :: rest) (hsolid : Solid rest) :
    ∃ gap next, gap? 1 {} c = some (gap, next) ∧ gap.broken = true ∧ next.rest = rest ∧
      next.column = 0 :=
  ⟨_, _, (gap?_break (.inl rfl) h).trans (gap?_of_solid hsolid), rfl, rfl, rfl⟩

/-- A line is read up to its end, after whatever gap is before it. -/
theorem plain?_line (hline : IsLine s) (hrest : c.rest = s ++ '\n' :: rest)
    (hcolumn : 0 < c.column) (hsolid : Solid rest) :
    ∃ next, plain? false 1 g c = some ⟨g.fold ++ s, next, true⟩ ∧ next.rest = rest ∧
      next.column = 0 := by
  -- One word after another: each time what follows the spaces is a shorter line.
  induction hlength : s.length using Nat.strongRecOn generalizing s c g with
  | ind n ih =>
      subst hlength
      have hwords := List.takeWhile_append_dropWhile (p := (!isBlank ·)) (l := s)
      have hrun : plainRun? false c.rest = some (s.takeWhile (!isBlank ·)) := by
        rw [hrest, plainRun?_line (fun c hc => (hline.chars c hc).1) hline.inside]
      have hfirst : c.rest.head? ≠ some '#' := by
        obtain ⟨b, s, rfl⟩ := List.exists_cons_of_ne_nil hline.nonempty
        rw [hrest]
        exact fun h => hline.first_ne.2 (Option.some.inj h)
      have hnonempty : s.takeWhile (!isBlank ·) ≠ [] := by
        obtain ⟨b, s, rfl⟩ := List.exists_cons_of_ne_nil hline.nonempty
        rw [List.takeWhile_cons_of_pos (by simp [not_isBlank_of_solid (hline.solid [])])]
        exact List.cons_ne_nil _ _
      have hafter : (c.skip (s.takeWhile (!isBlank ·)).length).rest =
          s.dropWhile (!isBlank ·) ++ '\n' :: rest :=
        Cursor.rest_skip (by rw [hrest, ← List.append_assoc, hwords])
      rcases hline.after_word with hend | ⟨n, t, hspaces, ht, hshorter⟩
      · rw [hend, List.nil_append] at hafter
        obtain ⟨gap, next, hgap, hbroken, hnext, hzero⟩ := gap?_lineEnd hafter hsolid
        refine ⟨next, ?_, hnext, hzero⟩
        rw [plain?_word hcolumn hfirst hrun hnonempty (by rw [atGap, hafter]; rfl) hgap,
          if_pos (by omega), hbroken]
        rw [hend, List.append_nil] at hwords
        rw [hwords]
      · rw [hspaces, List.append_assoc] at hafter
        obtain ⟨next, hgap, hnext, hnextColumn⟩ :=
          gap?_spaces 1 0 (n + 1) hafter (ht.solid _)
        obtain ⟨last, hread, hlast, hzero⟩ := ih t.length hshorter ht hnext (by omega) rfl
        refine ⟨last, ?_, hlast, hzero⟩
        rw [plain?_word hcolumn hfirst hrun hnonempty (by rw [atGap, hafter]; rfl) hgap,
          if_neg (by omega), hread, Option.map_some, Nat.zero_add, fold_spaces,
          List.append_assoc, ← hspaces, hwords]

/-! ### Names -/

/-- A name of letters and digits that starts with a letter, short enough for a key. -/
structure IsName (s : List Char) : Prop where
  first : s.head?.any Char.isAlpha
  chars : ∀ c ∈ s, isWord c = true
  short : byteLength s ≤ KeyPlace.reach

theorem ne_of_isAlpha {a d : Char} (ha : a.isAlpha = true) (hd : d.isAlpha = false) : a ≠ d := by
  rintro rfl
  rw [ha] at hd
  cases hd

theorem ne_of_isWord {a d : Char} (ha : isWord a = true) (hd : isWord d = false) : a ≠ d := by
  rintro rfl
  rw [ha] at hd
  cases hd

theorem solid_of_isWord (h : isWord b = true) (t : List Char) : Solid (b :: t) := by
  have hblank : isBlank b = false := by
    simp [isBlank, ne_of_isWord h (by decide : isWord ' ' = false),
      ne_of_isWord h (by decide : isWord '\t' = false)]
  have hbreak : isBreak b = false := by
    simp [isBreak, ne_of_isWord h (by decide : isWord '\n' = false),
      ne_of_isWord h (by decide : isWord '\r' = false),
      ne_of_isWord h (by decide : isWord '\u0085' = false),
      ne_of_isWord h (by decide : isWord '\u2028' = false),
      ne_of_isWord h (by decide : isWord '\u2029' = false)]
  simp [Solid, hblank, hbreak]

theorem plainRun?_words (hs : ∀ c ∈ s, isWord c = true) :
    plainRun? false (s ++ ':' :: ' ' :: t) = some s := by
  induction s with
  | nil => rfl
  | cons b s ih =>
      have hb := hs b List.mem_cons_self
      have hsolid := solid_of_isWord hb []
      rw [List.cons_append, plainRun?, not_isBlank_of_solid hsolid, not_isBreak_of_solid hsolid,
        if_neg (by decide), if_neg (by simp),
        if_neg (by simp [ne_of_isWord hb (by decide : isWord ':' = false)]),
        ih fun c hc => hs c (List.mem_cons_of_mem _ hc)]
      rfl

/-- A name is read up to the colon after it. -/
theorem plain?_name {i : ℕ} (hs : IsName s) (h : c.rest = s ++ ':' :: ' ' :: t) :
    plain? false i {} c = some ⟨s, c.skip s.length, false⟩ := by
  have hafter : (c.skip s.length).rest = ':' :: ' ' :: t := Cursor.rest_skip h
  obtain ⟨b, s, rfl⟩ : ∃ b s', s = b :: s' := List.exists_cons_of_ne_nil (by
    rintro rfl
    cases hs.first)
  have hb : b.isAlpha = true := hs.first
  have hmark : c.atDocumentMark = false := by
    simp [Cursor.atDocumentMark, Cursor.atMark, h, List.isPrefixOf,
      (ne_of_isAlpha hb (by decide : '-'.isAlpha = false)).symm,
      (ne_of_isAlpha hb (by decide : '.'.isAlpha = false)).symm]
  have hcomment : c.rest.head? ≠ some '#' := by
    rw [h]
    exact fun hhash => ne_of_isAlpha hb (by decide) (Option.some.inj hhash)
  have hgap : ¬ atGap (c.skip (b :: s).length) = true := by
    rw [atGap, hafter]
    exact Bool.false_ne_true
  rw [plain?, if_neg (by simp [hmark, hcomment]), h, plainRun?_words hs.chars]
  exact dif_neg hgap

end HostGauge.Yaml
