import HostGauge.Proofs.Text.Run
import HostGauge.Text.Blank
import Mathlib.Data.List.TakeWhile

/-!
Fields and trimming, by how a text is laid out: a text is words with blanks around and between
them, and its fields are these words and no others. What is left of a trimmed text has no blank at
its ends, and only blanks stood around it.
-/
namespace HostGauge.Text

variable {s t gap rest word : List Char} {words : List (List Char)}

def IsGap (s : List Char) : Prop := ∀ c ∈ s, isBlank c

instance (s : List Char) : Decidable (IsGap s) := List.decidableBAll _ s

structure IsWord (s : List Char) : Prop where
  ne_nil : s ≠ []
  solid : ∀ c ∈ s, isBlank c = false

theorem isWord_iff : IsWord s ↔ s ≠ [] ∧ s.all (!isBlank ·) := by
  rw [List.all_eq_true]
  simp only [Bool.not_eq_true']
  exact ⟨fun h => ⟨h.ne_nil, h.solid⟩, fun h => ⟨h.1, h.2⟩⟩

theorem not_isWord_iff : ¬ IsWord s ↔ s.isEmpty || s.any isBlank := by
  rw [isWord_iff, Bool.or_eq_true, List.isEmpty_iff, List.any_eq_not_all_not, Bool.not_eq_true',
    ← Bool.not_eq_true]
  tauto

instance (s : List Char) : Decidable (IsWord s) := decidable_of_iff _ isWord_iff.symm

theorem isBlank_of_isDigit {c : Char} (hc : c.isDigit) : isBlank c = false := by
  have hrange : 48 ≤ c.toNat ∧ c.toNat ≤ 57 := Char.isDigit_iff_toNat.mp hc
  simp only [isBlank, blankRanges, List.any_cons, List.any_nil, Bool.or_false, Bool.or_eq_false_iff,
    Bool.and_eq_false_iff, decide_eq_false_iff_not]
  omega

theorem isGap_nil : IsGap [] := fun _ h => nomatch h

theorem IsGap.append (hs : IsGap s) (ht : IsGap t) : IsGap (s ++ t) := by
  intro c hc
  rcases List.mem_append.mp hc with h | h
  · exact hs c h
  · exact ht c h

theorem isGap_takeWhile (s : List Char) : IsGap (s.takeWhile isBlank) := by
  intro c hc
  exact List.mem_takeWhile_imp hc

theorem IsGap.head?_all (h : IsGap s) : s.head?.all isBlank := by
  cases s with
  | nil => rfl
  | cons c s => exact h c List.mem_cons_self

/-! ### Fields -/

/-- A text of these words, with blanks around and between them. -/
inductive Spaced : List (List Char) → List Char → Prop
  | none {gap : List Char} (hgap : IsGap gap) : Spaced [] gap
  | word {gap word rest : List Char} {words : List (List Char)} (hgap : IsGap gap)
      (hword : IsWord word) (hrest : rest.head?.all isBlank) (h : Spaced words rest) :
      Spaced (word :: words) (gap ++ (word ++ rest))

theorem fields_nil : fields [] = [] := rfl

theorem fields_blank {c : Char} (hc : isBlank c) (s : List Char) : fields (c :: s) = fields s := by
  unfold fields
  rw [List.splitOnP_cons_eq_if_modifyHead, if_pos hc]
  rfl

theorem fields_gap (hgap : IsGap gap) (s : List Char) : fields (gap ++ s) = fields s := by
  induction gap with
  | nil => rfl
  | cons c gap ih =>
      rw [List.cons_append, fields_blank (hgap c List.mem_cons_self)]
      exact ih fun d hd => hgap d (List.mem_cons_of_mem _ hd)

theorem fields_word (hword : IsWord word) (hrest : rest.head?.all isBlank) :
    fields (word ++ rest) = word :: fields rest := by
  have hkept : ∀ more : List (List Char), (word :: more).filter (!·.isEmpty) =
      word :: more.filter (!·.isEmpty) := by
    intro more
    exact List.filter_cons_of_pos (by simpa using hword.ne_nil)
  cases rest with
  | nil =>
      unfold fields
      rw [List.append_nil, List.splitOnP_eq_singleton hword.solid, hkept]
      rfl
  | cons c rest =>
      have hc : isBlank c := hrest
      rw [fields_blank hc]
      unfold fields
      rw [List.splitOnP_append_cons_of_forall_mem hword.solid c hc, hkept]

theorem Spaced.fields (h : Spaced words s) : fields s = words := by
  induction h with
  | @none gap hgap => rw [← List.append_nil gap, fields_gap hgap, fields_nil]
  | word hgap hword hrest _ ih => rw [fields_gap hgap, fields_word hword hrest, ih]

theorem spaced_fields (s : List Char) : Spaced (Text.fields s) s := by
  induction hn : s.length using Nat.strongRecOn generalizing s with
  | ind n ih =>
      subst hn
      -- the blanks in front, the first word, and what comes after it
      have hgap := isGap_takeWhile s
      have hsplit := List.takeWhile_append_dropWhile (p := isBlank) (l := s)
      have hstart := head?_dropWhile_all isBlank s
      generalize s.takeWhile isBlank = gap at hgap hsplit
      generalize s.dropWhile isBlank = tail at hsplit hstart
      subst hsplit
      rw [fields_gap hgap]
      cases tail with
      | nil =>
          rw [List.append_nil]
          exact .none hgap
      | cons c tail =>
          have hc : isBlank c = false := by simpa using hstart
          have hword : IsWord ((c :: tail).takeWhile (!isBlank ·)) := by
            constructor
            · rw [List.takeWhile_cons_of_pos (by rw [hc]; rfl)]
              exact List.cons_ne_nil _ _
            · intro d hd
              simpa using List.mem_takeWhile_imp hd
          have hrest := head?_dropWhile_all (!isBlank ·) (c :: tail)
          simp only [Bool.not_not] at hrest
          have hcut := List.takeWhile_append_dropWhile (p := (!isBlank ·)) (l := c :: tail)
          have hlength := congrArg List.length hcut
          have hpos := List.length_pos_of_ne_nil hword.ne_nil
          rw [List.length_append] at hlength
          generalize (c :: tail).takeWhile (!isBlank ·) = word at *
          generalize (c :: tail).dropWhile (!isBlank ·) = rest at *
          rw [← hcut, fields_word hword hrest]
          refine .word hgap hword hrest (ih rest.length ?_ rest rfl)
          rw [List.length_append]
          omega

/-- The fields of a text are the words it is laid out of. -/
theorem fields_eq_iff : fields s = words ↔ Spaced words s :=
  ⟨fun h => h ▸ spaced_fields s, Spaced.fields⟩

instance (words : List (List Char)) (s : List Char) : Decidable (Spaced words s) :=
  decidable_of_iff _ fields_eq_iff

theorem Spaced.append_gap (h : Spaced words s) (hgap : IsGap gap) : Spaced words (s ++ gap) := by
  induction h with
  | none hbefore => exact .none (hbefore.append hgap)
  | @word before word rest words hbefore hword hrest _ ih =>
      rw [List.append_assoc, List.append_assoc]
      refine .word hbefore hword ?_ ih
      cases rest with
      | nil => exact hgap.head?_all
      | cons c rest => exact hrest

theorem Spaced.gap_append (h : Spaced words s) (hgap : IsGap gap) : Spaced words (gap ++ s) := by
  cases h with
  | none hrest => exact .none (hgap.append hrest)
  | word hbefore hword hrest h =>
      rw [← List.append_assoc]
      exact .word (hgap.append hbefore) hword hrest h

theorem fields_append_gap (s : List Char) (hgap : IsGap gap) : fields (s ++ gap) = fields s :=
  ((spaced_fields s).append_gap hgap).fields

theorem fields_return (line : List Char) : fields (line ++ ['\r']) = fields line := by
  apply fields_append_gap
  intro c hc
  rw [List.mem_singleton.mp hc]
  rfl

theorem spaced_intercalate (h : ∀ word ∈ words, IsWord word) :
    Spaced words ([' '].intercalate words) := by
  induction words with
  | nil => exact .none isGap_nil
  | cons word words ih =>
      have hword := h word List.mem_cons_self
      have hmore := ih fun w hw => h w (List.mem_cons_of_mem _ hw)
      cases words with
      | nil =>
          have hlast : Spaced [word] ([] ++ (word ++ [])) :=
            .word isGap_nil hword rfl (.none isGap_nil)
          rw [List.append_nil] at hlast
          rw [List.intercalate_singleton]
          exact hlast
      | cons next words =>
          have hspace : IsGap [' '] := by
            intro c hc
            rw [List.mem_singleton.mp hc]
            rfl
          rw [List.intercalate_cons_cons, List.append_assoc]
          exact .word isGap_nil hword rfl (hmore.gap_append hspace)

theorem eq_or_mem_of_mem_intercalate {sep c : Char} (h : c ∈ [sep].intercalate words) :
    c = sep ∨ ∃ word ∈ words, c ∈ word := by
  induction words with
  | nil => exact absurd h List.not_mem_nil
  | cons word words ih =>
      cases words with
      | nil =>
          rw [List.intercalate_singleton] at h
          exact .inr ⟨word, List.mem_cons_self, h⟩
      | cons next words =>
          rw [List.intercalate_cons_cons, List.append_assoc, List.mem_append, List.mem_append,
            List.mem_singleton] at h
          rcases h with hfirst | hsep | hmore
          · exact .inr ⟨word, List.mem_cons_self, hfirst⟩
          · exact .inl hsep
          · rcases ih hmore with hsep | ⟨other, hother, hc⟩
            · exact .inl hsep
            · exact .inr ⟨other, List.mem_cons_of_mem _ hother, hc⟩

/-! ### Trimming -/

/-- What is left of a text without the blanks at its ends. -/
structure Trims (s t : List Char) : Prop where
  surrounded : ∃ before after, s = before ++ (t ++ after) ∧ IsGap before ∧ IsGap after
  starts : t.head?.all (!isBlank ·)
  ends : t.getLast?.all (!isBlank ·)

theorem trims_trim (s : List Char) : Trims s (trim s) where
  surrounded := by
    refine ⟨s.takeWhile isBlank, ((s.dropWhile isBlank).reverse.takeWhile isBlank).reverse, ?_,
      isGap_takeWhile s, ?_⟩
    · unfold trim
      rw [← List.reverse_append, List.takeWhile_append_dropWhile, List.reverse_reverse,
        List.takeWhile_append_dropWhile]
    · intro c hc
      exact isGap_takeWhile _ c (List.mem_reverse.mp hc)
  starts := by
    have hstart := head?_dropWhile_all isBlank s
    unfold trim
    generalize s.dropWhile isBlank = u at hstart
    -- what is kept of the rest begins as the rest does
    have hcut : (u.reverse.dropWhile isBlank).reverse ++ (u.reverse.takeWhile isBlank).reverse =
        u := by
      rw [← List.reverse_append, List.takeWhile_append_dropWhile, List.reverse_reverse]
    rw [← hcut] at hstart
    cases hkept : (u.reverse.dropWhile isBlank).reverse with
    | nil => rfl
    | cons c kept =>
        rw [hkept] at hstart
        exact hstart
  ends := by
    unfold trim
    rw [List.getLast?_reverse]
    exact head?_dropWhile_all isBlank _

theorem Trims.trim (h : Trims s t) : trim s = t := by
  obtain ⟨⟨before, after, rfl, hbefore, hafter⟩, hstart, hend⟩ := h
  unfold Text.trim
  have hfront : (before ++ (t ++ after)).dropWhile isBlank = if t = [] then [] else t ++ after := by
    cases t with
    | nil =>
        rw [if_pos rfl, List.dropWhile_eq_nil_iff]
        exact hbefore.append hafter
    | cons c t => exact dropWhile_run hbefore hstart
  have hback : IsGap after.reverse := by
    intro c hc
    exact hafter c (List.mem_reverse.mp hc)
  rw [hfront]
  split
  case isTrue hnone =>
    rw [hnone]
    rfl
  case isFalse =>
    rw [List.reverse_append, dropWhile_run hback (by rwa [List.head?_reverse]),
      List.reverse_reverse]

theorem trim_eq_iff : trim s = t ↔ Trims s t :=
  ⟨fun h => h ▸ trims_trim s, Trims.trim⟩

theorem trims_nil_iff : Trims s [] ↔ IsGap s := by
  constructor
  · intro h
    obtain ⟨before, after, rfl, hbefore, hafter⟩ := h.surrounded
    exact hbefore.append hafter
  · intro h
    exact ⟨⟨s, [], (List.append_nil s).symm, h, isGap_nil⟩, rfl, rfl⟩

theorem IsWord.not_mem (hword : IsWord word) {c : Char} (hc : isBlank c) : c ∉ word := by
  intro hmem
  rw [hword.solid c hmem] at hc
  cases hc

theorem IsWord.trims (hword : IsWord word) {before after : List Char} (hbefore : IsGap before)
    (hafter : IsGap after) : Trims (before ++ (word ++ after)) word where
  surrounded := ⟨before, after, rfl, hbefore, hafter⟩
  starts := by
    rw [Option.all_eq_true]
    intro c hc
    simp [hword.solid c (List.mem_of_mem_head? hc)]
  ends := by
    rw [Option.all_eq_true]
    intro c hc
    simp [hword.solid c (List.mem_of_mem_getLast? hc)]

/-- A text of which a word is left has no other. -/
theorem IsWord.spaced_trim (hword : IsWord (trim s)) : Spaced [trim s] s := by
  obtain ⟨before, after, hs, hbefore, hafter⟩ := (trims_trim s).surrounded
  have hspaced : Spaced [trim s] (before ++ (trim s ++ after)) :=
    .word hbefore hword hafter.head?_all (.none hafter)
  rwa [← hs] at hspaced

end HostGauge.Text
