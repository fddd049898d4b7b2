import HostGauge.Yaml.Printer
import Mathlib.Data.List.Basic

/-!
Moving over the characters of a text, and over the gaps between the parts of a scalar: a gap ends
before the first character that is neither a blank nor a line end.
-/
namespace HostGauge.Yaml

variable {c : Cursor} {g : Gap} {indent : ℕ} {b : Char} {s t rest : List Char}

/-! ### Moving over characters -/

theorem Cursor.skip_zero (c : Cursor) : c.skip 0 = c := by
  simp [skip, byteLength]

theorem Cursor.rest_skip (h : c.rest = s ++ t) : (c.skip s.length).rest = t := by
  rw [skip, h, List.drop_left]

theorem Cursor.rest_skip_one (h : c.rest = b :: t) : (c.skip 1).rest = t := by
  rw [skip, h]
  rfl

/-- The line ends that are read as themselves. -/
def IsKept (b : Char) : Prop := b = '\n' ∨ b = '\u2028' ∨ b = '\u2029'

/-- A line end that needs no escape is read as itself. -/
theorem isKept_of_isPrintable (hprint : isPrintable b = true) (hbreak : isBreak b = true) :
    IsKept b := by
  simp only [isBreak, Bool.or_eq_true, decide_eq_true_eq] at hbreak
  rcases hbreak with (((rfl | rfl) | rfl) | rfl) | rfl
  · exact .inl rfl
  · cases hprint
  · cases hprint
  · exact .inr (.inl rfl)
  · exact .inr (.inr rfl)

theorem IsKept.isBreak (h : IsKept b) : isBreak b = true := by
  rcases h with rfl | rfl | rfl <;> rfl

theorem IsKept.isBlank (h : IsKept b) : isBlank b = false := by
  rcases h with rfl | rfl | rfl <;> rfl

theorem Cursor.skipBreak?_of_isKept (hb : IsKept b) (h : c.rest = b :: t) :
    c.skipBreak? = some (b, ⟨t, c.index + b.utf8Size, c.line + 1, 0⟩) := by
  unfold skipBreak?
  rw [h]
  rcases hb with rfl | rfl | rfl <;> rfl

theorem Cursor.skipBreak?_of_not_isBreak (h : c.rest.head?.all (!isBreak ·)) :
    c.skipBreak? = none := by
  unfold skipBreak?
  split
  case h_1 heq => rw [heq] at h; cases h
  case h_2 b t _ heq =>
    rw [heq] at h
    have hb : ¬ Yaml.isBreak b = true := by simpa using h
    rw [if_neg hb]
  case h_3 => rfl

/-! ### Gaps -/

/-- The text is empty or starts with neither a blank nor a line end. -/
def Solid (s : List Char) : Prop := s.head?.all fun b => !isBlank b && !isBreak b

theorem not_isBlank_of_solid (h : Solid (b :: s)) : isBlank b = false := by
  have hb := (Bool.and_eq_true_iff.mp h).1
  simpa using hb

theorem not_isBreak_of_solid (h : Solid (b :: s)) : isBreak b = false := by
  have hb := (Bool.and_eq_true_iff.mp h).2
  simpa using hb

theorem Solid.head?_ne (h : Solid s) (hb : isBlank b = true) : s.head? ≠ some b := by
  intro hhead
  rw [Solid, hhead, Option.all_some, hb] at h
  cases h

theorem Cursor.skipBreak?_of_solid (h : Solid c.rest) : c.skipBreak? = none := by
  refine skipBreak?_of_not_isBreak ?_
  cases hrest : c.rest with
  | nil => rfl
  | cons b s =>
      rw [hrest] at h
      simp [not_isBreak_of_solid h]

theorem gap?_of_solid (h : Solid c.rest) : gap? indent g c = some (g, c) := by
  have hbreak := Cursor.skipBreak?_of_solid h
  rw [gap?]
  split
  case h_1 => rfl
  case h_2 b t heq =>
    rw [heq] at h
    rw [if_neg (by simp [not_isBlank_of_solid h])]
    split
    case h_1 hsome => rw [hbreak] at hsome; cases hsome
    case h_2 => rfl

theorem gap?_space (h : c.rest = ' ' :: t) :
    gap? indent g c = gap? indent (g.addBlank ' ') (c.skip 1) := by
  conv_lhs => rw [gap?]
  split
  case h_1 heq => rw [h] at heq; cases heq
  case h_2 b t' heq =>
    rw [h] at heq
    cases heq
    rw [if_pos (by decide : isBlank ' ' = true), if_neg (by simp)]

theorem gap?_break (hb : IsKept b) (h : c.rest = b :: t) :
    gap? indent g c = gap? indent (g.addBreak b) ⟨t, c.index + b.utf8Size, c.line + 1, 0⟩ := by
  have hbreak := Cursor.skipBreak?_of_isKept hb h
  conv_lhs => rw [gap?]
  split
  case h_1 heq => rw [h] at heq; cases heq
  case h_2 a t' heq =>
    rw [h] at heq
    cases heq
    rw [if_neg (by simp [hb.isBlank])]
    split
    case h_1 hsome =>
      rw [hbreak] at hsome
      cases hsome
      rfl
    case h_2 hnone => rw [hbreak] at hnone; cases hnone

/-- A gap of spaces on one line. -/
def spaces (n : ℕ) : Gap := { blanks := List.replicate n ' ' }

theorem addBlank_spaces (n : ℕ) : (spaces n).addBlank ' ' = spaces (n + 1) := rfl

theorem fold_spaces (n : ℕ) : (spaces n).fold = List.replicate n ' ' := List.reverse_replicate ..

theorem gap?_spaces (indent n m : ℕ) (h : c.rest = List.replicate m ' ' ++ t) (ht : Solid t) :
    ∃ next, gap? indent (spaces n) c = some (spaces (n + m), next) ∧ next.rest = t ∧
      next.column = c.column + m := by
  induction m generalizing n c with
  | zero => exact ⟨c, gap?_of_solid (by rwa [h]), h, rfl⟩
  | succ m ih =>
      rw [List.replicate_succ, List.cons_append] at h
      obtain ⟨next, hgap, hrest, hcolumn⟩ := ih (n + 1) (Cursor.rest_skip_one h)
      refine ⟨next, ?_, hrest, ?_⟩
      · rw [gap?_space h, addBlank_spaces, hgap, Nat.add_assoc, Nat.add_comm 1]
      · rw [hcolumn, Nat.add_comm m, ← Nat.add_assoc]
        rfl

end HostGauge.Yaml
