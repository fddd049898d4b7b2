import Mathlib.Data.List.Basic
import Mathlib.Data.List.TakeWhile

/-!
Runs of characters: where a text goes on with a character that is not of the run, the run is
what a reader of such characters takes.
-/
namespace HostGauge.Text

variable {α : Type} {p : α → Bool} {run rest : List α}

theorem takeWhile_run (hrun : ∀ c ∈ run, p c) (hrest : rest.head?.all (!p ·)) :
    (run ++ rest).takeWhile p = run := by
  rw [List.takeWhile_append_of_pos hrun]
  cases rest with
  | nil => simp
  | cons c rest =>
      have hc : p c = false := by simpa using hrest
      simp [hc]

theorem dropWhile_run (hrun : ∀ c ∈ run, p c) (hrest : rest.head?.all (!p ·)) :
    (run ++ rest).dropWhile p = rest := by
  rw [List.dropWhile_append_of_pos hrun]
  cases rest with
  | nil => rfl
  | cons c rest =>
      have hc : p c = false := by simpa using hrest
      simp [hc]

/-- What is left after a run does not go on with it. -/
theorem head?_dropWhile_all (p : α → Bool) (s : List α) :
    (s.dropWhile p).head?.all (!p ·) := by
  induction s with
  | nil => rfl
  | cons c s ih =>
      by_cases hc : p c
      · rwa [List.dropWhile_cons_of_pos hc]
      · rw [List.dropWhile_cons_of_neg hc]
        simpa using hc

/-- What a reader takes is the run in front of the first character that is not of it. -/
theorem takeWhile_eq_iff {s : List α} :
    s.takeWhile p = run ↔ ∃ rest, s = run ++ rest ∧ (∀ c ∈ run, p c) ∧ rest.head?.all (!p ·) := by
  constructor
  · rintro rfl
    exact ⟨s.dropWhile p, List.takeWhile_append_dropWhile.symm,
      fun c hc => List.mem_takeWhile_imp hc, head?_dropWhile_all p s⟩
  · rintro ⟨rest, rfl, hrun, hrest⟩
    exact takeWhile_run hrun hrest

end HostGauge.Text
