import HostGauge.Proofs.Numeral
import Mathlib.Algebra.Order.Ring.Int
import Mathlib.Data.Char
import Mathlib.Data.List.Basic
import Mathlib.Tactic.Tauto

/-!
Texts of one length compare by their first difference. Runs of digits of one length thus compare as
their values, and texts put together of such runs as the numbers that have all the digits.
-/
namespace HostGauge

namespace Text

/-- Two texts of one length that compare as two numbers do. -/
structure CompareAs (s t : List Char) (x y : ℤ) : Prop where
  length_eq : s.length = t.length
  lt_iff : s < t ↔ x < y
  eq_iff : s = t ↔ x = y

variable {s t s' t' : List Char} {x y x' y' base : ℤ}

theorem append_lt_append_iff (h : s.length = t.length) :
    s ++ s' < t ++ t' ↔ s < t ∨ s = t ∧ s' < t' := by
  induction s generalizing t with
  | nil =>
      obtain rfl := List.length_eq_zero_iff.mp h.symm
      simp
  | cons c s ih =>
      cases t with
      | nil => cases h
      | cons d t =>
          simp only [List.cons_append, List.cons_lt_cons_iff, List.cons.injEq, ih (Nat.succ.inj h)]
          tauto

/-- Numbers with one more digit compare by what stands in front, then by the digit. -/
theorem mul_add_lt_iff (hx : 0 ≤ x' ∧ x' < base) (hy : 0 ≤ y' ∧ y' < base) :
    x * base + x' < y * base + y' ↔ x < y ∨ x = y ∧ x' < y' := by
  have step {a b : ℤ} (h : a < b) : a * base + base ≤ b * base := by
    rw [← add_one_mul]
    exact Int.mul_le_mul_of_nonneg_right (Int.add_one_le_of_lt h) (by omega)
  rcases lt_trichotomy x y with h | rfl | h
  · have hle := step h
    simp only [h, true_or, iff_true]
    omega
  · simp
  · have hle := step h
    simp only [h.not_gt, h.ne', false_or, false_and, iff_false]
    omega

theorem mul_add_eq_iff (hx : 0 ≤ x' ∧ x' < base) (hy : 0 ≤ y' ∧ y' < base) :
    x * base + x' = y * base + y' ↔ x = y ∧ x' = y' := by
  have hlt := mul_add_lt_iff (x := x) (y := y) hx hy
  have hgt := mul_add_lt_iff (x := y) (y := x) hy hx
  omega

namespace CompareAs

theorem append (h : CompareAs s t x y) (h' : CompareAs s' t' x' y')
    (hx : 0 ≤ x' ∧ x' < base) (hy : 0 ≤ y' ∧ y' < base) :
    CompareAs (s ++ s') (t ++ t') (x * base + x') (y * base + y') where
  length_eq := by rw [List.length_append, List.length_append, h.length_eq, h'.length_eq]
  lt_iff := by
    rw [append_lt_append_iff h.length_eq, h.lt_iff, h.eq_iff, h'.lt_iff, mul_add_lt_iff hx hy]
  eq_iff := by
    rw [List.append_eq_append_iff_of_size_eq_left h.length_eq, h.eq_iff, h'.eq_iff,
      mul_add_eq_iff hx hy]

/-- The same character in front of both. -/
theorem cons (c : Char) (h : CompareAs s t x y) : CompareAs (c :: s) (c :: t) x y where
  length_eq := congrArg Nat.succ h.length_eq
  lt_iff := by
    rw [List.cons_lt_cons_iff, ← h.lt_iff]
    simp
  eq_iff := by
    rw [List.cons_inj_right, h.eq_iff]

/-- The same text behind both. -/
theorem append_right (h : CompareAs s t x y) (rest : List Char) :
    CompareAs (s ++ rest) (t ++ rest) x y where
  length_eq := by rw [List.length_append, List.length_append, h.length_eq]
  lt_iff := by
    rw [append_lt_append_iff h.length_eq, h.lt_iff]
    simp only [List.lt_irrefl, and_false, or_false]
  eq_iff := by
    rw [List.append_left_inj, h.eq_iff]

theorem digit {c d : Char} (hc : c.isDigit) (hd : d.isDigit) :
    CompareAs [c] [d] (Numeral.value [c]) (Numeral.value [d]) := by
  have hlow : 48 ≤ c.toNat ∧ 48 ≤ d.toNat :=
    ⟨(Char.isDigit_iff_toNat.mp hc).1, (Char.isDigit_iff_toNat.mp hd).1⟩
  have hvalue (e : Char) : Numeral.value [e] = 10 * 0 + (e.toNat - 48) := rfl
  have hlt : [c] < [d] ↔ c.toNat < d.toNat := by
    simp only [List.cons_lt_cons_iff, List.lt_irrefl, and_false, or_false]
    exact Iff.rfl
  have heq : [c] = [d] ↔ c.toNat = d.toNat := by rw [List.singleton_inj, Char.toNat_inj]
  refine ⟨rfl, ?_, ?_⟩
  · rw [hlt, hvalue, hvalue]
    omega
  · rw [heq, hvalue, hvalue]
    omega

/-- Runs of digits of one length compare as their values. -/
theorem digits (hs : ∀ c ∈ s, c.isDigit) (ht : ∀ c ∈ t, c.isDigit) (h : s.length = t.length) :
    CompareAs s t (Numeral.value s) (Numeral.value t) := by
  induction s generalizing t with
  | nil =>
      obtain rfl := List.length_eq_zero_iff.mp h.symm
      exact ⟨rfl, by simp, by simp⟩
  | cons c s ih =>
      cases t with
      | nil => cases h
      | cons d t =>
          have hlength : s.length = t.length := Nat.succ.inj h
          have hs' : ∀ c ∈ s, c.isDigit := fun c hc => hs c (List.mem_cons_of_mem _ hc)
          have ht' : ∀ c ∈ t, c.isDigit := fun c hc => ht c (List.mem_cons_of_mem _ hc)
          have hfirst := digit (hs c List.mem_cons_self) (ht d List.mem_cons_self)
          have hbound : (0 : ℤ) ≤ Numeral.value s ∧ (Numeral.value s : ℤ) < 10 ^ s.length :=
            ⟨Int.natCast_nonneg _, by exact_mod_cast Numeral.value_lt hs'⟩
          have hbound' : (0 : ℤ) ≤ Numeral.value t ∧ (Numeral.value t : ℤ) < 10 ^ s.length := by
            rw [hlength]
            exact ⟨Int.natCast_nonneg _, by exact_mod_cast Numeral.value_lt ht'⟩
          rw [Numeral.value_cons c s, Numeral.value_cons d t, ← hlength]
          push_cast
          exact hfirst.append (ih hs' ht' hlength) hbound hbound'

end CompareAs

end Text

end HostGauge
