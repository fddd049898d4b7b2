import HostGauge.Counter
import Mathlib.Data.Int.ModEq
import Mathlib.Data.List.Chain

/-!
Differences of wrapping counters. Where the sum of a modulus and a reading fits into the words in
which differences are formed, the difference is the one of the readings modulo the modulus. Both
word widths leave that room, so the amounts along a list of readings add up to the difference of
its ends.
-/
namespace HostGauge

/-! ### Any modulus -/

namespace Wide

theorem toNat_pos {a : Wide} (h : a ≠ 0) : 0 < a.toNat := by
  apply Nat.pos_of_ne_zero
  intro hzero
  exact h (BitVec.eq_of_toNat_eq hzero)

/-- A reading as it enters a difference. -/
def reduced (m : Wide) (w : UInt64) : Wide := w.toBitVec.setWidth 128 % m

@[simp] theorem toNat_reduced (m : Wide) (w : UInt64) :
    (reduced m w).toNat = w.toNat % m.toNat := by
  have hw : (w.toBitVec.setWidth 128).toNat = w.toBitVec.toNat :=
    BitVec.toNat_setWidth_of_le (by decide)
  rw [reduced, BitVec.toNat_umod, hw, UInt64.toNat_toBitVec]

end Wide

section Modulus

variable {m : Wide} {old new : UInt64}

theorem toNat_add_reduced (hroom : m.toNat + new.toNat % m.toNat < 2 ^ 128) :
    (m + m.reduced new).toNat = m.toNat + new.toNat % m.toNat := by
  rw [← Wide.toNat_reduced] at hroom ⊢
  exact BitVec.toNat_add_of_lt hroom

/-- A modulus bounds what is subtracted from its sum with a reading. -/
theorem reduced_le_add_reduced (hm : m ≠ 0) (hroom : m.toNat + new.toNat % m.toNat < 2 ^ 128) :
    m.reduced old ≤ m + m.reduced new := by
  have hlt : old.toNat % m.toNat < m.toNat := Nat.mod_lt _ (Wide.toNat_pos hm)
  rw [BitVec.le_def, toNat_add_reduced hroom, Wide.toNat_reduced]
  omega

theorem counterDelta?_of_lt (hm : m ≠ 0) (hroom : m.toNat + new.toNat % m.toNat < 2 ^ 128) :
    counterDelta? old new m = some ((m + m.reduced new - m.reduced old) % m) := by
  have hfits : m.uaddOverflow (m.reduced new) = false := by
    rw [← Wide.toNat_reduced] at hroom
    simpa [BitVec.uaddOverflow] using hroom
  unfold Wide.reduced at hfits ⊢
  simp only [counterDelta?, if_neg hm, hfits, Bool.false_eq_true, if_false]

theorem counterDelta?_of_le (hfull : 2 ^ 128 ≤ m.toNat + new.toNat % m.toNat) :
    counterDelta? old new m = none := by
  have hover : m.uaddOverflow (m.reduced new) = true := by
    rw [← Wide.toNat_reduced] at hfull
    simpa [BitVec.uaddOverflow] using hfull
  unfold Wide.reduced at hover
  simp only [counterDelta?, hover, if_true, ite_self]

theorem counterDelta?_eq_none_iff :
    counterDelta? old new m = none ↔ m = 0 ∨ 2 ^ 128 ≤ m.toNat + new.toNat % m.toNat := by
  constructor
  · intro hnone
    by_contra hanswer
    rw [not_or, Nat.not_le] at hanswer
    rw [counterDelta?_of_lt hanswer.1 hanswer.2] at hnone
    cases hnone
  · rintro (rfl | hfull)
    · exact if_pos rfl
    · exact counterDelta?_of_le hfull

theorem room_of_counterDelta? {d : Wide} (h : counterDelta? old new m = some d) :
    m ≠ 0 ∧ m.toNat + new.toNat % m.toNat < 2 ^ 128 := by
  have hanswer : ¬ (m = 0 ∨ 2 ^ 128 ≤ m.toNat + new.toNat % m.toNat) := by
    intro hnone
    rw [counterDelta?_eq_none_iff.mpr hnone] at h
    cases h
  rwa [not_or, Nat.not_le] at hanswer

theorem toNat_counterDelta? {d : Wide} (h : counterDelta? old new m = some d) :
    d.toNat = (m.toNat + new.toNat % m.toNat - old.toNat % m.toNat) % m.toNat := by
  obtain ⟨hm, hroom⟩ := room_of_counterDelta? h
  rw [counterDelta?_of_lt hm hroom] at h
  cases h
  rw [BitVec.toNat_umod, BitVec.toNat_sub_of_le (reduced_le_add_reduced hm hroom),
    toNat_add_reduced hroom, Wide.toNat_reduced]

theorem natCast_counterDelta? {d : Wide} (h : counterDelta? old new m = some d) :
    (d.toNat : ℤ) = ((new.toNat : ℤ) - old.toNat) % m.toNat := by
  have hlt : old.toNat % m.toNat < m.toNat :=
    Nat.mod_lt _ (Wide.toNat_pos (room_of_counterDelta? h).1)
  rw [toNat_counterDelta? h, Int.natCast_mod, Nat.cast_sub (by omega), Nat.cast_add,
    Int.natCast_mod, Int.natCast_mod, Int.sub_emod, Int.add_emod_left, Int.emod_emod,
    Int.emod_emod, ← Int.sub_emod]

theorem counterDelta?_lt {d : Wide} (h : counterDelta? old new m = some d) :
    d.toNat < m.toNat := by
  rw [toNat_counterDelta? h]
  exact Nat.mod_lt _ (Wide.toNat_pos (room_of_counterDelta? h).1)

theorem counterDelta?_modEq {d : Wide} (h : counterDelta? old new m = some d) :
    d.toNat + old.toNat ≡ new.toNat [MOD m.toNat] := by
  have hcong : (d.toNat : ℤ) ≡ new.toNat - old.toNat [ZMOD m.toNat] := by
    rw [natCast_counterDelta? h]
    exact Int.mod_modEq _ _
  have hsum := hcong.add_right (old.toNat : ℤ)
  rw [sub_add_cancel, ← Nat.cast_add] at hsum
  exact Int.natCast_modEq_iff.mp hsum

end Modulus

namespace CounterModulus

variable (m : CounterModulus)

theorem value_ne_zero : m.value ≠ 0 := by cases m <;> decide

theorem value_pos : 0 < m.value.toNat := Wide.toNat_pos m.value_ne_zero

theorem value_le : m.value.toNat ≤ 2 ^ 64 := by cases m <;> decide

/-- The words in which differences are formed leave room for either width. -/
theorem exists_counterDelta?_value (old new : UInt64) :
    ∃ d, counterDelta? old new m.value = some d := by
  have hle := m.value_le
  have hlt : new.toNat % m.value.toNat < m.value.toNat := Nat.mod_lt _ m.value_pos
  exact ⟨_, counterDelta?_of_lt m.value_ne_zero (by omega)⟩

/-- A difference modulo either width fits into the word of a counter. -/
theorem toNat_delta_of_counterDelta? {m : CounterModulus} {old new : UInt64} {d : Wide}
    (h : counterDelta? old new m.value = some d) : (m.delta old new).toNat = d.toNat := by
  have hlt : d.toNat < 2 ^ 64 := (counterDelta?_lt h).trans_le m.value_le
  simp only [delta, h, UInt64.toNat, BitVec.toNat_setWidth]
  exact Nat.mod_eq_of_lt hlt

theorem natCast_delta (old new : UInt64) :
    ((m.delta old new).toNat : ℤ) = ((new.toNat : ℤ) - old.toNat) % m.value.toNat := by
  obtain ⟨d, hd⟩ := m.exists_counterDelta?_value old new
  rw [toNat_delta_of_counterDelta? hd, natCast_counterDelta? hd]

theorem delta_modEq (old new : UInt64) :
    ((m.delta old new).toNat : ℤ) ≡ new.toNat - old.toNat [ZMOD m.value.toNat] := by
  rw [natCast_delta]
  exact Int.mod_modEq _ _

theorem delta_lt (old new : UInt64) : (m.delta old new).toNat < m.value.toNat := by
  obtain ⟨d, hd⟩ := m.exists_counterDelta?_value old new
  rw [toNat_delta_of_counterDelta? hd]
  exact counterDelta?_lt hd

theorem delta_eq_zero_iff (old new : UInt64) :
    m.delta old new = 0 ↔ old.toNat ≡ new.toNat [MOD m.value.toNat] := by
  have hzero : m.delta old new = 0 ↔ ((m.delta old new).toNat : ℤ) = 0 := by
    rw [← UInt64.toNat_inj, Int.natCast_eq_zero]
    rfl
  rw [hzero, natCast_delta, ← Int.dvd_iff_emod_eq_zero, Nat.modEq_iff_dvd]

/-! ### Along a list of readings -/

/-- The amounts a counter moved from each reading to the next. -/
def deltas : UInt64 → List UInt64 → List ℕ
  | _, [] => []
  | old, new :: rest => (m.delta old new).toNat :: deltas new rest

theorem sum_deltas_modEq (first : UInt64) (rest : List UInt64) :
    ((m.deltas first rest).sum : ℤ) ≡
      (rest.getLastD first).toNat - first.toNat [ZMOD m.value.toNat] := by
  induction rest generalizing first with
  | nil => simp [deltas]
  | cons new rest ih =>
      have hsplit : ((rest.getLastD new).toNat : ℤ) - first.toNat =
          (new.toNat - first.toNat) + ((rest.getLastD new).toNat - new.toNat) := by omega
      rw [deltas, List.sum_cons, Nat.cast_add, List.getLastD_cons, hsplit]
      exact (m.delta_modEq first new).add (ih new)

/-- The totals behind the readings of a counter: each reading shows its total modulo the width,
and no two successive totals are a whole width apart. -/
structure Totals (readings : List UInt64) (totals : List ℕ) : Prop where
  shown : List.Forall₂ (fun r t => r.toNat ≡ t [MOD m.value.toNat]) readings totals
  steps : totals.IsChain fun t u => t ≤ u ∧ u < t + m.value.toNat

variable {m}

theorem delta_of_modEq {old new : UInt64} {t u : ℕ} (ht : old.toNat ≡ t [MOD m.value.toNat])
    (hu : new.toNat ≡ u [MOD m.value.toNat]) (hle : t ≤ u) (hlt : u < t + m.value.toNat) :
    t + (m.delta old new).toNat = u := by
  have hcong : ((m.delta old new).toNat : ℤ) ≡ ((u - t : ℕ) : ℤ) [ZMOD m.value.toNat] := by
    rw [Nat.cast_sub hle]
    exact (m.delta_modEq old new).trans
      ((Int.natCast_modEq_iff.mpr hu).sub (Int.natCast_modEq_iff.mpr ht))
  have hnat := Int.natCast_modEq_iff.mp hcong
  have heq : (m.delta old new).toNat = u - t :=
    hnat.eq_of_lt_of_lt (m.delta_lt old new) (by omega)
  omega

theorem sum_deltas_of_totals {first : UInt64} {rest : List UInt64} {t : ℕ} {ts : List ℕ}
    (h : m.Totals (first :: rest) (t :: ts)) : t + (m.deltas first rest).sum = ts.getLastD t := by
  induction rest generalizing first t ts with
  | nil =>
      obtain ⟨hshown, -⟩ := h
      cases hshown with
      | cons _ hnil => cases hnil; simp [deltas]
  | cons new rest ih =>
      obtain ⟨hshown, hsteps⟩ := h
      cases hshown with
      | cons ht hrest =>
          cases hrest with
          | @cons _ u _ us hu hus =>
              rw [List.isChain_cons_cons] at hsteps
              have hstep := delta_of_modEq ht hu hsteps.1.1 hsteps.1.2
              have htail : m.Totals (new :: rest) (u :: us) := ⟨.cons hu hus, hsteps.2⟩
              have hlast := ih htail
              rw [deltas, List.sum_cons, List.getLastD_cons, ← Nat.add_assoc, hstep, hlast]

end CounterModulus

end HostGauge
