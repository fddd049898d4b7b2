import HostGauge.Proofs.Counter

/-!
The arithmetic of a difference, operation by operation. Of its remainders, its sum and its
subtraction only the sum can leave the words that it is formed in, and it does so for a modulus
within a reading of their end.
-/
namespace HostGauge

/-! ### Words with every operation checked -/

namespace Wide

def add? (a b : Wide) : Option Wide := if a.uaddOverflow b then none else some (a + b)

def sub? (a b : Wide) : Option Wide := if a.usubOverflow b then none else some (a - b)

def mod? (a b : Wide) : Option Wide := if b = 0 then none else some (a % b)

variable {a b : Wide}

theorem add?_of_lt (h : a.toNat + b.toNat < 2 ^ 128) : add? a b = some (a + b) := by
  apply if_neg
  simpa [BitVec.uaddOverflow] using h

theorem add?_of_le (h : 2 ^ 128 ≤ a.toNat + b.toNat) : add? a b = none := by
  apply if_pos
  simpa [BitVec.uaddOverflow] using h

theorem sub?_of_le (h : b ≤ a) : sub? a b = some (a - b) := by
  apply if_neg
  rw [BitVec.le_def] at h
  simpa [BitVec.usubOverflow] using h

theorem mod?_of_ne_zero (h : b ≠ 0) : mod? a b = some (a % b) := if_neg h

end Wide

/-- `(modulus + new - old) mod modulus`, refused as soon as one operation leaves the words. -/
def checkedDelta? (old new : UInt64) (modulus : Wide) : Option Wide := do
  let old ← Wide.mod? (old.toBitVec.setWidth 128) modulus
  let new ← Wide.mod? (new.toBitVec.setWidth 128) modulus
  let sum ← Wide.add? modulus new
  let difference ← Wide.sub? sum old
  Wide.mod? difference modulus

variable {m : Wide} {old new : UInt64}

theorem checkedDelta?_of_ne_zero (hm : m ≠ 0) :
    checkedDelta? old new m =
      (Wide.add? m (m.reduced new)).bind fun sum =>
        (Wide.sub? sum (m.reduced old)).bind fun difference => some (difference % m) := by
  simp only [checkedDelta?, Wide.mod?_of_ne_zero hm, Wide.reduced, Option.bind_eq_bind,
    Option.bind_some]

/-- No operation fails but the ones that a difference has no answer for. -/
theorem checkedDelta?_eq (old new : UInt64) (m : Wide) :
    checkedDelta? old new m = counterDelta? old new m := by
  by_cases hm : m = 0
  · subst hm
    rfl
  · rw [checkedDelta?_of_ne_zero hm]
    by_cases hroom : m.toNat + new.toNat % m.toNat < 2 ^ 128
    · have hsum : Wide.add? m (m.reduced new) = some (m + m.reduced new) := by
        apply Wide.add?_of_lt
        rwa [Wide.toNat_reduced]
      rw [hsum, Option.bind_some, Wide.sub?_of_le (reduced_le_add_reduced hm hroom),
        Option.bind_some, counterDelta?_of_lt hm hroom]
    · rw [Nat.not_lt] at hroom
      have hsum : Wide.add? m (m.reduced new) = none := by
        apply Wide.add?_of_le
        rwa [Wide.toNat_reduced]
      rw [hsum, Option.bind_none, counterDelta?_of_le hroom]

/-- The difference of two readings modulo any modulus other than zero. Only the sum of the modulus
and the reduced new reading can leave the words, and exactly then there is no answer. Otherwise
the answer is the one number below the modulus that leads from the old reading to the new one.
Either width of a counter is answered, and its answer fits into the word of a reading. -/
theorem difference_represented (old new : UInt64) (m : Wide) :
    checkedDelta? old new m = counterDelta? old new m ∧
    (counterDelta? old new m = none ↔ m = 0 ∨ 2 ^ 128 ≤ m.toNat + new.toNat % m.toNat) ∧
    (∀ d, counterDelta? old new m = some d →
      d.toNat < m.toNat ∧ d.toNat + old.toNat ≡ new.toNat [MOD m.toNat] ∧
      ∀ r < m.toNat, r + old.toNat ≡ new.toNat [MOD m.toNat] → r = d.toNat) ∧
    ∀ width : CounterModulus, ∃ d, counterDelta? old new width.value = some d ∧
      (width.delta old new).toNat = d.toNat := by
  refine ⟨checkedDelta?_eq old new m, counterDelta?_eq_none_iff, fun d hd => ?_, fun width => ?_⟩
  · refine ⟨counterDelta?_lt hd, counterDelta?_modEq hd, ?_⟩
    intro r hr hcong
    have hsame : r ≡ d.toNat [MOD m.toNat] :=
      Nat.ModEq.add_right_cancel' old.toNat (hcong.trans (counterDelta?_modEq hd).symm)
    exact hsame.eq_of_lt_of_lt hr (counterDelta?_lt hd)
  · obtain ⟨d, hd⟩ := width.exists_counterDelta?_value old new
    exact ⟨d, hd, CounterModulus.toNat_delta_of_counterDelta? hd⟩

/-- The largest modulus leaves no room for the sum with a reading of one. -/
theorem largest_modulus_overflows :
    let m : Wide := BitVec.allOnes 128
    m ≠ 0 ∧ Wide.add? m (m.reduced 1) = none ∧ counterDelta? 0 1 m = none ∧
      1 < m.toNat ∧ 1 + (0 : UInt64).toNat ≡ (1 : UInt64).toNat [MOD m.toNat] := by
  decide

end HostGauge
