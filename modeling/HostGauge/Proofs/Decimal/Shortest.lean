import HostGauge.Decimal.Shortest
import Mathlib

/-!
Bounds of the shortest decimal. It lies within the rounding interval of its number where the
search finds one; for a large number it does, since a power of ten that is below a quarter of the
last binary place is among those that are tried.
-/
namespace HostGauge.Decimal

open Float.Model (UnpackedFloat Format)
open Float.Model.UnpackedFloat (unpackExponent)

variable {x : Binary} {k : ℤ} {c : ℕ} {d : Digits}

/-! ### What the search finds -/

theorem roundsTo_le (h : roundsTo x k c = true) : c * unit x k ≤ x.high * quarter x k := by
  unfold roundsTo at h
  dsimp only at h
  split at h
  · exact of_decide_eq_true (Bool.and_eq_true_iff.mp h).2
  · exact Nat.le_of_lt (of_decide_eq_true (Bool.and_eq_true_iff.mp h).2)

theorem nearest?_spec (h : nearest? x k = some c) : c ≠ 0 ∧ roundsTo x k c = true := by
  unfold nearest? at h
  dsimp only at h
  generalize 4 * x.mantissa * quarter x k / unit x k = below at h
  have hbelow : ∀ {p : Bool}, (decide (below ≠ 0) && p) = true → below ≠ 0 ∧ p = true := by
    intro p hp
    obtain ⟨hne, hp⟩ := Bool.and_eq_true_iff.mp hp
    exact ⟨of_decide_eq_true hne, hp⟩
  have habove : roundsTo x k (below + 1) = true →
      below + 1 ≠ 0 ∧ roundsTo x k (below + 1) = true := fun hp => ⟨Nat.succ_ne_zero _, hp⟩
  split at h
  case isTrue hboth =>
    obtain ⟨hfirst, hsecond⟩ := Bool.and_eq_true_iff.mp hboth
    split at h
    · cases h
      exact hbelow hfirst
    · split at h
      · cases h
        exact habove hsecond
      · split at h
        · cases h
          exact hbelow hfirst
        · cases h
          exact habove hsecond
  case isFalse =>
    split at h
    case isTrue hfirst =>
      cases h
      exact hbelow hfirst
    case isFalse =>
      split at h
      case isTrue hsecond =>
        cases h
        exact habove hsecond
      case isFalse => cases h

theorem search_spec {steps : ℕ} (h : search x steps k = some d) :
    nearest? x d.exponent = some d.digits := by
  induction steps generalizing k with
  | zero => cases h
  | succ steps ih =>
      rw [search] at h
      split at h
      case h_1 c hc =>
        cases h
        exact hc
      case h_2 => exact ih h

/-- A power of ten with a multiple in the interval is found, or one above it. -/
theorem isSome_search {steps j : ℕ} (hj : j < steps) (h : (nearest? x (k - j)).isSome) :
    (search x steps k).isSome := by
  induction steps generalizing k j with
  | zero => exact absurd hj (Nat.not_lt_zero j)
  | succ steps ih =>
      rw [search]
      split
      case h_1 => rfl
      case h_2 hnone =>
        cases j with
        | zero =>
            rw [Int.natCast_zero, Int.sub_zero, hnone] at h
            cases h
        | succ j =>
            refine ih (j := j) (by omega) ?_
            have hsame : k - 1 - (j : ℤ) = k - (j + 1 : ℕ) := by omega
            rwa [hsame]

/-- Of multiples less than half of a last binary place apart one rounds to the number. -/
theorem isSome_nearest? (h : unit x k < 2 * quarter x k) :
    (nearest? x k).isSome := by
  have hunit : 0 < unit x k :=
    Nat.mul_pos (Nat.pow_pos (by decide)) (Nat.pow_pos (by decide))
  have hdiv := Nat.div_add_mod (4 * x.mantissa * quarter x k) (unit x k)
  have hmod := Nat.mod_lt (4 * x.mantissa * quarter x k) hunit
  have habove : roundsTo x k (4 * x.mantissa * quarter x k / unit x k + 1) = true := by
    generalize 4 * x.mantissa * quarter x k / unit x k = below at *
    have hnext : (below + 1) * unit x k = unit x k * below + unit x k := by ring
    have hlow : x.low * quarter x k < (below + 1) * unit x k := by
      have hle : x.low * quarter x k ≤ 4 * x.mantissa * quarter x k :=
        Nat.mul_le_mul_right _ (Nat.sub_le ..)
      omega
    have hhigh : (below + 1) * unit x k < x.high * quarter x k := by
      have hhalf : x.high * quarter x k = 4 * x.mantissa * quarter x k + 2 * quarter x k :=
        Nat.add_mul ..
      omega
    unfold roundsTo
    dsimp only
    split
    · simp [Nat.le_of_lt hlow, Nat.le_of_lt hhigh]
    · simp [hlow, hhigh]
  unfold nearest?
  dsimp only
  rw [habove, Bool.and_true]
  split
  · split
    · rfl
    · split <;> rfl
  · rfl

/-! ### Bounds -/

/-- The leading digits `s` of the decimal, with `u` zeros for the digits after them, make up a
number up to the bound, unless it has a fraction. -/
def Digits.AtMost (d : Digits) (bound : ℕ) : Prop :=
  ∀ s u : ℕ, s * 10 ^ u ≤ d.digits → 0 ≤ d.exponent + u →
    s * 10 ^ (d.exponent + u).toNat ≤ bound

theorem Digits.AtMost.mono {bound bound' : ℕ} (h : d.AtMost bound) (hle : bound ≤ bound') :
    d.AtMost bound' := fun s u hs hu => (h s u hs hu).trans hle

theorem atMost_of_roundsTo (h : roundsTo x k c = true) :
    Digits.AtMost ⟨c, k⟩ (x.high * 2 ^ (x.exponent - 2).toNat) := by
  intro s u hs hu
  have hle := roundsTo_le h
  have hsplit : (k + u).toNat + (-k).toNat = u + k.toNat := by
    change 0 ≤ k + u at hu
    omega
  refine Nat.le_of_mul_le_mul_right ?_ (Nat.pow_pos (by decide) : 0 < 10 ^ (-k).toNat)
  calc s * 10 ^ (k + u).toNat * 10 ^ (-k).toNat = s * 10 ^ u * 10 ^ k.toNat := by
        rw [Nat.mul_assoc, ← Nat.pow_add, hsplit, Nat.pow_add, Nat.mul_assoc]
    _ ≤ c * 10 ^ k.toNat := Nat.mul_le_mul_right _ hs
    _ ≤ c * unit x k :=
        Nat.mul_le_mul_left _ (Nat.le_mul_of_pos_right _ (Nat.two_pow_pos _))
    _ ≤ x.high * quarter x k := hle
    _ = x.high * 2 ^ (x.exponent - 2).toNat * 10 ^ (-k).toNat := (Nat.mul_assoc ..).symm

theorem shortest_of_search (h : search x 24 (topPower x) = some d) : shortest x = d := by
  rw [shortest, h]
  rfl

theorem shortest_of_not_search (h : search x 24 (topPower x) = none) :
    shortest x = ⟨x.mantissa, x.exponent⟩ := by
  rw [shortest, h]
  rfl

theorem digits_shortest_ne_zero (hx : 0 < x.mantissa) : (shortest x).digits ≠ 0 := by
  cases h : search x 24 (topPower x) with
  | none =>
      rw [shortest_of_not_search h]
      exact hx.ne'
  | some d =>
      rw [shortest_of_search h]
      exact (nearest?_spec (search_spec h)).1

/-- The power of ten that the search starts from is not far above the number. -/
theorem ten_pow_lt {n q : ℕ} (hn : n ≤ 1100) (hq : q = n * 30103 / 100000) :
    10 ^ q < 2 ^ (n + 5) := by
  have hcube : (10 ^ q) ^ 3 < (2 ^ (n + 5)) ^ 3 := by
    calc (10 ^ q) ^ 3 = (10 ^ 3) ^ q := Nat.pow_right_comm ..
      _ ≤ (2 ^ 10) ^ q := Nat.pow_le_pow_left (by decide) q
      _ = 2 ^ (10 * q) := (Nat.pow_mul ..).symm
      _ < 2 ^ ((n + 5) * 3) := Nat.pow_lt_pow_right Nat.one_lt_two (by omega)
      _ = (2 ^ (n + 5)) ^ 3 := Nat.pow_mul ..
  exact lt_of_pow_lt_pow_left' 3 hcube

/-- The search finds a decimal of a large number. -/
theorem isSome_search_of_large (hlog : x.mantissa.log2 = 52) (hlow : 100 ≤ x.exponent)
    (hhigh : x.exponent ≤ 971) : (search x 24 (topPower x)).isSome := by
  obtain ⟨e, he⟩ := Int.eq_ofNat_of_zero_le (by omega : 0 ≤ x.exponent)
  obtain ⟨q, hq⟩ : ∃ q, q = (52 + e) * 30103 / 100000 := ⟨_, rfl⟩
  have htop : topPower x - (21 : ℕ) = (q - 19 : ℕ) := by
    rw [topPower, hlog, he]
    omega
  refine isSome_search (j := 21) (by decide) ?_
  rw [htop]
  refine isSome_nearest? ?_
  have hunit : unit x (q - 19 : ℕ) = 10 ^ (q - 19) := by
    have hexponent : (2 - x.exponent).toNat = 0 := by omega
    rw [unit, hexponent, Int.toNat_natCast]
    exact Nat.mul_one _
  have hquarter : quarter x (q - 19 : ℕ) = 2 ^ (e - 2) := by
    have hexponent : (x.exponent - 2).toNat = e - 2 := by omega
    have hten : (-((q - 19 : ℕ) : ℤ)).toNat = 0 := by omega
    rw [quarter, hexponent, hten]
    exact Nat.mul_one _
  rw [hunit, hquarter]
  -- the number is near 10 ^ q, and 19 digits of it are finer than its last binary place
  have hscaled : 10 ^ (q - 19) * 2 ^ 63 < 2 * 2 ^ (e - 2) * 2 ^ 63 := by
    calc 10 ^ (q - 19) * 2 ^ 63 ≤ 10 ^ (q - 19) * 10 ^ 19 := Nat.mul_le_mul_left _ (by decide)
      _ = 10 ^ q := by
          rw [← Nat.pow_add]
          congr 1
          omega
      _ < 2 ^ (52 + e + 5) := ten_pow_lt (by omega) hq
      _ ≤ 2 ^ (1 + (e - 2) + 63) := Nat.pow_le_pow_right Nat.two_pos (by omega)
      _ = 2 * 2 ^ (e - 2) * 2 ^ 63 := by rw [Nat.pow_add, Nat.pow_add]
  exact Nat.lt_of_mul_lt_mul_right hscaled

/-- A large number bounds its shortest decimal by the end of its rounding interval. -/
theorem atMost_shortest_of_large (hlog : x.mantissa.log2 = 52) (hlow : 100 ≤ x.exponent)
    (hhigh : x.exponent ≤ 971) :
    (shortest x).AtMost (x.high * 2 ^ (x.exponent - 2).toNat) := by
  obtain ⟨d, hd⟩ := Option.isSome_iff_exists.mp (isSome_search_of_large hlog hlow hhigh)
  rw [shortest_of_search hd]
  exact atMost_of_roundsTo (nearest?_spec (search_spec hd)).2

/-- A small number has a shortest decimal far below the end of the range. -/
theorem atMost_shortest_of_small (hx : x.mantissa < 2 ^ 53) (he : x.exponent < 100) :
    (shortest x).AtMost (2 ^ 53 * 10 ^ 100) := by
  cases h : search x 24 (topPower x) with
  | some d =>
      rw [shortest_of_search h]
      refine (atMost_of_roundsTo (nearest?_spec (search_spec h)).2).mono ?_
      have hhigh : x.high ≤ 2 ^ 53 * 2 ^ 2 := by
        rw [Binary.high]
        omega
      calc x.high * 2 ^ (x.exponent - 2).toNat ≤ 2 ^ 53 * 2 ^ 2 * 2 ^ 98 :=
            Nat.mul_le_mul hhigh (Nat.pow_le_pow_right Nat.two_pos (by omega))
        _ = 2 ^ 53 * 2 ^ 100 := by rw [Nat.mul_assoc, ← Nat.pow_add]
        _ ≤ 2 ^ 53 * 10 ^ 100 := Nat.mul_le_mul_left _ (Nat.pow_le_pow_left (by decide) 100)
  | none =>
      rw [shortest_of_not_search h]
      intro s u hs hu
      change s * 10 ^ u ≤ x.mantissa at hs
      change 0 ≤ x.exponent + u at hu
      change s * 10 ^ (x.exponent + u).toNat ≤ 2 ^ 53 * 10 ^ 100
      calc s * 10 ^ (x.exponent + u).toNat ≤ s * 10 ^ (u + 100) :=
            Nat.mul_le_mul_left _ (Nat.pow_le_pow_right (by decide) (by omega))
        _ = s * 10 ^ u * 10 ^ 100 := by rw [Nat.pow_add, Nat.mul_assoc]
        _ ≤ 2 ^ 53 * 10 ^ 100 := Nat.mul_le_mul_right _ (hs.trans hx.le)

/-- The numbers that the format has, as far as the ends of its range go. -/
structure Binary.InRange (x : Binary) : Prop where
  mantissa_lt : x.mantissa < 2 ^ 53
  exponent_le : x.exponent ≤ 971
  log2_eq : 100 ≤ x.exponent → x.mantissa.log2 = 52
  narrowBelow_eq : x.mantissa ≠ 2 ^ 52 → x.narrowBelow = false

/-- Apart from the eight largest numbers the rounding interval keeps a distance from the end of
the range. -/
theorem Binary.InRange.atMost (hx : x.InRange)
    (h : x.exponent = 971 → x.mantissa + 9 ≤ 2 ^ 53) :
    (shortest x).AtMost ((2 ^ 54 - 17) * 2 ^ 970) := by
  have hlt := hx.mantissa_lt
  by_cases hlow : 100 ≤ x.exponent
  case neg =>
    refine (atMost_shortest_of_small hlt (Int.not_le.mp hlow)).mono ?_
    decide +kernel
  case pos =>
    refine (atMost_shortest_of_large (hx.log2_eq hlow) hlow hx.exponent_le).mono ?_
    have hexponent := hx.exponent_le
    rw [Binary.high]
    by_cases htop : x.exponent = 971
    · have hmantissa := h htop
      have htoNat : (x.exponent - 2).toNat = 969 := by omega
      rw [htoNat]
      calc (4 * x.mantissa + 2) * 2 ^ 969 ≤ (2 ^ 54 - 17) * 2 * 2 ^ 969 :=
            Nat.mul_le_mul_right _ (by omega)
        _ = (2 ^ 54 - 17) * 2 ^ 970 := by decide +kernel
    · calc (4 * x.mantissa + 2) * 2 ^ (x.exponent - 2).toNat ≤ 2 ^ 55 * 2 ^ 968 :=
            Nat.mul_le_mul (by omega) (Nat.pow_le_pow_right Nat.two_pos (by omega))
        _ ≤ (2 ^ 54 - 17) * 2 ^ 970 := by decide +kernel

/-- The leading digits of a number in the range stand for no power of ten beyond the range. -/
theorem Binary.InRange.exponent_add_le (hx : x.InRange) {s u : ℕ} (hs : 0 < s)
    (hle : s * 10 ^ u ≤ (shortest x).digits) : (shortest x).exponent + u ≤ 308 := by
  have hlt := hx.mantissa_lt
  have hexponent := hx.exponent_le
  have hbound : (shortest x).AtMost (2 ^ 55 * 2 ^ 969) := by
    by_cases hlow : 100 ≤ x.exponent
    case neg =>
      refine (atMost_shortest_of_small hlt (Int.not_le.mp hlow)).mono ?_
      decide +kernel
    case pos =>
      refine (atMost_shortest_of_large (hx.log2_eq hlow) hlow hexponent).mono ?_
      have hhigh : x.high ≤ 2 ^ 55 := by
        rw [Binary.high]
        omega
      have hpower : 2 ^ (x.exponent - 2).toNat ≤ 2 ^ 969 :=
        pow_le_pow_right₀ one_le_two (by omega)
      exact Nat.mul_le_mul hhigh hpower
  by_contra hgreater
  have hpower : 10 ^ 309 ≤ 2 ^ 55 * 2 ^ 969 := by
    calc 10 ^ 309 ≤ 10 ^ ((shortest x).exponent + u).toNat :=
          pow_le_pow_right₀ (by decide) (by omega)
      _ ≤ s * 10 ^ ((shortest x).exponent + u).toNat := Nat.le_mul_of_pos_left _ hs
      _ ≤ 2 ^ 55 * 2 ^ 969 := hbound s u hle (by omega)
  exact absurd hpower (by decide +kernel)

/-! ### Finite floats -/

theorem toNat_unpackExponent (b : BitVec Format.binary64.numBits) :
    (@unpackExponent Format.binary64 b).toNat = b.toNat / 2 ^ 52 % 2 ^ 11 := by
  rw [unpackExponent, BitVec.toNat_cast, BitVec.extractLsb_toNat, Nat.shiftRight_eq_div_pow]
  rfl

/-- A finite float does not have the largest exponent of the format. -/
theorem biased_ne_of_isFinite {f : Float} (h : f.isFinite = true) :
    f.toBits.toNat / 2 ^ 52 % 2 ^ 11 ≠ 2047 := by
  intro hbiased
  have hall : @unpackExponent Format.binary64 f.toBits.toBitVec = -1#11 :=
    BitVec.eq_of_toNat_eq ((toNat_unpackExponent _).trans hbiased)
  have hspecial : (UnpackedFloat.unpack Format.binary64 f.toBits.toBitVec).isFinite = false := by
    simp only [UnpackedFloat.unpack]
    rw [if_pos hall]
    split <;> rfl
  exact Bool.false_ne_true (hspecial.symm.trans h)

theorem inRange_ofBits {f : Float} (h : f.isFinite = true) :
    (Binary.ofBits f.toBits).InRange := by
  have hbiased := biased_ne_of_isFinite h
  have hpow : Nat.pow 2 52 = 2 ^ 52 ∧ Nat.pow 2 11 = 2 ^ 11 := ⟨rfl, rfl⟩
  unfold Binary.ofBits
  dsimp only
  rw [hpow.1, hpow.2]
  generalize f.toBits.toNat = bits at *
  split
  case isTrue =>
    have hsmall : ¬ (100 : ℤ) ≤ -1074 := by decide
    exact ⟨by dsimp only; omega, by dsimp only; omega, fun he => absurd he hsmall, fun _ => rfl⟩
  case isFalse =>
    refine ⟨by dsimp only; omega, by dsimp only; omega, fun _ => ?_, fun hne => ?_⟩
    · exact (Nat.log2_eq_iff (by dsimp only; omega)).mpr (by dsimp only; omega)
    · change bits % 2 ^ 52 + 2 ^ 52 ≠ 2 ^ 52 at hne
      have hfraction : bits % 2 ^ 52 ≠ 0 := by omega
      change (decide (bits % 2 ^ 52 = 0) && _) = false
      rw [decide_eq_false hfraction, Bool.false_and]

end HostGauge.Decimal
