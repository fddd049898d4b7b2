import Mathlib

/-!
Rounding to the 64-bit binary format, as far as the products of naturals with powers of ten need
it. A mantissa moves by half of a last place at most, so that a product is finite where the exact
one is below the largest number by a little more than the roundings can add.
-/
namespace HostGauge.Decimal

open Float.Model (UnpackedFloat Format)
open Float.Model.UnpackedFloat

variable {m n M V W : ℕ} {e E : ℤ} {u w : UnpackedFloat} {s : Sign}

/-! ### Shifting and rounding a mantissa -/

/-- What was shifted out of a mantissa is below one place, and it is a half at least where the
round bit says so. -/
def Shifted (M n : ℕ) (em : ExtendedMantissa) : Prop :=
  ∃ out, M = em.mantissa * 2 ^ n + out ∧ out < 2 ^ n ∧ (em.roundBit = true → 2 ^ n ≤ 2 * out)

theorem shifted_zero (M : ℕ) : Shifted M 0 ⟨M, false, false⟩ :=
  ⟨0, by simp, by simp, by simp⟩

theorem Shifted.shiftRightOne {em : ExtendedMantissa} (h : Shifted M n em) :
    Shifted M (n + 1) em.shiftRightOne := by
  obtain ⟨out, hM, hout, -⟩ := h
  have hdiv := Nat.div_add_mod em.mantissa 2
  have hlt := Nat.mod_lt em.mantissa Nat.two_pos
  refine ⟨em.mantissa % 2 * 2 ^ n + out, ?_, ?_, ?_⟩
  · calc M = (2 * (em.mantissa / 2) + em.mantissa % 2) * 2 ^ n + out := by rw [hdiv, hM]
      _ = em.mantissa / 2 * 2 ^ (n + 1) + (em.mantissa % 2 * 2 ^ n + out) := by ring
  · rw [Nat.pow_succ]
    rcases Nat.mod_two_eq_zero_or_one em.mantissa with hbit | hbit <;> rw [hbit] <;> omega
  · intro hbit
    have hodd : em.mantissa % 2 = 1 := by
      have hne : em.mantissa % 2 ≠ 0 := by simpa [ExtendedMantissa.shiftRightOne] using hbit
      omega
    rw [hodd, Nat.pow_succ]
    omega

theorem shifted_shiftRight (M n : ℕ) :
    Shifted M n (ExtendedMantissa.ofMantissaAndAccuracy M .exact >>> n) := by
  induction n with
  | zero => exact shifted_zero M
  | succ n ih => exact ih.shiftRightOne

theorem mantissa_shiftRight (M n : ℕ) :
    (ExtendedMantissa.ofMantissaAndAccuracy M .exact >>> n).mantissa = M / 2 ^ n := by
  obtain ⟨out, hM, hout, -⟩ := shifted_shiftRight M n
  generalize (ExtendedMantissa.ofMantissaAndAccuracy M .exact >>> n).mantissa = q at *
  rw [hM, Nat.mul_comm, Nat.mul_add_div (Nat.two_pow_pos n), Nat.div_eq_of_lt hout, Nat.add_zero]

theorem roundedMantissa_bounds (em : ExtendedMantissa) : em.mantissa ≤ em.roundedMantissa ∧
    em.roundedMantissa ≤ em.mantissa + em.roundBit.toNat := by
  obtain ⟨m, round, sticky⟩ := em
  cases round <;> cases sticky <;>
    simp only [ExtendedMantissa.roundedMantissa, ExtendedMantissa.accuracy,
      Accuracy.roundToNearestEven, Bool.toNat_false, Bool.toNat_true]
  all_goals omega

/-- A mantissa moves by half of a place at most. -/
theorem roundedMantissa_shiftRight (M n : ℕ) :
    M / 2 ^ n ≤ (ExtendedMantissa.ofMantissaAndAccuracy M .exact >>> n).roundedMantissa ∧
      2 * (ExtendedMantissa.ofMantissaAndAccuracy M .exact >>> n).roundedMantissa * 2 ^ n ≤
        2 * M + 2 ^ n := by
  obtain ⟨out, hM, hout, hround⟩ := shifted_shiftRight M n
  obtain ⟨hlow, hhigh⟩ :=
    roundedMantissa_bounds (ExtendedMantissa.ofMantissaAndAccuracy M .exact >>> n)
  have hfloor := mantissa_shiftRight M n
  generalize ExtendedMantissa.ofMantissaAndAccuracy M .exact >>> n = em at *
  refine ⟨hfloor ▸ hlow, ?_⟩
  cases hbit : em.roundBit with
  | false =>
      rw [hbit, Bool.toNat_false, Nat.add_zero] at hhigh
      calc 2 * em.roundedMantissa * 2 ^ n ≤ 2 * em.mantissa * 2 ^ n :=
            Nat.mul_le_mul_right _ (Nat.mul_le_mul_left 2 hhigh)
        _ ≤ 2 * M + 2 ^ n := by
            rw [Nat.mul_assoc, hM]
            omega
  | true =>
      rw [hbit, Bool.toNat_true] at hhigh
      have hhalf := hround hbit
      calc 2 * em.roundedMantissa * 2 ^ n ≤ 2 * (em.mantissa + 1) * 2 ^ n :=
            Nat.mul_le_mul_right _ (Nat.mul_le_mul_left 2 hhigh)
        _ = 2 * (em.mantissa * 2 ^ n) + 2 * 2 ^ n := by ring
        _ ≤ 2 * M + 2 ^ n := by omega

theorem targetExponent_eq (m : ℕ) (e : ℤ) :
    Format.binary64.targetExponent (Float.Model.totalExponent m e) =
      max (m.log2 + 1 + e - 53) (-1074) := rfl

theorem shiftToTargetExponent_eq {k : ℕ}
    (h : (max ((m.log2 : ℤ) + 1 + e - 53) (-1074) - e).toNat = k) :
    shiftToTargetExponent Format.binary64 m e .exact =
      (ExtendedMantissa.ofMantissaAndAccuracy m .exact >>> k, e + k) := by
  rw [shiftToTargetExponent, targetExponent_eq, shiftToExponent, h]

/-- A mantissa of more than 52 bits is rounded to 53 bits; where this adds a bit, it is dropped
again. -/
theorem roundWithAccuracy_eq (hn : M.log2 = n + 52) (hE : -1074 ≤ E + n) :
    ∃ (m k : ℕ) (hm : 0 < m),
      roundWithAccuracy Format.binary64 s M E .exact = .finite s m (E + n + k) hm ∧ k ≤ 1 ∧
        m.log2 = 52 ∧ M / 2 ^ n ≤ m * 2 ^ k ∧ 2 * (m * 2 ^ k) * 2 ^ n ≤ 2 * M + 2 ^ n := by
  have hM : M ≠ 0 := by
    rintro rfl
    simp at hn
  obtain ⟨hlow, hhigh⟩ := roundedMantissa_shiftRight M n
  have hshift := shiftToTargetExponent_eq (m := M) (e := E) (k := n) (by rw [hn]; omega)
  obtain ⟨hfloor, hlt⟩ : 2 ^ 52 ≤ M / 2 ^ n ∧ M < 2 ^ 53 * 2 ^ n := by
    obtain ⟨hge, hlt⟩ := (Nat.log2_eq_iff hM).mp hn
    have hplaces : ∀ k, 2 ^ (n + k) = 2 ^ k * 2 ^ n := fun k => by rw [Nat.pow_add, Nat.mul_comm]
    rw [hplaces] at hge
    rw [Nat.add_assoc, hplaces] at hlt
    exact ⟨(Nat.le_div_iff_mul_le (Nat.two_pow_pos n)).mpr hge, hlt⟩
  rw [roundWithAccuracy, hshift]
  dsimp only
  generalize (ExtendedMantissa.ofMantissaAndAccuracy M .exact >>> n).roundedMantissa = r at *
  have hr : 2 ^ 52 ≤ r ∧ r ≤ 2 ^ 53 := by
    refine ⟨hfloor.trans hlow, ?_⟩
    have hplaces : 2 * r * 2 ^ n < (2 ^ 54 + 1) * 2 ^ n := by
      rw [Nat.add_mul, Nat.one_mul]
      omega
    have hdouble := Nat.lt_of_mul_lt_mul_right hplaces
    omega
  rcases Nat.lt_or_eq_of_le hr.2 with hsmall | rfl
  · have hpos : r ≠ 0 := by omega
    have hlog : r.log2 = 52 := (Nat.log2_eq_iff hpos).mpr ⟨hr.1, hsmall⟩
    have hkeep := shiftToTargetExponent_eq (m := r) (e := E + n) (k := 0) (by rw [hlog]; omega)
    refine ⟨r, 0, Nat.pos_of_ne_zero hpos, ?_, Nat.zero_le 1, hlog, by simpa using hlow,
      by simpa using hhigh⟩
    rw [hkeep]
    exact dif_neg hpos
  · have hlog : (2 ^ 53).log2 = 53 := Nat.log2_two_pow
    have hdrop := shiftToTargetExponent_eq (m := 2 ^ 53) (e := E + n) (k := 1)
      (by rw [hlog]; omega)
    refine ⟨2 ^ 52, 1, by decide, ?_, Nat.le_refl 1, Nat.log2_two_pow, hlow, hhigh⟩
    rw [hdrop]
    exact dif_neg (Nat.two_pow_pos 52).ne'

/-! ### Numbers of 53 bits -/

/-- A number of 53 bits that is above a natural by the half of a last place at most. -/
def IsRounded (V : ℕ) : UnpackedFloat → Prop
  | .finite .positive m e _ => m.log2 = 52 ∧ -52 ≤ e ∧
      m * 2 ^ (e + 52).toNat * 2 ^ 53 ≤ V * 2 ^ 52 * (2 ^ 53 + 1)
  | _ => False

instance (V : ℕ) (u : UnpackedFloat) : Decidable (IsRounded V u) :=
  match u with
  | .finite .positive _ _ _ => inferInstanceAs (Decidable (_ ∧ _ ∧ _))
  | .finite .negative _ _ _ => .isFalse id
  | .infinity _ => .isFalse id
  | .notANumber => .isFalse id
  | .zero _ => .isFalse id

theorem IsRounded.exists_finite (h : IsRounded V u) : ∃ (m q : ℕ) (hm : 0 < m),
    u = .finite .positive m (q - 52) hm ∧ m.log2 = 52 ∧
      m * 2 ^ q * 2 ^ 53 ≤ V * 2 ^ 52 * (2 ^ 53 + 1) := by
  match u, h with
  | .finite .positive m e hm, ⟨hlog, he, hbound⟩ =>
    refine ⟨m, (e + 52).toNat, hm, ?_, hlog, hbound⟩
    congr 1
    omega

theorem log2_mul_two_pow {j : ℕ} (hV : 0 < V) : (V * 2 ^ j).log2 = V.log2 + j := by
  obtain ⟨hge, hlt⟩ := (Nat.log2_eq_iff hV.ne').mp rfl
  refine (Nat.log2_eq_iff (Nat.mul_pos hV (Nat.two_pow_pos j)).ne').mpr ⟨?_, ?_⟩
  · rw [Nat.pow_add]
    exact Nat.mul_le_mul_right _ hge
  · rw [Nat.add_right_comm, Nat.pow_add]
    exact Nat.mul_lt_mul_of_pos_right hlt (Nat.two_pow_pos j)

theorem isRounded_round {j : ℕ} (hV : 0 < V) (hj : 52 ≤ V.log2 + j) :
    IsRounded V (roundWithAccuracy Format.binary64 .positive (V * 2 ^ j) (-j) .exact) := by
  obtain ⟨n, hn⟩ := Nat.exists_eq_add_of_le hj
  obtain ⟨m, k, hm, hround, -, hlog, -, hhigh⟩ :=
    roundWithAccuracy_eq (s := .positive) (M := V * 2 ^ j) (n := n) (E := -j)
      (by rw [log2_mul_two_pow hV]; omega) (by omega)
  have hexponent : ((-j + n + k : ℤ) + 52).toNat = V.log2 + k := by omega
  rw [hround]
  refine ⟨hlog, by omega, ?_⟩
  rw [hexponent]
  -- the half of a place, in places of the natural itself
  have hplace : 2 ^ n * 2 ^ 52 = 2 ^ V.log2 * 2 ^ j := by
    rw [← Nat.pow_add, ← Nat.pow_add]
    congr 1
    omega
  have hhalf : 2 ^ V.log2 ≤ V := Nat.log2_self_le hV.ne'
  have hscaled : 2 * (m * 2 ^ k) * 2 ^ V.log2 * 2 ^ j ≤
      (2 * V * 2 ^ 52 + 2 ^ V.log2) * 2 ^ j := by
    calc 2 * (m * 2 ^ k) * 2 ^ V.log2 * 2 ^ j
        = 2 * (m * 2 ^ k) * 2 ^ n * 2 ^ 52 := by
          rw [Nat.mul_assoc _ (2 ^ n), hplace, Nat.mul_assoc]
      _ ≤ (2 * (V * 2 ^ j) + 2 ^ n) * 2 ^ 52 := Nat.mul_le_mul_right _ hhigh
      _ = (2 * V * 2 ^ 52 + 2 ^ V.log2) * 2 ^ j := by
          rw [Nat.add_mul, hplace]
          ring
  have hbound := Nat.le_of_mul_le_mul_right hscaled (Nat.two_pow_pos j)
  calc m * 2 ^ (V.log2 + k) * 2 ^ 53 = 2 * (m * 2 ^ k) * 2 ^ V.log2 * 2 ^ 52 := by
        rw [Nat.pow_add]
        ring
    _ ≤ (2 * V * 2 ^ 52 + V) * 2 ^ 52 :=
        Nat.mul_le_mul_right _ (hbound.trans (Nat.add_le_add_left hhalf _))
    _ = V * 2 ^ 52 * (2 ^ 53 + 1) := by ring

/-! ### Packed numbers -/

theorem unpackSign_packComponents {spec : Format} {exponent mantissa} :
    unpackSign (packComponents spec s exponent mantissa) = s.toBitVec := by
  refine BitVec.eq_of_getLsbD_eq fun i hi => ?_
  obtain rfl : i = 0 := by omega
  simp [unpackSign, packComponents, BitVec.getLsbD_append, BitVec.getElem_append]

theorem finite_congr {m' : ℕ} {e' : ℤ} {hm : 0 < m} {hm' : 0 < m'} (h : m = m') (he : e = e') :
    UnpackedFloat.finite s m e hm = .finite s m' e' hm' := by
  subst h he
  rfl

theorem pack_eq {q : ℕ} {hm : 0 < m} (hlog : m.log2 = 52) (hq : q ≤ 1023) :
    UnpackedFloat.pack Format.binary64 (.finite s m (q - 52) hm) =
      packComponents Format.binary64 s (BitVec.ofNat 11 (q + 1023)) (BitVec.ofNat 52 m) := by
  have hbiased : ((q : ℤ) - 52 + Format.binary64.exponentBias +
      Format.binary64.mantissaBitsWithoutImplicit).toNat = q + 1023 := by
    change ((q : ℤ) - 52 + 1023 + 52).toNat = q + 1023
    omega
  have hfits : ¬ 2 ^ Format.binary64.exponentBits ≤ q + 1023 + 1 := by
    change ¬ 2 ^ 11 ≤ q + 1023 + 1
    omega
  have hnormal : m.log2 + 1 = Format.binary64.mantissaBits := by rw [hlog]; rfl
  unfold UnpackedFloat.pack
  simp only [hbiased, if_neg hfits, if_pos hnormal]

/-- A number of 53 bits within the range of the format is unpacked as it was packed. -/
theorem unpack_pack {q : ℕ} {hm : 0 < m} (hlog : m.log2 = 52) (hq : q ≤ 1023) :
    (Float.Model.pack (.finite s m (q - 52) hm)).unpack = .finite s m (q - 52) hm := by
  obtain ⟨hge, hlt⟩ := (Nat.log2_eq_iff hm.ne').mp hlog
  have hexponent : (BitVec.ofNat 11 (q + 1023)).toNat = q + 1023 := by
    rw [BitVec.toNat_ofNat, Nat.mod_eq_of_lt (by omega)]
  have hnotInf : BitVec.ofNat 11 (q + 1023) ≠ -1#11 := by
    intro h
    have hall : q + 1023 = 2047 := hexponent.symm.trans (congrArg BitVec.toNat h)
    omega
  have hnotZero : BitVec.ofNat 11 (q + 1023) ≠ 0#11 := by
    intro h
    have hnone : q + 1023 = 0 := hexponent.symm.trans (congrArg BitVec.toNat h)
    omega
  have hmantissa : (1#1 ++ BitVec.ofNat 52 m).toNat = m := by
    simp only [BitVec.toNat_append, BitVec.toNat_ofNat]
    rw [← Nat.shiftLeft_add_eq_or_of_lt (Nat.mod_lt _ (Nat.two_pow_pos 52))]
    change 2 ^ 52 + m % 2 ^ 52 = m
    omega
  have hsign : Sign.ofBitVec s.toBitVec = s := by cases s <;> rfl
  change UnpackedFloat.unpack Format.binary64 (UnpackedFloat.pack Format.binary64 _) = _
  rw [pack_eq hlog hq]
  simp only [UnpackedFloat.unpack, unpackMantissa_packComponents, unpackExponent_packComponents,
    unpackSign_packComponents, hsign, hexponent, if_neg hnotInf, if_neg hnotZero]
  refine finite_congr hmantissa ?_
  change ((q + 1023 : ℕ) : ℤ) - (1023 + 52 : ℕ) = q - 52
  omega

/-! ### Products -/

theorem mul_lt {m₁ m₂ q₁ q₂ limit : ℕ}
    (h₁ : m₁ * 2 ^ q₁ * 2 ^ 53 ≤ V * 2 ^ 52 * (2 ^ 53 + 1))
    (h₂ : m₂ * 2 ^ q₂ * 2 ^ 53 ≤ W * 2 ^ 52 * (2 ^ 53 + 1))
    (h : V * W * (2 ^ 53 + 1) ^ 2 < limit * 2 ^ 106) :
    m₁ * m₂ * 2 ^ (q₁ + q₂) < limit * 2 ^ 104 := by
  have hboth : m₁ * m₂ * 2 ^ (q₁ + q₂) * 2 ^ 106 < limit * 2 ^ 104 * 2 ^ 106 := by
    calc m₁ * m₂ * 2 ^ (q₁ + q₂) * 2 ^ 106
        = (m₁ * 2 ^ q₁ * 2 ^ 53) * (m₂ * 2 ^ q₂ * 2 ^ 53) := by ring
      _ ≤ (V * 2 ^ 52 * (2 ^ 53 + 1)) * (W * 2 ^ 52 * (2 ^ 53 + 1)) := Nat.mul_le_mul h₁ h₂
      _ = V * W * (2 ^ 53 + 1) ^ 2 * 2 ^ 104 := by ring
      _ < limit * 2 ^ 106 * 2 ^ 104 := Nat.mul_lt_mul_of_pos_right h (Nat.two_pow_pos 104)
      _ = limit * 2 ^ 104 * 2 ^ 106 := Nat.mul_right_comm ..
  exact Nat.lt_of_mul_lt_mul_right hboth

/-- Below a limit of 54 bits a product is rounded to a number below the next power of two. -/
theorem exponent_le {P k q top : ℕ} (hP : P.log2 = n + 52) (hm : m.log2 = 52) (hk : k ≤ 1)
    (hround : 2 * (m * 2 ^ k) * 2 ^ n ≤ 2 * P + 2 ^ n) (h : P * 2 ^ q < (2 ^ 54 - 1) * 2 ^ top) :
    q + n + k ≤ top + 1 := by
  have hpos : P ≠ 0 := by
    rintro rfl
    simp at hP
  have hexponent : q + n < top + 2 := by
    have hge : 2 ^ (n + 52) ≤ P := hP ▸ Nat.log2_self_le hpos
    have hpower : 2 ^ (n + 52 + q) < 2 ^ (54 + top) := by
      calc 2 ^ (n + 52 + q) = 2 ^ (n + 52) * 2 ^ q := Nat.pow_add ..
        _ ≤ P * 2 ^ q := Nat.mul_le_mul_right _ hge
        _ < (2 ^ 54 - 1) * 2 ^ top := h
        _ ≤ 2 ^ 54 * 2 ^ top := Nat.mul_le_mul_right _ (Nat.sub_le ..)
        _ = 2 ^ (54 + top) := (Nat.pow_add ..).symm
    have hlt := (Nat.pow_lt_pow_iff_right Nat.one_lt_two).mp hpower
    omega
  by_contra hrange
  -- only the largest exponent could be passed, by a bit that rounding adds
  obtain ⟨rfl, hq⟩ : k = 1 ∧ q + n = top + 1 := by omega
  have hdouble : 2 * P < (2 ^ 54 - 1) * 2 ^ n := by
    have hscaled : 2 * P * 2 ^ top < (2 ^ 54 - 1) * 2 ^ n * 2 ^ top := by
      calc 2 * P * 2 ^ top = P * 2 ^ (q + n) := by
            rw [hq, Nat.pow_succ]
            ring
        _ = P * 2 ^ q * 2 ^ n := by rw [Nat.pow_add, Nat.mul_assoc]
        _ < (2 ^ 54 - 1) * 2 ^ top * 2 ^ n := Nat.mul_lt_mul_of_pos_right h (Nat.two_pow_pos n)
        _ = (2 ^ 54 - 1) * 2 ^ n * 2 ^ top := Nat.mul_right_comm ..
    exact Nat.lt_of_mul_lt_mul_right hscaled
  have hcarry : 2 * (m * 2 ^ 1) * 2 ^ n < 2 ^ 54 * 2 ^ n := by omega
  have hsmall := Nat.lt_of_mul_lt_mul_right hcarry
  have hge : 2 ^ 52 ≤ m := hm ▸ Nat.log2_self_le (by rintro rfl; simp at hm)
  omega

/-- A product is finite where the exact one, with what two roundings can add, is below the numbers
that are rounded to infinity; these start at `(2 ^ 54 - 1) * 2 ^ 970`. -/
theorem isInf_mul {a b : Float} {top : ℕ} (htop : top ≤ 970) (ha : IsRounded V a.toModel.unpack)
    (hb : IsRounded W b.toModel.unpack)
    (h : V * W * (2 ^ 53 + 1) ^ 2 < (2 ^ 54 - 1) * 2 ^ top * 2 ^ 106) :
    (a * b).isInf = false := by
  obtain ⟨m₁, q₁, hm₁, ha, hlog₁, h₁⟩ := ha.exists_finite
  obtain ⟨m₂, q₂, hm₂, hb, hlog₂, h₂⟩ := hb.exists_finite
  have hlarge : 104 ≤ (m₁ * m₂).log2 := by
    have hge₁ := Nat.log2_self_le hm₁.ne'
    have hge₂ := Nat.log2_self_le hm₂.ne'
    rw [Nat.le_log2 (Nat.mul_pos hm₁ hm₂).ne']
    rw [hlog₁] at hge₁
    rw [hlog₂] at hge₂
    exact (Nat.pow_add 2 52 52).trans_le (Nat.mul_le_mul hge₁ hge₂)
  obtain ⟨n, hn⟩ : ∃ n, (m₁ * m₂).log2 = n + 52 := ⟨(m₁ * m₂).log2 - 52, by omega⟩
  obtain ⟨m, k, hm, hround, hk, hlog, -, hhigh⟩ :=
    roundWithAccuracy_eq (s := .positive * .positive) (M := m₁ * m₂) (n := n)
      (E := (q₁ - 52) + (q₂ - 52)) hn (by omega)
  have hproduct := mul_lt h₁ h₂ h
  rw [Nat.mul_assoc (2 ^ 54 - 1), ← Nat.pow_add] at hproduct
  have hrange := exponent_le hn hlog hk hhigh hproduct
  have hexponent : (q₁ - 52 : ℤ) + (q₂ - 52) + n + k = (q₁ + q₂ + n + k - 52 : ℕ) - 52 := by omega
  rw [hexponent] at hround
  change (Float.Model.pack (UnpackedFloat.mul Format.binary64 a.toModel.unpack
    b.toModel.unpack)).unpack.isInf = false
  rw [ha, hb]
  change (Float.Model.pack (roundWithAccuracy Format.binary64 (.positive * .positive) (m₁ * m₂)
    ((q₁ - 52) + (q₂ - 52)) .exact)).unpack.isInf = false
  rw [hround, unpack_pack hlog (by omega)]
  rfl

/-! ### Naturals and powers of ten -/

/-- A number of 53 bits times one is itself. -/
theorem mul_one_eq {q : ℕ} {hm : 0 < m} (hlog : m.log2 = 52) :
    UnpackedFloat.mul Format.binary64 (.finite .positive m (q - 52) hm)
      (.finite .positive (2 ^ 52) (-52) (Nat.two_pow_pos 52)) =
        .finite .positive m (q - 52) hm := by
  have hlarge : (m * 2 ^ 52).log2 = 52 + 52 := by rw [log2_mul_two_pow hm, hlog]
  obtain ⟨m', k, hm', hround, hk, hlog', hlow, hhigh⟩ :=
    roundWithAccuracy_eq (s := .positive * .positive) (E := (q - 52) + (-52)) hlarge (by omega)
  rw [Nat.mul_div_cancel _ (Nat.two_pow_pos 52)] at hlow
  have hexact : m' * 2 ^ k = m := by omega
  obtain rfl | rfl : k = 0 ∨ k = 1 := by omega
  · rw [UnpackedFloat.mul, hround]
    exact finite_congr (by omega) (by omega)
  · have hdouble := log2_mul_two_pow (j := 1) hm'
    rw [hexact] at hdouble
    omega

/-- The model's own reading of `V` as a mantissa and a power of ten. -/
theorem isRounded_ofScientific {t : ℕ} (hm : 0 < m) (ht : t ≤ 2 ^ 11) :
    IsRounded (m * 10 ^ t) (UnpackedFloat.ofScientific Format.binary64 m t) := by
  have hlow : ¬ (t : ℤ) > 2 ^ Format.binary64.exponentBits := by
    change ¬ (t : ℤ) > 2 ^ 11
    omega
  have hhigh : ¬ (t : ℤ) < -((2 ^ Format.binary64.exponentBits : ℤ) + m.log2) := by
    change ¬ (t : ℤ) < -((2 ^ 11 : ℤ) + m.log2)
    omega
  have hround := isRounded_round (V := m * 10 ^ t) (j := 53)
    (Nat.mul_pos hm (Nat.pow_pos (by decide))) (by omega)
  have hmantissa : m <<< 53 * 10 ^ (t : ℤ).toNat = m * 10 ^ t * 2 ^ 53 := by
    rw [Nat.shiftLeft_eq, Int.toNat_natCast, Nat.mul_right_comm]
  have hmul : UnpackedFloat.ofScientific Format.binary64 m t =
      roundWithAccuracy Format.binary64 (.positive * .positive) (m <<< 53 * 10 ^ (t : ℤ).toNat)
        (-(53 : ℕ) + 0) .exact := by
    unfold UnpackedFloat.ofScientific
    rw [dif_neg hm.ne', if_neg hlow, if_neg hhigh, if_pos (Int.natCast_nonneg t),
      UnpackedFloat.mul]
    rfl
  rw [hmul, hmantissa, Int.add_zero]
  exact hround

/-- A rounded number within the range is still one after it has been packed. -/
theorem IsRounded.unpack_pack {r : ℕ} (h : IsRounded V u) (hr : r ≤ 1024)
    (hV : V * (2 ^ 53 + 1) < 2 ^ r * 2 ^ 53) : IsRounded V (Float.Model.pack u).unpack := by
  obtain ⟨m, q, hm, rfl, hlog, hbound⟩ := h.exists_finite
  have hge : 2 ^ 52 ≤ m := hlog ▸ Nat.log2_self_le hm.ne'
  have hpower : 2 ^ q * (2 ^ 52 * 2 ^ 53) < 2 ^ r * (2 ^ 52 * 2 ^ 53) := by
    calc 2 ^ q * (2 ^ 52 * 2 ^ 53) ≤ m * 2 ^ q * 2 ^ 53 := by
          rw [← Nat.mul_assoc, Nat.mul_comm (2 ^ q)]
          exact Nat.mul_le_mul_right _ (Nat.mul_le_mul_right _ hge)
      _ ≤ V * 2 ^ 52 * (2 ^ 53 + 1) := hbound
      _ = V * (2 ^ 53 + 1) * 2 ^ 52 := Nat.mul_right_comm ..
      _ < 2 ^ r * 2 ^ 53 * 2 ^ 52 := Nat.mul_lt_mul_of_pos_right hV (Nat.two_pow_pos 52)
      _ = 2 ^ r * (2 ^ 52 * 2 ^ 53) := by rw [Nat.mul_assoc, Nat.mul_comm (2 ^ 53)]
  have hq := (Nat.pow_lt_pow_iff_right Nat.one_lt_two).mp (Nat.lt_of_mul_lt_mul_right hpower)
  rwa [Decimal.unpack_pack hlog (by omega)]

/-- A natural is rounded to 53 bits. -/
theorem isRounded_unpackedOfNat (hpos : 0 < V) :
    IsRounded V (UnpackedFloat.ofNat Format.binary64 V) := by
  have htarget : (0 - Format.binary64.targetExponent (Float.Model.totalExponent V 0)).toNat =
      52 - V.log2 := by
    rw [targetExponent_eq]
    omega
  have hpositive : compare (V : ℤ) 0 = .gt := compare_gt_iff_gt.mpr (Int.natCast_pos.mpr hpos)
  have hround := isRounded_round (j := 52 - V.log2) hpos (by omega)
  have hmodel : UnpackedFloat.ofNat Format.binary64 V =
      roundWithAccuracy Format.binary64 .positive (V * 2 ^ (52 - V.log2)) (-(52 - V.log2 : ℕ))
        .exact := by
    rw [UnpackedFloat.ofNat, ofInt, UnpackedFloat.normalize, hpositive]
    dsimp only
    rw [Int.toNat_natCast, UnpackedFloat.round]
    dsimp only [decreaseExponent]
    rw [htarget, Nat.shiftLeft_eq, Int.zero_sub]
  rw [hmodel]
  exact hround

theorem isRounded_toFloat {w : UInt64} (hpos : 0 < w.toNat) :
    IsRounded w.toNat w.toFloat.toModel.unpack := by
  have hword := w.toNat_lt
  exact (isRounded_unpackedOfNat hpos).unpack_pack (r := 65) (by decide) (by omega)

/-- A word that is not zero is a number above zero. -/
theorem zero_lt_toFloat {w : UInt64} (hw : w ≠ 0) : 0.0 < w.toFloat := by
  have hpos : 0 < w.toNat := Nat.pos_of_ne_zero fun h => hw (UInt64.toNat_inj.mp h)
  obtain ⟨m, q, hm, hunpack, -, -⟩ := (isRounded_toFloat hpos).exists_finite
  have hzero : (0.0 : Float).toModel.unpack = .zero .positive := by rfl
  have hlt : UnpackedFloat.lt (0.0 : Float).toModel.unpack w.toFloat.toModel.unpack = true := by
    rw [hzero, hunpack]
    rfl
  exact decide_eq_true hlt

/-- A natural of 54 bits and more is read by the model itself. -/
theorem exists_pack_ofNat (hlarge : 2 ^ 53 ≤ V) :
    ∃ u, IsRounded V u ∧ (Float.ofNat V).toModel = Float.Model.pack u := by
  have hread := isRounded_ofScientific (t := 0) ((Nat.two_pow_pos 53).trans_le hlarge) (by decide)
  rw [Nat.pow_zero, Nat.mul_one] at hread
  refine ⟨_, hread, ?_⟩
  change (Float.ofScientific V false 0).toModel = _
  rw [Float.ofScientific, dif_neg (by omega)]
  rfl

/-- A natural is rounded as an integer of 64 bits, and multiplied by one, where that is exact. -/
theorem isRounded_ofNat (hpos : 0 < V) (hV : V < 2 ^ 64) :
    IsRounded V (Float.ofNat V).toModel.unpack := by
  have hrange : V * (2 ^ 53 + 1) < 2 ^ 65 * 2 ^ 53 := by omega
  by_cases hsmall : V < 2 ^ 53
  · have hword : V.toUInt64.toNat = V := Nat.mod_eq_of_lt hV
    have hinteger := isRounded_toFloat (w := V.toUInt64) (hword.symm ▸ hpos)
    rw [hword] at hinteger
    have hone : (Float.ofBits 0x3FF0000000000000).toModel.unpack =
        .finite .positive (2 ^ 52) (-52) (Nat.two_pow_pos 52) := by
      rfl
    have hproduct : (Float.ofNat V).toModel = Float.Model.pack (UnpackedFloat.mul Format.binary64
        V.toUInt64.toFloat.toModel.unpack (Float.ofBits 0x3FF0000000000000).toModel.unpack) := by
      change (Float.ofScientific V false 0).toModel = _
      rw [Float.ofScientific, dif_pos ⟨hsmall, by decide⟩]
      rfl
    obtain ⟨m, q, hm, hunpack, hlog, -⟩ := hinteger.exists_finite
    rw [hproduct, hone, hunpack, mul_one_eq hlog, ← hunpack]
    exact hinteger.unpack_pack (by decide) hrange
  · obtain ⟨u, hread, hfloat⟩ := exists_pack_ofNat (Nat.le_of_not_lt hsmall)
    rw [hfloat]
    exact hread.unpack_pack (by decide) hrange

theorem isRounded_power {t : ℕ} (ht : t ≤ 308) :
    IsRounded (10 ^ t) (Float.ofScientific 1 false t).toModel.unpack := by
  by_cases hsmall : t < 23
  · have htable : ∀ t < 23, IsRounded (10 ^ t) (Float.ofScientific 1 false t).toModel.unpack := by
      decide +kernel
    exact htable t hsmall
  · have hread := isRounded_ofScientific (m := 1) (t := t) Nat.one_pos (by omega)
    rw [Nat.one_mul] at hread
    have hfloat : (Float.ofScientific 1 false t).toModel =
        Float.Model.pack (UnpackedFloat.ofScientific Format.binary64 1 t) := by
      rw [Float.ofScientific, dif_neg (by omega)]
      rfl
    have hrange : 10 ^ t * (2 ^ 53 + 1) < 2 ^ 1024 * 2 ^ 53 := by
      obtain ⟨last, hlast, hlargest⟩ :
          ∃ last, t ≤ last ∧ 10 ^ last * (2 ^ 53 + 1) < 2 ^ 1024 * 2 ^ 53 :=
        ⟨308, ht, by decide +kernel⟩
      exact (Nat.mul_le_mul_right _ (Nat.pow_le_pow_right (by decide) hlast)).trans_lt hlargest
    rw [hfloat]
    exact hread.unpack_pack (Nat.le_refl _) hrange

end HostGauge.Decimal
