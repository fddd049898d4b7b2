import HostGauge.Decimal.Reader
import HostGauge.Proofs.Decimal.Rounding

/-!
The special values of the 64-bit binary format. What an operation makes of infinities, zeros and
what is no number is settled before it rounds, and packing keeps it: the result is no number
exactly where the operation says so. Rounding comes in for one fact only, that a number other than
zero stays so when it is taken a whole number of times.
-/
namespace HostGauge.Decimal

open Float.Model (UnpackedFloat Format)
open Float.Model.UnpackedFloat

variable {m M n : ℕ} {e E : ℤ} {u w : UnpackedFloat} {s : Sign} {a b x : Float}

def isZero : UnpackedFloat → Bool
  | .zero _ => true
  | _ => false

/-! ### Packing -/

theorem unpack_pack_infinity (s : Sign) :
    (Float.Model.pack (.infinity s)).unpack = .infinity s := by
  cases s <;> rfl

theorem unpack_pack_zero (s : Sign) : (Float.Model.pack (.zero s)).unpack = .zero s := by
  cases s <;> rfl

/-- A finite number that fits the format has an exponent field of its own, and one of 53 bits does
not use the field of the subnormal numbers. -/
theorem pack_finite (s : Sign) (m : ℕ) (e : ℤ) (hm : 0 < m) :
    UnpackedFloat.pack Format.binary64 (.finite s m e hm) = packedInfinity Format.binary64 s ∨
      ∃ exponent : BitVec 11, exponent ≠ -1#11 ∧ (m.log2 = 52 → -1074 ≤ e → exponent ≠ 0#11) ∧
        UnpackedFloat.pack Format.binary64 (.finite s m e hm) =
          packComponents Format.binary64 s exponent (BitVec.ofNat 52 m) := by
  have hbiased : (e + Format.binary64.exponentBias +
      Format.binary64.mantissaBitsWithoutImplicit).toNat = (e + 1075).toNat := by
    change (e + 1023 + 52).toNat = (e + 1075).toNat
    omega
  have hwidth : m.log2 + 1 = Format.binary64.mantissaBits ↔ m.log2 = 52 := Nat.succ_inj
  unfold UnpackedFloat.pack
  simp only [hbiased, hwidth]
  split
  next => exact .inl rfl
  next hfits =>
    have hlt : (e + 1075).toNat < 2047 := by
      change ¬ 2 ^ 11 ≤ (e + 1075).toNat + 1 at hfits
      omega
    split
    next hnormal =>
      have hfield : (BitVec.ofNat 11 (e + 1075).toNat).toNat = (e + 1075).toNat := by
        rw [BitVec.toNat_ofNat, Nat.mod_eq_of_lt (by omega)]
      refine .inr ⟨BitVec.ofNat 11 (e + 1075).toNat, ?_, ?_, rfl⟩
      · intro h
        have hall : (e + 1075).toNat = 2047 := hfield.symm.trans (congrArg BitVec.toNat h)
        omega
      · intro _ he h
        have hnone : (e + 1075).toNat = 0 := hfield.symm.trans (congrArg BitVec.toNat h)
        omega
    next hsubnormal => exact .inr ⟨0#11, by decide, fun h => absurd h hsubnormal, rfl⟩

/-- A finite number is packed as a number, and not as zero where it has been rounded. -/
theorem unpack_pack_finite (s : Sign) (m : ℕ) (e : ℤ) (hm : 0 < m) :
    (Float.Model.pack (.finite s m e hm)).unpack.isNaN = false ∧
      (m.log2 ≤ 52 → -1074 ≤ e →
        isZero (Float.Model.pack (.finite s m e hm)).unpack = false) := by
  change (UnpackedFloat.unpack Format.binary64
      (UnpackedFloat.pack Format.binary64 (.finite s m e hm))).isNaN = false ∧
    (_ → _ → isZero (UnpackedFloat.unpack Format.binary64
      (UnpackedFloat.pack Format.binary64 (.finite s m e hm))) = false)
  obtain hpack | ⟨exponent, hfits, hnormal, hpack⟩ := pack_finite s m e hm
  · have hinfinite : UnpackedFloat.unpack Format.binary64 (packedInfinity Format.binary64 s) =
        .infinity s := unpack_pack_infinity s
    rw [hpack, hinfinite]
    exact ⟨rfl, fun _ _ => rfl⟩
  · rw [hpack]
    simp only [UnpackedFloat.unpack, unpackMantissa_packComponents, unpackExponent_packComponents,
      if_neg hfits]
    split
    next hsubnormal =>
      split
      next hnone =>
        -- a mantissa that leaves no bits has been too long
        refine ⟨rfl, fun hlog he => absurd hnone fun hnone => ?_⟩
        have hlt : m.log2 < 52 := Nat.lt_of_le_of_ne hlog fun h => hnormal h he hsubnormal
        have hmod : m % 2 ^ 52 = 0 := by simpa using congrArg BitVec.toNat hnone
        rw [Nat.mod_eq_of_lt ((Nat.log2_lt hm.ne').mp hlt)] at hmod
        omega
      next => exact ⟨rfl, fun _ _ => rfl⟩
    next => exact ⟨rfl, fun _ _ => rfl⟩

theorem isNaN_unpack_pack (u : UnpackedFloat) :
    (Float.Model.pack u).unpack.isNaN = u.isNaN := by
  cases u with
  | notANumber => rfl
  | infinity s => rw [unpack_pack_infinity]
  | zero s => rw [unpack_pack_zero]
  | finite s m e hm => exact (unpack_pack_finite s m e hm).1

/-! ### Operations -/

theorem isNaN_roundWithAccuracy {accuracy : Accuracy} :
    (roundWithAccuracy Format.binary64 s M E accuracy).isNaN = false := by
  rw [roundWithAccuracy]
  dsimp only
  split <;> rfl

theorem isNaN_normalize {mantissa : ℤ} :
    (UnpackedFloat.normalize Format.binary64 mantissa E s).isNaN = false := by
  unfold UnpackedFloat.normalize
  split
  · exact isNaN_roundWithAccuracy
  · rfl
  · exact isNaN_roundWithAccuracy

theorem beq_zero (a : Float) : (a == 0.0) = isZero a.toModel.unpack := by
  have hzero : (0.0 : Float).toModel.unpack = .zero .positive := by rfl
  change UnpackedFloat.beq a.toModel.unpack (0.0 : Float).toModel.unpack = _
  rw [hzero]
  cases a.toModel.unpack with
  | infinity s | finite s => cases s <;> rfl
  | notANumber | zero => rfl

/-- A difference is no number exactly where a part of it is none, or both are one infinity. -/
theorem isNaN_sub (a b : Float) :
    (a - b).isNaN = true ↔
      a.isNaN = true ∨ b.isNaN = true ∨ a.isInf = true ∧ (a == b) = true := by
  have hunpacked (u w : UnpackedFloat) : (UnpackedFloat.sub Format.binary64 u w).isNaN = true ↔
      u.isNaN = true ∨ w.isNaN = true ∨ u.isInf = true ∧ UnpackedFloat.beq u w = true := by
    cases u with
    | notANumber => cases w <;> simp [UnpackedFloat.sub, isNaN]
    | zero s₁ =>
        cases w with
        | zero s₂ => cases s₁ <;> cases s₂ <;> decide
        | _ => simp [UnpackedFloat.sub, isNaN, isInf]
    | infinity s₁ =>
        cases w with
        | infinity s₂ => cases s₁ <;> cases s₂ <;> decide
        | _ =>
          cases s₁ <;>
            simp [UnpackedFloat.sub, isNaN, isInf, UnpackedFloat.beq, UnpackedFloat.compare]
    | finite =>
        cases w with
        | finite => simp [UnpackedFloat.sub, isNaN_normalize, isNaN.eq_2, isInf]
        | _ => simp [UnpackedFloat.sub, isNaN, isInf]
  change (Float.Model.pack (UnpackedFloat.sub Format.binary64 a.toModel.unpack
    b.toModel.unpack)).unpack.isNaN = true ↔ _
  rw [isNaN_unpack_pack]
  exact hunpacked _ _

/-- A product is no number exactly where a factor is none, or one is infinite and one zero. -/
theorem isNaN_mul (a b : Float) :
    (a * b).isNaN = true ↔ a.isNaN = true ∨ b.isNaN = true ∨
      a.isInf = true ∧ (b == 0.0) = true ∨ (a == 0.0) = true ∧ b.isInf = true := by
  have hunpacked (u w : UnpackedFloat) : (UnpackedFloat.mul Format.binary64 u w).isNaN = true ↔
      u.isNaN = true ∨ w.isNaN = true ∨
        u.isInf = true ∧ isZero w = true ∨ isZero u = true ∧ w.isInf = true := by
    cases u <;> cases w <;> simp [UnpackedFloat.mul, isNaN_roundWithAccuracy, isInf, isZero]
  change (Float.Model.pack (UnpackedFloat.mul Format.binary64 a.toModel.unpack
    b.toModel.unpack)).unpack.isNaN = true ↔ _
  rw [isNaN_unpack_pack, beq_zero, beq_zero]
  exact hunpacked _ _

/-- A quotient is no number exactly where a part of it is none, or both are infinite or zero. -/
theorem isNaN_div (a b : Float) :
    (a / b).isNaN = true ↔ a.isNaN = true ∨ b.isNaN = true ∨
      a.isInf = true ∧ b.isInf = true ∨ (a == 0.0) = true ∧ (b == 0.0) = true := by
  have hunpacked (u w : UnpackedFloat) : (UnpackedFloat.div Format.binary64 u w).isNaN = true ↔
      u.isNaN = true ∨ w.isNaN = true ∨
        u.isInf = true ∧ w.isInf = true ∨ isZero u = true ∧ isZero w = true := by
    cases u <;> cases w <;> simp [UnpackedFloat.div, isNaN_roundWithAccuracy, isInf, isZero]
  change (Float.Model.pack (UnpackedFloat.div Format.binary64 a.toModel.unpack
    b.toModel.unpack)).unpack.isNaN = true ↔ _
  rw [isNaN_unpack_pack, beq_zero, beq_zero]
  exact hunpacked _ _

theorem isNaN_neg (x : Float) : x.neg.isNaN = x.isNaN := by
  change (Float.Model.pack x.toModel.unpack.neg).unpack.isNaN = x.toModel.unpack.isNaN
  rw [isNaN_unpack_pack]
  cases x.toModel.unpack <;> rfl

/-! ### Order -/

theorem compare_swap (u w : UnpackedFloat) :
    UnpackedFloat.compare w u = (UnpackedFloat.compare u w).map Ordering.swap := by
  cases u with
  | notANumber => cases w <;> rfl
  | zero =>
      cases w with
      | infinity s₂ | finite s₂ => cases s₂ <;> rfl
      | notANumber | zero => rfl
  | infinity s₁ =>
      cases w with
      | infinity s₂ => cases s₁ <;> cases s₂ <;> rfl
      | _ => cases s₁ <;> rfl
  | finite s₁ m₁ e₁ =>
      cases w with
      | finite s₂ m₂ e₂ =>
          have horder : (compare e₂ e₁).then (compare m₂ m₁) =
              ((compare e₁ e₂).then (compare m₁ m₂)).swap := by
            rw [Ordering.swap_then, ← Std.OrientedCmp.eq_swap, ← Std.OrientedCmp.eq_swap]
          cases s₁ <;> cases s₂ <;> simp [UnpackedFloat.compare, horder]
      | infinity s₂ => cases s₁ <;> cases s₂ <;> rfl
      | notANumber | zero => cases s₁ <;> rfl

theorem compare_eq_none_iff (u w : UnpackedFloat) :
    UnpackedFloat.compare u w = none ↔ u.isNaN = true ∨ w.isNaN = true := by
  cases u with
  | notANumber => exact iff_of_true (by cases w <;> rfl) (.inl rfl)
  | zero =>
      cases w with
      | infinity s₂ | finite s₂ => cases s₂ <;> simp [UnpackedFloat.compare, isNaN]
      | notANumber | zero => simp [UnpackedFloat.compare, isNaN]
  | infinity s₁ =>
      cases w with
      | infinity s₂ => simp [UnpackedFloat.compare, isNaN]
      | _ => cases s₁ <;> simp [UnpackedFloat.compare, isNaN]
  | finite s₁ =>
      cases w with
      | infinity s₂ | finite s₂ => cases s₁ <;> cases s₂ <;> simp [UnpackedFloat.compare, isNaN]
      | notANumber | zero => cases s₁ <;> simp [UnpackedFloat.compare, isNaN]

theorem not_lt_of_isNaN (h : a.isNaN = true ∨ b.isNaN = true) : ¬ a < b := by
  intro hlt
  have hcompare := (compare_eq_none_iff a.toModel.unpack b.toModel.unpack).mpr h
  have hlt : UnpackedFloat.lt a.toModel.unpack b.toModel.unpack = true := of_decide_eq_true hlt
  rw [UnpackedFloat.lt, hcompare] at hlt
  cases hlt

/-- Away from what is no number the order is linear. -/
theorem le_of_not_lt (ha : a.isNaN = false) (hb : b.isNaN = false) (h : ¬ a < b) : b ≤ a := by
  have hcompare : UnpackedFloat.compare a.toModel.unpack b.toModel.unpack ≠ none := by
    intro hnone
    rcases (compare_eq_none_iff _ _).mp hnone with hnan | hnan
    · exact Bool.false_ne_true (ha.symm.trans hnan)
    · exact Bool.false_ne_true (hb.symm.trans hnan)
  obtain ⟨order, horder⟩ := Option.ne_none_iff_exists'.mp hcompare
  have hlt : ¬ UnpackedFloat.lt a.toModel.unpack b.toModel.unpack = true :=
    fun hlt => h (decide_eq_true hlt)
  have hle : UnpackedFloat.le b.toModel.unpack a.toModel.unpack = true := by
    rw [UnpackedFloat.lt, horder] at hlt
    rw [UnpackedFloat.le, compare_swap, horder]
    cases order with
    | lt => exact absurd rfl hlt
    | eq | gt => rfl
  exact decide_eq_true hle

/-- What lies between 0 and 100 is a finite number. -/
theorem finite_of_le (h : 0.0 ≤ x) (h' : x ≤ 100.0) : x.isNaN = false ∧ x.isInf = false := by
  have hlow : UnpackedFloat.le (0.0 : Float).toModel.unpack x.toModel.unpack = true :=
    of_decide_eq_true h
  have hhigh : UnpackedFloat.le x.toModel.unpack (100.0 : Float).toModel.unpack = true :=
    of_decide_eq_true h'
  have hzero : (0.0 : Float).toModel.unpack = .zero .positive := by rfl
  have hhundred : (100.0 : Float).toModel.unpack =
      .finite .positive (25 * 2 ^ 48) (-46) (by decide) := by rfl
  rw [hzero] at hlow
  rw [hhundred] at hhigh
  change x.toModel.unpack.isNaN = false ∧ x.toModel.unpack.isInf = false
  cases hx : x.toModel.unpack with
  | notANumber =>
      rw [hx] at hlow
      exact absurd hlow Bool.false_ne_true
  | infinity s =>
      rw [hx] at hlow hhigh
      cases s with
      | negative => exact absurd hlow Bool.false_ne_true
      | positive => exact absurd hhigh Bool.false_ne_true
  | zero | finite => exact ⟨rfl, rfl⟩

/-! ### Numbers other than zero -/

theorem div_two_pow_pos {k : ℕ} (hM : 0 < M) (hk : k ≤ M.log2) : 0 < M / 2 ^ k :=
  Nat.div_pos ((Nat.pow_le_pow_right Nat.two_pos hk).trans (Nat.log2_self_le hM.ne'))
    (Nat.two_pow_pos k)

/-- What reaches the last place of the smallest numbers is not rounded to zero. -/
theorem roundWithAccuracy_finite (hM : 0 < M) (hE : (-1074 - E).toNat ≤ M.log2) :
    ∃ (m : ℕ) (e : ℤ) (hm : 0 < m),
      roundWithAccuracy Format.binary64 s M E .exact = .finite s m e hm ∧ m.log2 ≤ 52 ∧
        -1074 ≤ e := by
  obtain ⟨k, hk⟩ : ∃ k, (max ((M.log2 : ℤ) + 1 + E - 53) (-1074) - E).toNat = k := ⟨_, rfl⟩
  have hfirst := shiftToTargetExponent_eq hk
  have hlow := (roundedMantissa_shiftRight M k).1
  rw [roundWithAccuracy, hfirst]
  dsimp only
  generalize (ExtendedMantissa.ofMantissaAndAccuracy M .exact >>> k).roundedMantissa = r at *
  have hr : 0 < r := (div_two_pow_pos hM (by omega)).trans_le hlow
  have hsecond := shiftToTargetExponent_eq (m := r) (e := E + k) (k := r.log2 - 52) (by omega)
  have hpos : 0 < r / 2 ^ (r.log2 - 52) := div_two_pow_pos hr (Nat.sub_le ..)
  have hlt : r / 2 ^ (r.log2 - 52) < 2 ^ 53 := by
    refine Nat.div_lt_of_lt_mul ?_
    rw [← Nat.pow_add]
    exact Nat.lt_log2_self.trans_le (Nat.pow_le_pow_right Nat.two_pos (by omega))
  rw [hsecond]
  dsimp only
  rw [mantissa_shiftRight]
  exact ⟨_, _, hpos, dif_neg hpos.ne', Nat.lt_succ_iff.mp ((Nat.log2_lt hpos.ne').mpr hlt),
    by omega⟩

/-- No exponent is below the one of the subnormal numbers. -/
theorem exponent_of_unpack {bits : BitVec Format.binary64.numBits} {hm : 0 < m}
    (h : UnpackedFloat.unpack Format.binary64 bits = .finite s m e hm) : -1074 ≤ e := by
  unfold UnpackedFloat.unpack at h
  dsimp only at h
  split at h
  · split at h <;> cases h
  · split at h
    next hsubnormal =>
      split at h
      · cases h
      · injection h with _ _ he
        rw [← he, hsubnormal]
        decide
    next hnormal =>
      injection h with _ _ he
      have hpos : 0 < (unpackExponent bits).toNat :=
        Nat.pos_of_ne_zero fun hnone => hnormal (BitVec.eq_of_toNat_eq hnone)
      rw [← he]
      change -1074 ≤ ((unpackExponent bits).toNat : ℤ) - (1023 + 52)
      omega

theorem IsRounded.unpack_pack_or (h : IsRounded n u) :
    IsRounded n (Float.Model.pack u).unpack ∨
      (Float.Model.pack u).unpack = .infinity .positive := by
  obtain ⟨m, q, hm, rfl, hlog, -⟩ := h.exists_finite
  by_cases hq : q ≤ 1023
  · left
    rwa [Decimal.unpack_pack hlog hq]
  · right
    have hoverflow : UnpackedFloat.pack Format.binary64 (.finite .positive m (q - 52) hm) =
        packedInfinity Format.binary64 .positive := by
      refine if_pos ?_
      change 2 ^ 11 ≤ ((q : ℤ) - 52 + 1023 + 52).toNat + 1
      omega
    change UnpackedFloat.unpack Format.binary64 (UnpackedFloat.pack Format.binary64 _) = _
    rw [hoverflow]
    exact unpack_pack_infinity .positive

/-- Every natural other than zero is a number above zero; the largest ones are infinite. -/
theorem unpack_ofNat (hn : 0 < n) :
    IsRounded n (Float.ofNat n).toModel.unpack ∨
      (Float.ofNat n).toModel.unpack = .infinity .positive := by
  by_cases hsmall : n < 2 ^ 64
  · exact .inl (isRounded_ofNat hn hsmall)
  · obtain ⟨u, hread, hfloat⟩ := exists_pack_ofNat (V := n) (by omega)
    rw [hfloat]
    exact hread.unpack_pack_or

theorem ofNat_ne_zero (hn : 0 < n) :
    (Float.ofNat n).isNaN = false ∧ (Float.ofNat n == 0.0) = false := by
  rw [beq_zero]
  change (Float.ofNat n).toModel.unpack.isNaN = false ∧ _
  rcases unpack_ofNat hn with hcount | hinfinite
  · obtain ⟨m, q, hm, hcount, -, -⟩ := hcount.exists_finite
    rw [hcount]
    exact ⟨rfl, rfl⟩
  · rw [hinfinite]
    exact ⟨rfl, rfl⟩

/-- Taken a whole number of times, what is not zero does not become zero. The product is at least
the number, so that even the smallest ones are not rounded away. -/
theorem mul_ofNat_ne_zero (ha : (a == 0.0) = false) (hn : 0 < n) :
    (a * Float.ofNat n == 0.0) = false := by
  rw [beq_zero] at ha ⊢
  change isZero (Float.Model.pack (UnpackedFloat.mul Format.binary64 a.toModel.unpack
    (Float.ofNat n).toModel.unpack)).unpack = false
  have hnone : isZero (Float.Model.pack .notANumber).unpack = false := rfl
  have hinfinity (s : Sign) : isZero (Float.Model.pack (.infinity s)).unpack = false := by
    rw [unpack_pack_infinity]
    rfl
  rcases unpack_ofNat hn with hcount | hcount
  · obtain ⟨m₂, q, hm₂, hcount, hlog, -⟩ := hcount.exists_finite
    rw [hcount]
    cases hu : a.toModel.unpack with
    | zero s =>
        rw [hu] at ha
        cases ha
    | notANumber => exact hnone
    | infinity s₁ => exact hinfinity _
    | finite s₁ m₁ e₁ hm₁ =>
        have he₁ := exponent_of_unpack hu
        have hlarge : 52 ≤ (m₁ * m₂).log2 := by
          rw [Nat.le_log2 (Nat.mul_pos hm₁ hm₂).ne']
          have hge : 2 ^ 52 ≤ m₂ := hlog ▸ Nat.log2_self_le hm₂.ne'
          exact hge.trans (Nat.le_mul_of_pos_left m₂ hm₁)
        obtain ⟨m, e, hm, hround, hshort, he⟩ :=
          roundWithAccuracy_finite (s := s₁ * .positive) (E := e₁ + (q - 52))
            (Nat.mul_pos hm₁ hm₂) (by omega)
        rw [UnpackedFloat.mul, hround]
        exact (unpack_pack_finite _ _ _ _).2 hshort he
  · rw [hcount]
    cases hu : a.toModel.unpack with
    | zero s =>
        rw [hu] at ha
        cases ha
    | notANumber => exact hnone
    | infinity s₁ | finite s₁ => exact hinfinity _

/-! ### Numerals -/

theorem isNaN_toFloat (word : UInt64) : word.toFloat.isNaN = false := by
  change (Float.Model.pack (UnpackedFloat.ofUInt64 Format.binary64 word)).unpack.isNaN = false
  rw [isNaN_unpack_pack]
  exact isNaN_normalize

theorem isNaN_unpackedOfScientific (n : ℕ) (power : ℤ) :
    (UnpackedFloat.ofScientific Format.binary64 n power).isNaN = false := by
  unfold UnpackedFloat.ofScientific
  split
  · rfl
  split
  · rfl
  split
  · rfl
  split
  · exact isNaN_roundWithAccuracy
  · exact isNaN_roundWithAccuracy

/-- The powers of ten that are held as such are numbers, neither infinite nor zero. -/
theorem mem_powersOfTen (h : x ∈ Float.exactlyRepresentablePowersOfTen) :
    x.isNaN = false ∧ x.isInf = false ∧ (x == 0.0) = false := by
  revert x
  decide +kernel

theorem isNaN_ofScientific (n : ℕ) (negative : Bool) (power : ℕ) :
    (Float.ofScientific n negative power).isNaN = false := by
  unfold Float.ofScientific
  split
  next h =>
    have hinteger := isNaN_toFloat n.toUInt64
    have hsize : power < Float.exactlyRepresentablePowersOfTen.size := Nat.lt_succ_of_le h.2
    obtain ⟨hnumber, hfinite, hzero⟩ := mem_powersOfTen (Array.getElem_mem hsize)
    rw [Bool.eq_false_iff, ne_eq]
    dsimp only
    split
    · rw [isNaN_div, hinteger, hnumber, hfinite, hzero]
      simp only [Bool.false_eq_true, and_false, or_self, not_false_eq_true]
    · rw [isNaN_mul, hinteger, hnumber, hfinite, hzero]
      simp only [Bool.false_eq_true, and_false, or_self, not_false_eq_true]
  next =>
    change (Float.Model.pack (UnpackedFloat.ofScientific Format.binary64 n _)).unpack.isNaN = false
    rw [isNaN_unpack_pack]
    exact isNaN_unpackedOfScientific _ _

theorem isNaN_nearest (digits : ℕ) (exponent : ℤ) : (nearest digits exponent).isNaN = false := by
  unfold nearest
  dsimp only
  split
  · decide +kernel
  split
  · decide +kernel
  split
  · decide +kernel
  split
  · exact isNaN_ofScientific _ _ _
  · exact isNaN_ofScientific _ _ _

theorem exists_nearest {text : List Char} (h : unsigned? text = some x) :
    ∃ digits exponent, x = nearest digits exponent := by
  simp only [unsigned?] at h
  split at h
  all_goals
    split at h
    · cases h
    split at h
    · exact ⟨_, _, (Option.some.inj h).symm⟩
    split at h
    · obtain ⟨exponent, -, rfl⟩ := Option.map_eq_some_iff.mp h
      exact ⟨_, _, rfl⟩
    · cases h

theorem isNaN_magnitude? {text : List Char} (h : magnitude? text = some x) :
    x.isNaN = true ↔ text.map Char.toLower = "nan".toList := by
  rw [← String.ofList_inj, String.ofList_toList]
  unfold magnitude? at h
  dsimp only at h
  generalize String.ofList (text.map Char.toLower) = word at *
  split at h
  next hinfinite =>
    cases h
    have hother : word ≠ "nan" := by
      rintro rfl
      exact absurd hinfinite (by decide)
    exact iff_of_false (by decide +kernel) hother
  next =>
    split at h
    next hnan =>
      cases h
      exact iff_of_true (by decide +kernel) hnan
    next hother =>
      obtain ⟨digits, exponent, rfl⟩ := exists_nearest h
      rw [isNaN_nearest]
      exact iff_of_false Bool.false_ne_true hother

def withoutSign : List Char → List Char
  | '+' :: s => s
  | '-' :: s => s
  | s => s

/-- The word for what is no number, in any case and with any sign. -/
def IsNanWord (word : List Char) : Prop := (withoutSign word).map Char.toLower = "nan".toList

instance (word : List Char) : Decidable (IsNanWord word) :=
  inferInstanceAs (Decidable (_ = _))

/-- A numeral is read as no number exactly where it is the word for that. -/
theorem isNaN_float? {text : List Char} (h : float? text = some x) :
    x.isNaN = true ↔ IsNanWord text := by
  unfold IsNanWord
  unfold float? at h
  split at h
  next => exact isNaN_magnitude? h
  next =>
    obtain ⟨y, hy, rfl⟩ := Option.map_eq_some_iff.mp h
    rw [isNaN_neg]
    exact isNaN_magnitude? hy
  next hplus hminus =>
    rw [withoutSign.eq_3 text hplus hminus]
    exact isNaN_magnitude? h

end HostGauge.Decimal
