import HostGauge.Proofs.Decimal.Rounding
import HostGauge.Proofs.Decimal.Shortest
import HostGauge.Proofs.Json.Values

/-!
Floats written and read back. The text of a finite float is the text of a number, and the reader
finds a number for it: its digits are scaled by a power of ten that overflows for no finite
float. Nothing is said about which number that is; the reader rounds more than once.
-/
namespace HostGauge.Json

open Decimal (Binary)

namespace WrittenNumber

/-! ### Digits that are read -/

theorem value_next (start : ℕ) (d : Char) (s : List Char) :
    start * 10 ^ (d :: s).length + Numeral.value (d :: s) =
      (10 * start + Numeral.value [d]) * 10 ^ s.length + Numeral.value s := by
  rw [Numeral.value_cons d s, List.length_cons, Nat.pow_succ]
  ring

/-- Digits whose value fits into 64 bits are all read. -/
theorem leading_eq {start : ℕ} {s : List Char}
    (h : start * 10 ^ s.length + Numeral.value s < UInt64.size) :
    leading start s = (start * 10 ^ s.length + Numeral.value s, []) := by
  induction s generalizing start with
  | nil => simp [leading, Numeral.value]
  | cons d s ih =>
      rw [value_next] at h ⊢
      have hnext : 10 * start + Numeral.value [d] < UInt64.size :=
        (Nat.le_add_right_of_le (Nat.le_mul_of_pos_right _ (Nat.pow_pos (by decide)))).trans_lt h
      rw [leading, if_pos hnext, ih h]

/-- What is read of digits is not above them, and it fits into 64 bits. -/
theorem leading_bounds (start : ℕ) (s : List Char) :
    (leading start s).1 * 10 ^ (leading start s).2.length ≤
      start * 10 ^ s.length + Numeral.value s ∧ start ≤ (leading start s).1 ∧
      (start < UInt64.size → (leading start s).1 < UInt64.size) := by
  induction s generalizing start with
  | nil => exact ⟨Nat.le_add_right _ _, Nat.le_refl _, id⟩
  | cons d s ih =>
      rw [leading]
      split
      case isTrue hnext =>
        obtain ⟨hle, hstart, hsize⟩ := ih (10 * start + Numeral.value [d])
        exact ⟨hle.trans (Nat.le_of_eq (value_next start d s).symm), by omega, fun _ => hsize hnext⟩
      case isFalse => exact ⟨Nat.le_add_right _ _, Nat.le_refl _, id⟩

theorem length_leading_le (start : ℕ) (s : List Char) :
    (leading start s).2.length ≤ s.length := by
  induction s generalizing start with
  | nil => exact Nat.le_refl _
  | cons d s ih =>
      rw [leading]
      split
      · exact (ih _).trans (Nat.le_succ _)
      · exact Nat.le_refl _

/-- One digit more is read where there is room for it. -/
theorem length_leading_lt {start : ℕ} {s : List Char} (hs : Numeral.IsDigits s)
    (hstart : 10 * start + 9 < UInt64.size) : (leading start s).2.length < s.length := by
  obtain ⟨hne, hdigits⟩ := hs
  cases s with
  | nil => exact absurd rfl hne
  | cons d s =>
      have hd := Numeral.value_digit_lt (hdigits d List.mem_cons_self)
      rw [leading, if_pos (by omega)]
      exact Nat.lt_succ_of_le (length_leading_le _ s)

/-! ### Scaling -/

/-- A number is never too small to be read. -/
theorem isSome_scale_of_neg {exponent : ℤ} (h : exponent < 0) (steps : ℕ) (f : Float) :
    (scale steps f exponent).isSome := by
  induction steps generalizing f exponent with
  | zero => rfl
  | succ steps ih =>
      rw [scale]
      split
      · rw [if_neg (Int.not_le.mpr h)]
        rfl
      · split
        · rfl
        · rw [if_neg (Int.not_le.mpr h)]
          exact ih (by omega) _

theorem isSome_scale_of_le {significand t : ℕ} (hpos : 0 < significand)
    (hsize : significand < 2 ^ 64) (ht : t ≤ 308)
    (h : significand * 10 ^ t * (2 ^ 53 + 1) ^ 2 < (2 ^ 54 - 1) * 2 ^ 970 * 2 ^ 106) :
    (scale 8 (Float.ofNat significand) t).isSome := by
  -- both factors are rounded, and so is their product
  have hfinite := Decimal.isInf_mul (Nat.le_refl 970) (Decimal.isRounded_ofNat hpos hsize)
    (Decimal.isRounded_power ht) h
  rw [scale, if_pos (by omega), if_pos (Int.natCast_nonneg t), Int.natAbs_natCast, hfinite]
  rfl

theorem isSome_real? (negative : Bool) {significand : ℕ} {exponent : ℤ}
    (h : (scale 8 (Float.ofNat significand) exponent).isSome) :
    (real? negative significand exponent).isSome := by
  rw [real?, Option.isSome_map, h]

/-! ### Numbers with a point or an exponent -/

variable {negative : Bool} {whole digits : List Char} {first : Char}
  {fraction : Option (List Char)}

/-- Sixteen digits fit into 64 bits, and so does one digit more. -/
theorem leading_whole (hwhole : ∀ c ∈ whole, c.isDigit) (hlength : whole.length ≤ 16) :
    leading 0 whole = (Numeral.value whole, []) ∧ 10 * Numeral.value whole + 9 < UInt64.size := by
  have hvalue : Numeral.value whole < 10 ^ 16 :=
    (Numeral.value_lt hwhole).trans_le (Nat.pow_le_pow_right (by decide) hlength)
  have hsize : UInt64.size = 2 ^ 64 := rfl
  have hzero : 0 * 10 ^ whole.length + Numeral.value whole = Numeral.value whole := by
    rw [Nat.zero_mul, Nat.zero_add]
  have heq : leading 0 whole = _ := leading_eq (by rw [hzero]; omega)
  exact ⟨by rw [heq, hzero], by omega⟩

theorem leading_digit (hfirst : first.isDigit) :
    leading 0 [first] = (Numeral.value [first], []) :=
  (leading_whole (fun _ hc => List.mem_singleton.mp hc ▸ hfirst) (Nat.le_add_left 1 15)).1

/-- A number of sixteen digits at most before its point is read. -/
theorem isSome_number?_of_point (hwhole : ∀ c ∈ whole, c.isDigit) (hlength : whole.length ≤ 16)
    (hdigits : Numeral.IsDigits digits) :
    (WrittenNumber.number? ⟨negative, whole, some digits, none⟩).isSome := by
  obtain ⟨hread, hsize⟩ := leading_whole hwhole hlength
  have hlt := length_leading_lt hdigits hsize
  have hfloat : (float? ⟨negative, whole, some digits, none⟩).isSome := by
    simp only [float?, hread, Option.getD_some]
    refine isSome_real? negative (isSome_scale_of_neg ?_ _ _)
    rw [List.length_nil]
    omega
  simpa [number?] using hfloat

/-- A number with a negative exponent is read. -/
theorem isSome_number?_of_minus (hfirst : first.isDigit) (hpos : 0 < Numeral.value digits) :
    (WrittenNumber.number? ⟨negative, [first], fraction, some ⟨true, digits⟩⟩).isSome := by
  have hread := leading_digit hfirst
  have hfloat : (float? ⟨negative, [first], fraction, some ⟨true, digits⟩⟩).isSome := by
    simp only [float?, hread, Bool.not_true, Bool.and_false, Bool.false_eq_true, if_false, if_true]
    split
    · rfl
    · refine isSome_real? negative (isSome_scale_of_neg ?_ _ _)
      rw [List.length_nil]
      omega
  simpa [number?] using hfloat

/-- A number with an exponent is read where its digits, without those that do not fit into 64
bits, are scaled without an overflow. -/
theorem isSome_number?_of_plus (hfirst : first.isDigit) {s unread : List Char} {significand : ℕ}
    (hs : fraction.getD [] = s)
    (hleading : leading (Numeral.value [first]) s = (significand, unread))
    (hmax : Numeral.value digits ≤ maxExponent) {exponent : ℤ}
    (hexponent : exponent + s.length = Numeral.value digits + unread.length)
    (h : (scale 8 (Float.ofNat significand) exponent).isSome) :
    (WrittenNumber.number? ⟨negative, [first], fraction, some ⟨false, digits⟩⟩).isSome := by
  have hread := leading_digit hfirst
  have hle := length_leading_le (Numeral.value [first]) s
  rw [hleading] at hle
  have hshift : (List.length ([] : List Char) : ℤ) - ((s.length - unread.length : ℕ) : ℤ) +
      (Numeral.value digits : ℤ) = exponent := by
    rw [List.length_nil]
    change unread.length ≤ s.length at hle
    omega
  have hfloat : (float? ⟨negative, [first], fraction, some ⟨false, digits⟩⟩).isSome := by
    simp only [float?, hread, hs, hleading, if_neg (Nat.not_lt.mpr hmax), Bool.false_eq_true,
      if_false, hshift]
    exact isSome_real? negative h
  simpa [number?] using hfloat

/-! ### Shortest decimals -/

/-- The leading digits of the shortest decimal of a number in the range are scaled without an
overflow. The exact product is too close to the end of the range for the eight largest numbers,
whose digits fit into 64 bits. -/
theorem isSome_scale_shortest {x : Binary} (hx : x.InRange) {s u : ℕ} (hs : 0 < s)
    (hsize : s < UInt64.size) (hle : s * 10 ^ u ≤ (Decimal.shortest x).digits)
    (hall : (Decimal.shortest x).digits < UInt64.size → s = (Decimal.shortest x).digits ∧ u = 0) :
    (scale 8 (Float.ofNat s) ((Decimal.shortest x).exponent + u)).isSome := by
  by_cases hneg : (Decimal.shortest x).exponent + u < 0
  case pos => exact isSome_scale_of_neg hneg 8 _
  case neg =>
    have hrange := hx.exponent_add_le hs hle
    by_cases htop : x.exponent = 971 ∧ 2 ^ 53 < x.mantissa + 9
    case pos =>
      -- all of their digits are read, so there are only these eight products to compute
      have hlargest : ∀ i < 8,
          let d := Decimal.shortest ⟨2 ^ 53 - 1 - i, 971, false⟩
          d.digits < UInt64.size ∧ (scale 8 (Float.ofNat d.digits) d.exponent).isSome := by
        decide +kernel
      have hlt := hx.mantissa_lt
      obtain ⟨mantissa, exponent, narrowBelow⟩ := x
      obtain ⟨i, hi, rfl⟩ : ∃ i < 8, mantissa = 2 ^ 53 - 1 - i :=
        ⟨2 ^ 53 - 1 - mantissa, by dsimp only at *; omega, by dsimp only at *; omega⟩
      obtain rfl : exponent = 971 := htop.1
      obtain rfl : narrowBelow = false := hx.narrowBelow_eq (by dsimp only; omega)
      obtain ⟨hdigits, hsome⟩ := hlargest i hi
      obtain ⟨rfl, rfl⟩ := hall hdigits
      rwa [Int.natCast_zero, Int.add_zero]
    case neg =>
      obtain ⟨t, ht⟩ := Int.eq_ofNat_of_zero_le (Int.not_lt.mp hneg)
      have hbound := hx.atMost (by omega) s u hle (Int.not_lt.mp hneg)
      rw [ht] at hbound hrange ⊢
      refine isSome_scale_of_le hs hsize (by omega) ?_
      calc s * 10 ^ t * (2 ^ 53 + 1) ^ 2 ≤ (2 ^ 54 - 17) * 2 ^ 970 * (2 ^ 53 + 1) ^ 2 :=
            Nat.mul_le_mul_right _ hbound
        _ < (2 ^ 54 - 1) * 2 ^ 970 * 2 ^ 106 := by decide +kernel

/-- The same for the digits of it that are read. -/
theorem isSome_scale_leading {x : Binary} (hx : x.InRange) {start : ℕ} {s : List Char}
    (hpos : 0 < start) (hstart : start < UInt64.size)
    (hvalue : start * 10 ^ s.length + Numeral.value s = (Decimal.shortest x).digits) :
    (scale 8 (Float.ofNat (leading start s).1)
      ((Decimal.shortest x).exponent + (leading start s).2.length)).isSome := by
  obtain ⟨hle, hstartLe, hsize⟩ := leading_bounds start s
  rw [hvalue] at hle
  refine isSome_scale_shortest hx (hpos.trans_le hstartLe) (hsize hstart) hle fun hfits => ?_
  rw [leading_eq (hvalue.trans_lt hfits)]
  exact ⟨hvalue, rfl⟩

/-! ### Texts of floats -/

/-- A number with digits before the point that do not start with a zero. -/
theorem isWhole_of_head? {s : List Char} (h : Numeral.IsDigits s) (hhead : s.head? ≠ some '0') :
    IsWhole s := ⟨h, fun hzero => absurd hzero hhead⟩

theorem isText_point (negative : Bool) (hwhole : IsWhole whole) {s : List Char}
    (hs : Numeral.IsDigits s) :
    IsText ⟨negative, whole, some s, none⟩
      ((if negative then ['-'] else []) ++ (whole ++ '.' :: s)) := by
  have htext : IsText ⟨negative, whole, some s, none⟩ _ := .mk hwhole (.some hs) .none
  rwa [List.append_nil] at htext

theorem exists_positional (negative : Bool) (h : Numeral.IsDigits digits)
    (hhead : digits.head? ≠ some '0') {n : ℤ} (hn : n ≤ 16) :
    ∃ w : WrittenNumber, w.IsText ((if negative then ['-'] else []) ++
      Decimal.positionalText true digits n) ∧ w.number?.isSome := by
  have hzeros : ∀ k, ∀ c ∈ List.replicate k '0', c.isDigit := by
    intro k c hc
    rw [(List.mem_replicate.mp hc).2]
    rfl
  rw [Decimal.positionalText]
  by_cases hpos : n ≤ 0
  case pos =>
    have hfraction : Numeral.IsDigits (List.replicate (-n).toNat '0' ++ digits) :=
      ⟨List.append_ne_nil_of_right_ne_nil _ h.1, List.forall_mem_append.mpr ⟨hzeros _, h.2⟩⟩
    rw [if_pos hpos]
    exact ⟨_, isText_point negative ⟨by decide, fun _ => rfl⟩ hfraction,
      isSome_number?_of_point (List.forall_mem_singleton.mpr rfl) (by decide) hfraction⟩
  case neg =>
    rw [if_neg hpos]
    by_cases hlength : digits.length ≤ n.toNat
    case pos =>
      have hwhole : ∀ c ∈ digits ++ List.replicate (n.toNat - digits.length) '0', c.isDigit :=
        List.forall_mem_append.mpr ⟨h.2, hzeros _⟩
      have hzero : (digits ++ List.replicate (n.toNat - digits.length) '0').head? ≠ some '0' := by
        rwa [List.head?_append_of_ne_nil _ h.1]
      rw [if_pos hlength]
      refine ⟨_, isText_point negative (isWhole_of_head?
        ⟨List.append_ne_nil_of_left_ne_nil h.1 _, hwhole⟩ hzero) (s := ['0']) (by decide),
        isSome_number?_of_point hwhole ?_ (by decide)⟩
      rw [List.length_append, List.length_replicate]
      omega
    case neg =>
      have hwhole : digits.take n.toNat ≠ [] := by
        rw [ne_eq, List.take_eq_nil_iff]
        rintro (hzero | hnil)
        · omega
        · exact h.1 hnil
      have hfraction : Numeral.IsDigits (digits.drop n.toNat) := by
        refine ⟨?_, fun c hc => h.2 c (List.mem_of_mem_drop hc)⟩
        rw [ne_eq, List.drop_eq_nil_iff]
        omega
      have hdigits : ∀ c ∈ digits.take n.toNat, c.isDigit :=
        fun c hc => h.2 c (List.mem_of_mem_take hc)
      have hzero : (digits.take n.toNat).head? ≠ some '0' := by
        rwa [List.head?_take, if_neg (by omega)]
      rw [if_neg hlength]
      refine ⟨_, isText_point negative (isWhole_of_head? ⟨hwhole, hdigits⟩ hzero) hfraction,
        isSome_number?_of_point hdigits ?_ hfraction⟩
      rw [List.length_take]
      omega

theorem exists_fraction (first : Char) {rest : List Char} (h : ∀ c ∈ rest, c.isDigit) (n : ℤ) :
    ∃ (fraction : Option (List Char)) (f : List Char), FractionText fraction f ∧
      fraction.getD [] = rest ∧ Decimal.scientificText (first :: rest) n =
        [first] ++ (f ++ 'e' :: (if n < 0 then '-' else '+') :: Numeral.write n.natAbs) := by
  cases rest with
  | nil => exact ⟨none, [], .none, rfl, rfl⟩
  | cons second rest => exact ⟨some (second :: rest), _, .some ⟨List.cons_ne_nil _ _, h⟩, rfl, rfl⟩

theorem exists_scientific (negative : Bool) {x : Binary} (hx : x.InRange)
    (hpos : 0 < x.mantissa) {n : ℤ} (hn : n + 1 = (Decimal.shortest x).exponent +
      (Numeral.write (Decimal.shortest x).digits).length) :
    ∃ w : WrittenNumber, w.IsText ((if negative then ['-'] else []) ++
      Decimal.scientificText (Numeral.write (Decimal.shortest x).digits) n) ∧
      w.number?.isSome := by
  have hd := Nat.pos_of_ne_zero (Decimal.digits_shortest_ne_zero hpos)
  have hrange := hx.exponent_add_le Nat.one_pos
    ((Nat.one_mul _).trans_le (Numeral.pow_length_write_le hd))
  have hdigits := (Numeral.isDigits_write (Decimal.shortest x).digits).2
  have hvalue := Numeral.value_write (Decimal.shortest x).digits
  obtain ⟨first, rest, hwrite⟩ :=
    List.exists_cons_of_ne_nil (Numeral.isDigits_write (Decimal.shortest x).digits).1
  rw [hwrite, List.length_cons, Nat.add_sub_cancel] at hrange
  rw [hwrite, List.length_cons] at hn
  rw [hwrite] at hdigits hvalue ⊢
  have hfirst := hdigits first List.mem_cons_self
  have hrest := fun c hc => hdigits c (List.mem_cons_of_mem _ hc)
  have hwhole : IsWhole [first] :=
    ⟨⟨List.cons_ne_nil _ _, fun c hc => List.mem_singleton.mp hc ▸ hfirst⟩, fun hzero =>
      congrArg (fun c => [c]) (Option.some.inj hzero)⟩
  obtain ⟨fraction, f, hfraction, hfractionDigits, htext⟩ := exists_fraction first hrest n
  rw [htext]
  by_cases hneg : n < 0
  case pos =>
    rw [if_pos hneg]
    exact ⟨_, .mk hwhole hfraction (.some (.inl rfl) (.minus (Numeral.isDigits_write _))),
      isSome_number?_of_minus hfirst (by rw [Numeral.value_write]; omega)⟩
  case neg =>
    rw [if_neg hneg]
    rw [Numeral.value_cons] at hvalue
    have hstart := Numeral.value_first_pos hd hwrite
    have hsize : Numeral.value [first] < UInt64.size :=
      (Numeral.value_digit_lt hfirst).trans_le (by decide)
    -- the exponent is that of the first digit, which stands for no power beyond the range
    have hmax : n.natAbs ≤ maxExponent := by
      have hbound : 308 ≤ maxExponent := by decide
      omega
    refine ⟨_, .mk hwhole hfraction (.some (.inl rfl) (.plus (Numeral.isDigits_write _))),
      isSome_number?_of_plus hfirst hfractionDigits rfl ?_ ?_
        (isSome_scale_leading hx hstart hsize hvalue)⟩
    · rw [Numeral.value_write]
      exact hmax
    · rw [Numeral.value_write]
      omega

/-- The text of a finite float is the text of a number that is read. -/
theorem exists_floatText {x : Float} (hx : x.isFinite = true) :
    ∃ w : WrittenNumber, w.IsText (floatLayout.text x) ∧ w.number?.isSome := by
  have hrange := Decimal.inRange_ofBits hx
  obtain ⟨negative, hsign⟩ : ∃ negative : Bool, floatLayout.text x =
      (if negative then ['-'] else []) ++ floatLayout.magnitude x.toBits := by
    rw [Decimal.Layout.text]
    split
    · exact ⟨false, rfl⟩
    · exact ⟨true, rfl⟩
  rw [hsign, Decimal.Layout.magnitude]
  by_cases hzero : (Binary.ofBits x.toBits).mantissa = 0
  case pos =>
    rw [if_pos hzero]
    exact ⟨_, isText_point negative ⟨by decide, fun _ => rfl⟩ (s := ['0']) (by decide),
      isSome_number?_of_point (List.forall_mem_singleton.mpr rfl) (by decide) (by decide)⟩
  case neg =>
    have hpos := Nat.pos_of_ne_zero hzero
    have hd := Decimal.digits_shortest_ne_zero hpos
    rw [if_neg hzero]
    generalize Binary.ofBits x.toBits = number at *
    simp only [floatLayout]
    obtain ⟨n, hn⟩ : ∃ n : ℤ, n = (Decimal.shortest number).exponent +
        (Numeral.write (Decimal.shortest number).digits).length := ⟨_, rfl⟩
    rw [← hn]
    by_cases hpositional : (decide (-5 ≤ n - 1) && decide (n - 1 ≤ 15)) = true
    case pos =>
      have hle : n - 1 ≤ 15 := of_decide_eq_true (Bool.and_eq_true_iff.mp hpositional).2
      rw [if_pos hpositional]
      exact exists_positional negative (Numeral.isDigits_write _)
        (fun hhead => hd ((Numeral.head?_write_eq_zero_iff _).mp hhead)) (by omega)
    case neg =>
      rw [if_neg hpositional]
      exact exists_scientific negative hrange hpos (by rw [← hn]; omega)

end WrittenNumber

/-- A float is read back as some value. -/
theorem exists_readsAs_ofFloat (depth : ℕ) (x : Float) : ∃ v, ReadsAs depth (ofFloat x) v := by
  rw [ofFloat]
  split
  case isTrue hx =>
    obtain ⟨w, htext, hsome⟩ := WrittenNumber.exists_floatText hx
    obtain ⟨n, hn⟩ := Option.isSome_iff_exists.mp hsome
    exact ⟨.number n, .number w, .number htext, by rw [Document.value?, hn, Option.map_some]⟩
  case isFalse => exact ⟨.null, .null, .null, rfl⟩

end HostGauge.Json
