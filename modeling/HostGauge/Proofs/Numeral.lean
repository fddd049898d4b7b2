import HostGauge.Numeral
import Mathlib.Algebra.Group.Nat.Defs
import Mathlib.Data.List.Basic

/-!
The digits of a number: the shortest run of them has no zero in front, unless it is the zero. A word
is read exactly from the runs of digits that have its value, with any number of zeros in front.
-/
namespace HostGauge.Numeral

theorem write_of_lt {n : ℕ} (h : n < 10) : write n = [n.digitChar] := Nat.toDigits_of_lt_base h

theorem write_of_le {n : ℕ} (h : 10 ≤ n) : write n = write (n / 10) ++ [(n % 10).digitChar] :=
  Nat.toDigits_of_base_le (by decide) h

theorem head?_write_eq_zero_iff (n : ℕ) : (write n).head? = some '0' ↔ n = 0 := by
  induction n using Nat.strongRecOn with
  | ind n ih =>
      by_cases h : n < 10
      · rw [write_of_lt h]
        simp
      · have hle : 10 ≤ n := Nat.not_lt.mp h
        have hne : write (n / 10) ≠ [] := (isDigits_write _).1
        rw [write_of_le hle, List.head?_append_of_ne_nil _ hne, ih (n / 10) (by omega)]
        omega

/-- A run of digits has no zero in front, unless it is the zero. -/
theorem eq_zero_of_head?_write {n : ℕ} (h : (write n).head? = some '0') : write n = ['0'] := by
  rw [(head?_write_eq_zero_iff n).mp h]
  rfl

theorem value_cons (c : Char) (s : List Char) :
    value (c :: s) = value [c] * 10 ^ s.length + value s := by
  calc value (c :: s) = Nat.ofDigitChars 10 s (value [c]) := Nat.ofDigitChars_append (l := [c]) 0
    _ = value [c] * 10 ^ s.length + value s := by
        rw [Nat.ofDigitChars_eq_ofDigitChars_zero, Nat.mul_comm]
        rfl

theorem value_zeros (k : ℕ) (s : List Char) : value (List.replicate k '0' ++ s) = value s := by
  induction k with
  | zero => rfl
  | succ k ih =>
      have hzero : value ['0'] = 0 := rfl
      rw [List.replicate_succ, List.cons_append, value_cons, hzero, Nat.zero_mul, Nat.zero_add, ih]

theorem value_digit_lt {c : Char} (hc : c.isDigit) : value [c] < 10 := by
  have hrange : c.toNat ≤ 57 := (Char.isDigit_iff_toNat.mp hc).2
  change 10 * 0 + (c.toNat - 48) < 10
  omega

theorem value_lt {s : List Char} (hs : ∀ c ∈ s, c.isDigit) : value s < 10 ^ s.length := by
  induction s with
  | nil => exact Nat.one_pos
  | cons c s ih =>
      have hc := value_digit_lt (hs c List.mem_cons_self)
      have hrest := ih fun d hd => hs d (List.mem_cons_of_mem _ hd)
      rw [value_cons, List.length_cons, Nat.pow_succ]
      generalize 10 ^ s.length = unit at *
      have hmul : value [c] * unit ≤ 9 * unit := Nat.mul_le_mul_right _ (Nat.le_of_lt_succ hc)
      omega

/-- A number is not below the power of ten of its first digit. -/
theorem pow_length_write_le {n : ℕ} (hn : 0 < n) : 10 ^ ((write n).length - 1) ≤ n := by
  by_cases hlength : (write n).length - 1 = 0
  · rw [hlength]
    exact hn
  · refine Nat.not_lt.mp fun hlt => ?_
    have hle := (Nat.length_toDigits_le_iff (by decide) (Nat.pos_of_ne_zero hlength)).mpr hlt
    change (write n).length ≤ (write n).length - 1 at hle
    omega

/-- The first digit of a positive number is positive. -/
theorem value_first_pos {n : ℕ} (hn : 0 < n) {c : Char} {s : List Char} (h : write n = c :: s) :
    0 < value [c] := by
  have hlow := pow_length_write_le hn
  have hvalue := value_write n
  have hdigits := (isDigits_write n).2
  rw [h] at hlow hvalue hdigits
  rw [List.length_cons, Nat.add_sub_cancel] at hlow
  refine Nat.pos_of_ne_zero fun hzero => ?_
  have hlt := value_lt fun d hd => hdigits d (List.mem_cons_of_mem _ hd)
  rw [value_cons, hzero, Nat.zero_mul, Nat.zero_add] at hvalue
  omega

/-- Digits are not any other character. -/
theorem ne_of_isDigit {c d : Char} (hc : c.isDigit = true) (hd : d.isDigit = false) : c ≠ d := by
  rintro rfl
  rw [hc] at hd
  cases hd

theorem not_mem_of_isDigits {s : List Char} (hs : IsDigits s) {d : Char} (hd : d.isDigit = false) :
    d ∉ s := fun hmem => ne_of_isDigit (hs.2 d hmem) hd rfl

/-- The digits of a number are no text that has another character. -/
theorem write_ne {s : List Char} {d : Char} (hd : d.isDigit = false) (hs : d ∈ s) (n : ℕ) :
    write n ≠ s := by
  rintro rfl
  exact not_mem_of_isDigits (isDigits_write n) hd hs

/-! ### Words -/

/-- A run of digits with the value of a word. -/
def Denotes (s : List Char) (w : UInt64) : Prop := IsDigits s ∧ value s = w.toNat

/-- A run of digits with the value of a word, which may have a plus sign in front. -/
inductive IsNumeral : List Char → UInt64 → Prop
  | bare {s : List Char} {w : UInt64} (h : Denotes s w) : IsNumeral s w
  | plus {s : List Char} {w : UInt64} (h : Denotes s w) : IsNumeral ('+' :: s) w

variable {s : List Char} {w : UInt64}

theorem denotes_write (w : UInt64) : Denotes (write w.toNat) w :=
  ⟨isDigits_write _, value_write _⟩

theorem decimal64?_eq_some_iff : decimal64? s = some w ↔ Denotes s w := by
  unfold decimal64?
  constructor
  · intro h
    split at h
    case isTrue hs =>
      cases h
      exact ⟨hs.1, rfl⟩
    case isFalse => cases h
  · rintro ⟨hdigits, hvalue⟩
    have hfits : value s < UInt64.size := hvalue ▸ w.toNat_lt
    rw [dif_pos ⟨hdigits, hfits⟩]
    exact congrArg some (UInt64.toNat_inj.mp hvalue)

theorem word64?_eq_some_iff : word64? s = some w ↔ IsNumeral s w := by
  constructor
  · intro h
    unfold word64? at h
    split at h
    case h_1 => exact .plus (decimal64?_eq_some_iff.mp h)
    case h_2 => exact .bare (decimal64?_eq_some_iff.mp h)
  · intro h
    cases h with
    | bare h =>
        have hplus : ∀ t, s ≠ '+' :: t := by
          rintro t rfl
          exact not_mem_of_isDigits h.1 (d := '+') (by decide) List.mem_cons_self
        unfold word64?
        split
        case h_1 => exact absurd rfl (hplus _)
        case h_2 => exact decimal64?_eq_some_iff.mpr h
    | plus h => exact decimal64?_eq_some_iff.mpr h

instance (s : List Char) (w : UInt64) : Decidable (IsNumeral s w) :=
  decidable_of_iff _ word64?_eq_some_iff

end HostGauge.Numeral
