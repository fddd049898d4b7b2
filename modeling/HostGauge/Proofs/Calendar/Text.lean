import HostGauge.Proofs.Calendar
import HostGauge.Proofs.Text.Order
import Mathlib.Data.Prod.Lex
import Mathlib.Data.String.Basic

/-!
The text of an instant is in order: of two instants of years with four digits, the earlier second
has the lesser text, and one second has one text. Every part of a text has its own fixed width, so
texts compare as the numbers with all their digits, and these ascend from second to second.
-/
namespace HostGauge

open Calendar Text

namespace Calendar

variable {width m n : ℕ}

theorem isDigit_of_mem_padded {c : Char} (h : c ∈ padded width n) : c.isDigit := by
  rcases List.mem_append.mp h with hzero | hdigit
  · rw [List.eq_of_mem_replicate hzero]
    rfl
  · exact (Numeral.isDigits_write n).2 c hdigit

theorem value_padded (width n : ℕ) : Numeral.value (padded width n) = n := by
  rw [padded, Numeral.value_zeros, Numeral.value_write]

theorem length_padded (hwidth : 0 < width) (h : n < 10 ^ width) :
    (padded width n).length = width := by
  have hle : (Numeral.write n).length ≤ width :=
    (Nat.length_toDigits_le_iff (by decide) hwidth).mpr h
  rw [padded, List.length_append, List.length_replicate, Nat.sub_add_cancel hle]

theorem compareAs_padded (hwidth : 0 < width) (hm : m < 10 ^ width) (hn : n < 10 ^ width) :
    CompareAs (padded width m) (padded width n) m n := by
  have hlength : (padded width m).length = (padded width n).length := by
    rw [length_padded hwidth hm, length_padded hwidth hn]
  have h := CompareAs.digits (fun _ => isDigit_of_mem_padded) (fun _ => isDigit_of_mem_padded)
    hlength
  rwa [value_padded, value_padded] at h

theorem compareAs_yearText {x y : ℤ} (hx : 0 ≤ x ∧ x ≤ 9999) (hy : 0 ≤ y ∧ y ≤ 9999) :
    CompareAs (yearText x) (yearText y) x y := by
  have h : CompareAs (padded 4 x.natAbs) (padded 4 y.natAbs) x.natAbs y.natAbs :=
    compareAs_padded (by decide) (by omega) (by omega)
  rw [Int.natAbs_of_nonneg hx.1, Int.natAbs_of_nonneg hy.1] at h
  simpa [yearText, hx, hy] using h

theorem month_toNat_lt (day : ℤ) : (dateOfDay day).month.toNat < 100 := by
  have hle := (isReal_dateOfDay day).month_le
  omega

theorem day_toNat_lt (day : ℤ) : (dateOfDay day).day.toNat < 100 := by
  have hle := (isReal_dateOfDay day).day_le
  have hlength := monthLength_le (dateOfDay day).year (dateOfDay day).month
  omega

end Calendar

/-- Texts that go on with a separator and two digits. -/
theorem Text.CompareAs.twoDigits {s t : List Char} {x y : ℤ} {m n : ℕ} (h : CompareAs s t x y)
    (c : Char) (hm : m < 100) (hn : n < 100) :
    CompareAs (s ++ c :: padded 2 m) (t ++ c :: padded 2 n) (x * 100 + m) (y * 100 + n) :=
  h.append ((compareAs_padded (by decide) hm hn).cons c) ⟨by omega, by omega⟩ ⟨by omega, by omega⟩

namespace UtcInstant

/-- An instant of universal time: a leap second lasts no longer than another and comes after the
last second of a minute. -/
structure IsUniversal (t : UtcInstant) : Prop where
  nanos_lt : t.nanos < 2 * 1000000000
  leap : 1000000000 ≤ t.nanos → t.seconds % 60 = 59

instance (t : UtcInstant) : Decidable t.IsUniversal :=
  decidable_of_iff (t.nanos < 2 * 1000000000 ∧ (1000000000 ≤ t.nanos → t.seconds % 60 = 59))
    ⟨fun h => ⟨h.1, h.2⟩, fun h => ⟨h.nanos_lt, h.leap⟩⟩

/-- An instant in the years 0 to 9999 of the calendar. -/
def HasFourDigitYear (t : UtcInstant) : Prop :=
  ∃ d, Dates t.day d ∧ 0 ≤ d.year ∧ d.year ≤ 9999

theorem hasFourDigitYear_iff {t : UtcInstant} :
    t.HasFourDigitYear ↔ 0 ≤ (dateOfDay t.day).year ∧ (dateOfDay t.day).year ≤ 9999 := by
  simp only [HasFourDigitYear, dates_iff, exists_eq_left]

instance (t : UtcInstant) : Decidable t.HasFourDigitYear :=
  decidable_of_iff _ hasFourDigitYear_iff.symm

/-- The second in which an instant lies, in the order of time: a leap second comes after the one
that it follows and before the next. -/
def second (t : UtcInstant) : ℤ ×ₗ ℕ := toLex (t.seconds, t.nanos / 1000000000)

/-- The number with the digits of the hours, the minutes and the seconds. -/
def clock (secondOfDay : ℕ) : ℕ :=
  (secondOfDay / 3600 * 100 + secondOfDay / 60 % 60) * 100 + secondOfDay % 60

/-- The number with the digits of the text. -/
def number (t : UtcInstant) : ℤ :=
  (dateOfDay t.day).number * 1000000 + (clock t.secondOfDay + t.nanos / 1000000000 : ℕ)

variable {t a b : UtcInstant}

/-! ### Numbers ascend with the seconds -/

theorem second_lt_iff : a.second < b.second ↔
    a.seconds < b.seconds ∨
      a.seconds = b.seconds ∧ a.nanos / 1000000000 < b.nanos / 1000000000 := by
  rw [second, second, Prod.Lex.toLex_lt_toLex]

theorem secondOfDay_eq (t : UtcInstant) : (t.secondOfDay : ℤ) = t.seconds % 86400 := by
  rw [secondOfDay]
  omega

theorem secondOfDay_lt (t : UtcInstant) : t.secondOfDay < 86400 := by
  have heq := t.secondOfDay_eq
  omega

theorem clock_lt {n : ℕ} (h : n < 86400) : clock n < 240000 := by
  simp only [clock]
  omega

theorem clock_strictMono : StrictMono clock := by
  apply strictMono_nat_of_lt_succ
  intro n
  simp only [clock]
  omega

/-- Between the last second of a minute and the next minute there is room for a leap second. -/
theorem clock_add_one_lt {m n : ℕ} (hlast : m % 60 = 59) (h : m < n) : clock m + 1 < clock n := by
  have hnext : clock m + 1 < clock (m + 1) := by
    simp only [clock]
    omega
  exact hnext.trans_le (clock_strictMono.monotone h)

theorem number_lt_number (ha : a.IsUniversal) (h : a.second < b.second) : a.number < b.number := by
  have hofDay := a.secondOfDay_eq
  have hofDay' := b.secondOfDay_eq
  have hclock := clock_lt a.secondOfDay_lt
  have hshort := ha.nanos_lt
  rw [second_lt_iff] at h
  have hle : a.day ≤ b.day := by
    unfold day
    omega
  simp only [number]
  -- A later day has a greater date. Within a day the clock decides, also against a leap second.
  rcases Int.lt_or_eq_of_le hle with hlt | heq
  · have hdate := number_dateOfDay_lt hlt
    omega
  · rw [heq]
    unfold day at heq
    rcases h with hseconds | ⟨hseconds, hnanos⟩
    · have hlt : a.secondOfDay < b.secondOfDay := by omega
      have hmono := clock_strictMono hlt
      by_cases hleap : 1000000000 ≤ a.nanos
      · have hlast := ha.leap hleap
        have hroom := clock_add_one_lt (by omega) hlt
        omega
      · omega
    · have hsame : a.secondOfDay = b.secondOfDay := by omega
      rw [hsame]
      omega

theorem number_eq_number (h : a.second = b.second) : a.number = b.number := by
  obtain ⟨hseconds, hnanos⟩ := Prod.mk.inj h
  simp only [number, secondOfDay, day, hseconds, hnanos]

theorem number_lt_number_iff (ha : a.IsUniversal) (hb : b.IsUniversal) :
    a.number < b.number ↔ a.second < b.second := by
  constructor
  · intro h
    rcases lt_trichotomy a.second b.second with hlt | heq | hgt
    · exact hlt
    · exact absurd (number_eq_number heq) h.ne
    · exact absurd (number_lt_number hb hgt) h.not_gt
  · exact number_lt_number ha

theorem number_eq_number_iff (ha : a.IsUniversal) (hb : b.IsUniversal) :
    a.number = b.number ↔ a.second = b.second := by
  constructor
  · intro h
    rcases lt_trichotomy a.second b.second with hlt | heq | hgt
    · exact absurd h (number_lt_number ha hlt).ne
    · exact heq
    · exact absurd h (number_lt_number hb hgt).ne'
  · exact number_eq_number

/-! ### Texts compare as numbers -/

theorem hour_lt (t : UtcInstant) : t.secondOfDay / 3600 < 100 := by
  have hlt := t.secondOfDay_lt
  omega

theorem minute_lt (t : UtcInstant) : t.secondOfDay / 60 % 60 < 100 := by omega

theorem secondOfMinute_lt (h : t.IsUniversal) : t.secondOfMinute < 100 := by
  have hshort := h.nanos_lt
  rw [secondOfMinute]
  omega

theorem number_eq (t : UtcInstant) : t.number =
    (((((dateOfDay t.day).year * 100 + (dateOfDay t.day).month.toNat) * 100
      + (dateOfDay t.day).day.toNat) * 100 + (t.secondOfDay / 3600 : ℕ)) * 100
      + (t.secondOfDay / 60 % 60 : ℕ)) * 100 + t.secondOfMinute := by
  have hmonth := (isReal_dateOfDay t.day).month_pos
  have hday := (isReal_dateOfDay t.day).day_pos
  simp only [number, Date.number, clock, secondOfMinute]
  omega

theorem compareAs_text (ha : a.IsUniversal) (hb : b.IsUniversal) (hya : a.HasFourDigitYear)
    (hyb : b.HasFourDigitYear) : CompareAs a.text b.text a.number b.number := by
  have hyear := compareAs_yearText (hasFourDigitYear_iff.mp hya) (hasFourDigitYear_iff.mp hyb)
  have hmonth := hyear.twoDigits '-' (month_toNat_lt a.day) (month_toNat_lt b.day)
  have hday := hmonth.twoDigits '-' (day_toNat_lt a.day) (day_toNat_lt b.day)
  have hhour := hday.twoDigits 'T' a.hour_lt b.hour_lt
  have hminute := hhour.twoDigits ':' a.minute_lt b.minute_lt
  have hsecond := hminute.twoDigits ':' (secondOfMinute_lt ha) (secondOfMinute_lt hb)
  rw [number_eq, number_eq]
  exact hsecond.append_right ['Z']

/-- After any other second of a minute a leap second would have the text of the next second. -/
theorem text_of_leap_within_minute (hleap : 1000000000 ≤ t.nanos) (hother : t.seconds % 60 ≠ 59) :
    t.text = text ⟨t.seconds + 1, t.nanos - 1000000000⟩ := by
  obtain ⟨next, hnext⟩ : ∃ next : UtcInstant, next = ⟨t.seconds + 1, t.nanos - 1000000000⟩ :=
    ⟨_, rfl⟩
  have hseconds : next.seconds = t.seconds + 1 := by rw [hnext]
  have hnanos : next.nanos = t.nanos - 1000000000 := by rw [hnext]
  have hofDay := t.secondOfDay_eq
  have hofDay' := next.secondOfDay_eq
  have hday : next.day = t.day := by
    unfold day
    omega
  have hhour : next.secondOfDay / 3600 = t.secondOfDay / 3600 := by omega
  have hminute : next.secondOfDay / 60 = t.secondOfDay / 60 := by omega
  have hsecond : next.secondOfMinute = t.secondOfMinute := by
    simp only [secondOfMinute]
    omega
  rw [← hnext]
  simp only [text, hday, hhour, hminute, hsecond]

/-- Texts are in the order of the seconds, and one text belongs to one second. -/
theorem text_chronological (ha : a.IsUniversal) (hb : b.IsUniversal) (hya : a.HasFourDigitYear)
    (hyb : b.HasFourDigitYear) :
    (String.ofList a.text < String.ofList b.text ↔ a.second < b.second) ∧
      (String.ofList a.text = String.ofList b.text ↔ a.second = b.second) := by
  have htext := compareAs_text ha hb hya hyb
  constructor
  · rw [String.lt_iff_toList_lt, String.toList_ofList, String.toList_ofList, htext.lt_iff,
      number_lt_number_iff ha hb]
  · rw [String.ofList_inj, htext.eq_iff, number_eq_number_iff ha hb]

/-- The leap second at the end of 2016 and the start of the next year. -/
theorem text_chronological_leap :
    let leap : UtcInstant := ⟨1483228799, 1500000000⟩
    let newYear : UtcInstant := ⟨1483228800, 0⟩
    (leap.IsUniversal ∧ newYear.IsUniversal ∧ leap.HasFourDigitYear ∧ newYear.HasFourDigitYear) ∧
      (String.ofList leap.text < String.ofList newYear.text ↔ leap.second < newYear.second) ∧
      (String.ofList leap.text = String.ofList newYear.text ↔ leap.second = newYear.second) := by
  intro leap newYear
  have hleap : leap.IsUniversal := by decide
  have hnewYear : newYear.IsUniversal := by decide
  have hyear : leap.HasFourDigitYear := by decide
  have hyear' : newYear.HasFourDigitYear := by decide
  exact ⟨⟨hleap, hnewYear, hyear, hyear'⟩, text_chronological hleap hnewYear hyear hyear'⟩

end UtcInstant

end HostGauge
