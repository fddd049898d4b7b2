import HostGauge.Calendar
import Mathlib.Order.Monotone.Basic
import Mathlib.Tactic.IntervalCases

/-!
The proleptic Gregorian calendar, told by the lengths of its months and by which date follows which.
The date computed from the number of a day is the one that the calendar has for it, and dates ascend
with the days. Between the two stand years and months counted from March: there the lengths of the
months follow one formula, and the day that a leap year has more comes last.
-/
namespace HostGauge.Calendar

/-- Every fourth year, but of those that end a century only every fourth. -/
def IsLeapYear (year : ℤ) : Prop := 4 ∣ year ∧ (100 ∣ year → 400 ∣ year)

instance (year : ℤ) : Decidable (IsLeapYear year) :=
  inferInstanceAs (Decidable (4 ∣ year ∧ (100 ∣ year → 400 ∣ year)))

def monthLength (year month : ℤ) : ℤ :=
  if month = 2 then if IsLeapYear year then 29 else 28
  else if month = 4 ∨ month = 6 ∨ month = 9 ∨ month = 11 then 30
  else 31

namespace Date

/-- A date that the calendar has. -/
structure IsReal (d : Date) : Prop where
  month_pos : 1 ≤ d.month
  month_le : d.month ≤ 12
  day_pos : 1 ≤ d.day
  day_le : d.day ≤ monthLength d.year d.month

/-- The date of the day after. -/
def next (d : Date) : Date :=
  if d.day < monthLength d.year d.month then ⟨d.year, d.month, d.day + 1⟩
  else if d.month < 12 then ⟨d.year, d.month + 1, 1⟩
  else ⟨d.year + 1, 1, 1⟩

/-- The number with the digits of the year, two of the month and two of the day. -/
def number (d : Date) : ℤ := (d.year * 100 + d.month) * 100 + d.day

end Date

/-- The date of a day counted from the start of 1970: from there on one date after the other, and
before it the dates that these follow. -/
inductive Dates : ℤ → Date → Prop
  | epoch : Dates 0 ⟨1970, 1, 1⟩
  | later {day : ℤ} {d : Date} (h : Dates day d) : Dates (day + 1) d.next
  | earlier {day : ℤ} {d : Date} (real : d.IsReal) (h : Dates (day + 1) d.next) : Dates day d

theorem monthLength_le (year month : ℤ) : monthLength year month ≤ 31 := by
  unfold monthLength
  split_ifs <;> decide

namespace Date

variable {d e : Date}

theorem next_injective (hd : d.IsReal) (he : e.IsReal) (h : d.next = e.next) : d = e := by
  obtain ⟨year, month, day⟩ := d
  obtain ⟨year', month', day'⟩ := e
  obtain ⟨hmonth, hmonthLe, hday, hdayLe⟩ := hd
  obtain ⟨hmonth', hmonthLe', hday', hdayLe'⟩ := he
  dsimp only [next] at *
  -- The day after tells which of the three ways led to it, and each way can be gone back.
  split_ifs at h <;> rw [mk.injEq] at h ⊢ <;> grind

theorem number_lt_number_next (h : d.IsReal) : d.number < d.next.number := by
  have hmonth := h.month_le
  have hday := h.day_le
  have hlength := monthLength_le d.year d.month
  unfold next
  split_ifs <;> simp only [number] <;> omega

end Date

/-! ### Years and months counted from March -/

/-- Days from the first of March of the year 0 to that of a year. -/
def yearStart (year : ℤ) : ℤ := 365 * year + year / 4 - year / 100 + year / 400

/-- Days from the first of March to the first of a month, which is counted from March. -/
def monthStart (month : ℤ) : ℤ := (153 * month + 2) / 5

/-- The length of a month counted from March; the last one lies in the year after. -/
def lengthFromMarch (year month : ℤ) : ℤ :=
  if month = 11 then if IsLeapYear (year + 1) then 29 else 28
  else monthStart (month + 1) - monthStart month

/-- The date some days after the first of a month, which is counted from March. -/
def ofMarch (year month days : ℤ) : Date where
  year := if month < 10 then year else year + 1
  month := if month < 10 then month + 3 else month - 9
  day := days + 1

/-- Where a day lies that is counted from the first of March of the year 0. -/
structure Place (n year month days : ℤ) : Prop where
  eq : n = yearStart year + monthStart month + days
  month_nonneg : 0 ≤ month
  month_lt : month < 12
  days_nonneg : 0 ≤ days
  days_lt : days < lengthFromMarch year month

variable {n year month days day dayOfYear dayOfCycle : ℤ}

theorem monthLength_ofMarch (year days : ℤ) (hlow : 0 ≤ month) (hhigh : month < 12) :
    monthLength (ofMarch year month days).year (ofMarch year month days).month =
      lengthFromMarch year month := by
  interval_cases month <;> rfl

theorem monthStart_last : monthStart 11 = 337 := rfl

theorem monthStart_nonneg (h : 0 ≤ month) : 0 ≤ monthStart month := by
  simp only [monthStart]
  omega

theorem lengthFromMarch_last (year : ℤ) :
    lengthFromMarch year 11 = if IsLeapYear (year + 1) then 29 else 28 := if_pos rfl

theorem lengthFromMarch_last_le (year : ℤ) : lengthFromMarch year 11 ≤ 29 := by
  rw [lengthFromMarch_last]
  split_ifs <;> decide

theorem lengthFromMarch_pos (year month : ℤ) : 0 < lengthFromMarch year month := by
  unfold lengthFromMarch
  split_ifs
  · decide
  · decide
  · simp only [monthStart]
    omega

theorem monthStart_succ (year : ℤ) (h : month ≠ 11) :
    monthStart (month + 1) = monthStart month + lengthFromMarch year month := by
  rw [lengthFromMarch, if_neg h, add_sub_cancel]

/-- A year ends with its last month. -/
theorem yearStart_succ (year : ℤ) :
    yearStart (year + 1) = yearStart year + monthStart 11 + lengthFromMarch year 11 := by
  rw [lengthFromMarch_last, monthStart_last]
  simp only [yearStart, IsLeapYear]
  split_ifs <;> omega

theorem yearStart_lt_succ (year : ℤ) : yearStart year < yearStart (year + 1) := by
  have hlength := lengthFromMarch_pos year 11
  have hlast := monthStart_last
  rw [yearStart_succ]
  omega

/-- Every day lies in a year. From day to day the year stays or moves on by one. -/
theorem exists_year (n : ℤ) : ∃ year, yearStart year ≤ n ∧ n < yearStart (year + 1) := by
  induction n using Int.induction_on with
  | zero => exact ⟨0, by decide, by decide⟩
  | succ n ih =>
      obtain ⟨year, hstart, hend⟩ := ih
      have hnext := yearStart_lt_succ (year + 1)
      by_cases h : (n : ℤ) + 1 < yearStart (year + 1)
      · exact ⟨year, by omega, h⟩
      · exact ⟨year + 1, by omega, by omega⟩
  | pred n ih =>
      obtain ⟨year, hstart, hend⟩ := ih
      have hprevious := yearStart_lt_succ (year - 1)
      rw [sub_add_cancel] at hprevious
      by_cases h : yearStart year ≤ -(n : ℤ) - 1
      · exact ⟨year, h, by omega⟩
      · refine ⟨year - 1, by omega, ?_⟩
        rw [sub_add_cancel]
        omega

theorem month_eq_iff (n month : ℤ) :
    (5 * n + 2) / 153 = month ↔ monthStart month ≤ n ∧ n < monthStart (month + 1) := by
  simp only [monthStart]
  omega

theorem exists_place (n : ℤ) : ∃ year month days, Place n year month days := by
  obtain ⟨year, hstart, hend⟩ := exists_year n
  obtain ⟨month, hmonth⟩ : ∃ month, (5 * (n - yearStart year) + 2) / 153 = month := ⟨_, rfl⟩
  obtain ⟨hfirst, hlast⟩ := (month_eq_iff _ _).mp hmonth
  have hfebruary := monthStart_last
  have hlength := lengthFromMarch_last_le year
  rw [yearStart_succ] at hend
  refine ⟨year, month, n - yearStart year - monthStart month,
    ⟨by omega, by omega, by omega, by omega, ?_⟩⟩
  by_cases h : month = 11
  · subst h
    omega
  · rw [monthStart_succ year h] at hlast
    omega

/-! ### Cycles of 400 years -/

/-- The year of a day within its cycle. -/
def yearOfCycle (dayOfCycle : ℤ) : ℤ :=
  (dayOfCycle - dayOfCycle / 1460 + dayOfCycle / 36524 - dayOfCycle / 146096) / 365

theorem yearStart_of_lt (hlow : 0 ≤ year) (hhigh : year < 400) :
    yearStart year = 365 * year + year / 4 - year / 100 := by
  simp only [yearStart]
  omega

theorem yearStart_le (h : year ≤ 400) : yearStart year ≤ 146097 := by
  simp only [yearStart]
  omega

theorem yearStart_eq (year : ℤ) :
    yearStart year = 146097 * (year / 400) + yearStart (year % 400) := by
  simp only [yearStart]
  omega

theorem yearStart_succ_eq (year : ℤ) :
    yearStart (year + 1) = 146097 * (year / 400) + yearStart (year % 400 + 1) := by
  simp only [yearStart]
  omega

theorem yearOfCycle_of_lt (hlow : 0 ≤ year) (hhigh : year < 400) (hnonneg : 0 ≤ dayOfYear)
    (hlt : dayOfYear < 365) : yearOfCycle (yearStart year + dayOfYear) = year := by
  obtain ⟨d, hd⟩ : ∃ d, yearStart year + dayOfYear = d := ⟨_, rfl⟩
  have hstart := yearStart_of_lt hlow hhigh
  -- Counting 1460 days for four years gains a day here and there, but never on a first of March.
  have hfour : d / 1460 = year / 4 ∨ d / 1460 = year / 4 + 1 ∧ 0 < dayOfYear := by omega
  have hcentury : d / 36524 = year / 100 := by omega
  have hcycle : d / 146096 = 0 := by omega
  rw [hd, yearOfCycle]
  omega

theorem yearOfCycle_of_isLeapYear (hlow : 0 ≤ year) (hhigh : year < 400)
    (hleap : IsLeapYear (year + 1)) : yearOfCycle (yearStart year + 365) = year := by
  by_cases h : year = 399
  · subst h
    rfl
  obtain ⟨d, hd⟩ : ∃ d, yearStart year + 365 = d := ⟨_, rfl⟩
  have hstart := yearStart_of_lt hlow hhigh
  have hfourth : year % 4 = 3 := by
    have hdvd := hleap.1
    omega
  have hcommon : year % 100 ≠ 99 := by
    intro hlast
    have hdvd := hleap.2 (by omega)
    omega
  have hfour : d / 1460 = year / 4 + 1 := by omega
  have hcentury : d / 36524 = year / 100 := by omega
  have hcycle : d / 146096 = 0 := by omega
  rw [hd, yearOfCycle]
  omega

theorem yearOfCycle_eq (hlow : 0 ≤ year) (hhigh : year < 400)
    (hstart : yearStart year ≤ dayOfCycle) (hend : dayOfCycle < yearStart (year + 1)) :
    yearOfCycle dayOfCycle = year := by
  obtain ⟨dayOfYear, rfl⟩ : ∃ dayOfYear, dayOfCycle = yearStart year + dayOfYear :=
    ⟨dayOfCycle - yearStart year, by omega⟩
  rw [yearStart_succ, lengthFromMarch_last, monthStart_last] at hend
  by_cases h : dayOfYear < 365
  · exact yearOfCycle_of_lt hlow hhigh (by omega) h
  · split_ifs at hend with hleap
    · obtain rfl : dayOfYear = 365 := by omega
      exact yearOfCycle_of_isLeapYear hlow hhigh hleap
    · omega

/-! ### The date of a day -/

namespace Place

theorem isReal (h : Place n year month days) : (ofMarch year month days).IsReal where
  month_pos := by
    have hlow := h.month_nonneg
    simp only [ofMarch]
    split_ifs <;> omega
  month_le := by
    have hhigh := h.month_lt
    simp only [ofMarch]
    split_ifs <;> omega
  day_pos := Int.le_add_of_nonneg_left h.days_nonneg
  day_le := by
    rw [monthLength_ofMarch year days h.month_nonneg h.month_lt]
    exact h.days_lt

theorem month_eq (h : Place n year month days) :
    (5 * (monthStart month + days) + 2) / 153 = month := by
  have hlow := h.days_nonneg
  have hhigh := h.days_lt
  by_cases hlast : month = 11
  · subst hlast
    have hfebruary := monthStart_last
    have hlength := lengthFromMarch_last_le year
    omega
  · rw [month_eq_iff, monthStart_succ year hlast]
    omega

theorem yearStart_le (h : Place n year month days) : yearStart year ≤ n := by
  have hplace := h.eq
  have hmonth := monthStart_nonneg h.month_nonneg
  have hdays := h.days_nonneg
  omega

theorem lt_yearStart (h : Place n year month days) : n < yearStart (year + 1) := by
  have hplace := h.eq
  have hhigh := h.month_lt
  have hlt := h.days_lt
  rw [yearStart_succ]
  by_cases hlast : month = 11
  · subst hlast
    omega
  · have hpos := lengthFromMarch_pos year 11
    have hnext := monthStart_succ year hlast
    have hle : monthStart (month + 1) ≤ monthStart 11 := by
      simp only [monthStart]
      omega
    omega

theorem cycle_eq (h : Place n year month days) : n / 146097 = year / 400 := by
  have hstart := h.yearStart_le
  have hend := h.lt_yearStart
  have hfirst : yearStart (year % 400) = _ := yearStart_of_lt (by omega) (by omega)
  have hlast : yearStart (year % 400 + 1) ≤ 146097 := Calendar.yearStart_le (by omega)
  rw [yearStart_eq] at hstart
  rw [yearStart_succ_eq] at hend
  omega

theorem dayOfCycle_eq (h : Place n year month days) :
    n % 146097 = yearStart (year % 400) + (monthStart month + days) := by
  have hplace := h.eq
  have hcycle := h.cycle_eq
  rw [yearStart_eq] at hplace
  omega

theorem yearOfCycle_eq (h : Place n year month days) : yearOfCycle (n % 146097) = year % 400 := by
  have hstart := h.yearStart_le
  have hend := h.lt_yearStart
  have hcycle := h.cycle_eq
  rw [yearStart_eq] at hstart
  rw [yearStart_succ_eq] at hend
  exact Calendar.yearOfCycle_eq (by omega) (by omega) (by omega) (by omega)

theorem dateOfDay_eq (h : Place (day + epochDay) year month days) :
    dateOfDay day = ofMarch year month days := by
  have hcycle := h.cycle_eq
  have hyear := h.yearOfCycle_eq
  have hmonth := h.month_eq
  have hdayOfYear : (day + epochDay) % 146097 -
      (365 * (year % 400) + year % 400 / 4 - year % 400 / 100) = monthStart month + days := by
    rw [h.dayOfCycle_eq, yearStart_of_lt (by omega) (by omega)]
    omega
  have hsum : year % 400 + year / 400 * 400 = year := by omega
  have hday : monthStart month + days - (153 * month + 2) / 5 + 1 = days + 1 := by
    simp only [monthStart]
    omega
  rw [yearOfCycle] at hyear
  simp only [dateOfDay, hcycle, hyear, hdayOfYear, hmonth, hsum, hday, ofMarch]

/-- The day after lies in the same month, or begins the next month or the next year. -/
theorem succ (h : Place n year month days) : ∃ year' month' days',
    Place (n + 1) year' month' days' ∧
      ofMarch year' month' days' = (ofMarch year month days).next := by
  have hplace := h.eq
  have hlow := h.month_nonneg
  have hhigh := h.month_lt
  have hdays := h.days_nonneg
  have hlt := h.days_lt
  have hlength := monthLength_ofMarch year days hlow hhigh
  rw [Date.next, hlength]
  by_cases hmore : days + 1 < lengthFromMarch year month
  · refine ⟨year, month, days + 1, ⟨by omega, hlow, hhigh, by omega, hmore⟩, ?_⟩
    exact (if_pos hmore).symm
  · rw [if_neg (show ¬ (ofMarch year month days).day < _ from hmore)]
    by_cases hlast : month = 11
    · subst hlast
      refine ⟨year + 1, 0, 0, ⟨?_, le_refl 0, by decide, le_refl 0, lengthFromMarch_pos _ _⟩, rfl⟩
      rw [yearStart_succ, show monthStart 0 = 0 from rfl]
      omega
    · refine ⟨year, month + 1, 0,
        ⟨?_, by omega, by omega, le_refl 0, lengthFromMarch_pos _ _⟩, ?_⟩
      · rw [monthStart_succ year hlast]
        omega
      · interval_cases month <;> rfl

end Place

theorem isReal_dateOfDay (day : ℤ) : (dateOfDay day).IsReal := by
  obtain ⟨year, month, days, h⟩ := exists_place (day + epochDay)
  rw [h.dateOfDay_eq]
  exact h.isReal

theorem dateOfDay_succ (day : ℤ) : dateOfDay (day + 1) = (dateOfDay day).next := by
  obtain ⟨year, month, days, h⟩ := exists_place (day + epochDay)
  obtain ⟨year', month', days', hnext, hdate⟩ := h.succ
  rw [add_right_comm] at hnext
  rw [h.dateOfDay_eq, hnext.dateOfDay_eq, hdate]

/-- The computed date is the only one that the calendar has for a day. -/
theorem dates_iff {d : Date} : Dates day d ↔ d = dateOfDay day := by
  constructor
  · intro h
    induction h with
    | epoch => rfl
    | later h ih => rw [ih, dateOfDay_succ]
    | earlier real h ih =>
        rw [dateOfDay_succ] at ih
        exact Date.next_injective real (isReal_dateOfDay _) ih
  · rintro rfl
    induction day using Int.induction_on with
    | zero => exact .epoch
    | succ n ih =>
        rw [dateOfDay_succ]
        exact .later ih
    | pred n ih =>
        apply Dates.earlier (isReal_dateOfDay _)
        rw [← dateOfDay_succ, sub_add_cancel]
        exact ih

theorem number_dateOfDay_lt {before after : ℤ} (h : before < after) :
    (dateOfDay before).number < (dateOfDay after).number := by
  have hmono : StrictMono fun day => (dateOfDay day).number := by
    apply strictMono_int_of_lt_succ
    intro day
    rw [dateOfDay_succ]
    exact Date.number_lt_number_next (isReal_dateOfDay day)
  exact hmono h

end HostGauge.Calendar
