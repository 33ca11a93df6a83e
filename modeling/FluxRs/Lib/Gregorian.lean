import Mathlib.Tactic.IntervalCases
import Mathlib.Data.Int.Order.Basic

/-!
# FluxRs.Lib.Gregorian — the proleptic Gregorian calendar

Dates of every year, the day count from 1970-01-01, and the date after a date.
-/

namespace FluxRs.Lib.Gregorian

structure Date where
  year : ℤ
  month : ℕ
  day : ℕ
deriving DecidableEq

/-- Every fourth year, of the centuries every fourth one. -/
def IsLeap (year : ℤ) : Prop := year % 4 = 0 ∧ (year % 100 = 0 → year % 400 = 0)

instance (year : ℤ) : Decidable (IsLeap year) := inferInstanceAs (Decidable (_ ∧ _))

def yearLength (year : ℤ) : ℤ := if IsLeap year then 366 else 365

def monthLength (year : ℤ) (month : ℕ) : ℕ :=
  if month = 2 then if IsLeap year then 29 else 28
  else if month = 4 ∨ month = 6 ∨ month = 9 ∨ month = 11 then 30
  else 31

structure Date.Valid (date : Date) : Prop where
  one_le_month : 1 ≤ date.month
  month_le : date.month ≤ 12
  one_le_day : 1 ≤ date.day
  day_le : date.day ≤ monthLength date.year date.month

/-! ### The day count -/

/-- The leap years from year 1 through a year. -/
def leapsThrough (year : ℤ) : ℤ := year / 4 - year / 100 + year / 400

/-- The number of the first day of a year. -/
def yearStart (year : ℤ) : ℤ := 365 * (year - 1970) + (leapsThrough (year - 1) - leapsThrough 1969)

/-- The days of a year before a month. -/
def monthStart (year : ℤ) : ℕ → ℕ
  | 0 => 0
  | 1 => 0
  | month + 2 => monthStart year (month + 1) + monthLength year (month + 1)

def Date.dayNumber (date : Date) : ℤ := yearStart date.year + monthStart date.year date.month + (date.day - 1)

/-- The day count grows by the length of each year. -/
theorem yearStart_succ (year : ℤ) : yearStart (year + 1) = yearStart year + yearLength year := by
  have hlength : yearLength year = 365 + (if IsLeap year then 1 else 0) := by
    unfold yearLength
    split <;> rfl
  rw [hlength]
  unfold yearStart leapsThrough
  by_cases h : IsLeap year
  · rw [if_pos h]
    obtain ⟨hfour, hcentury⟩ := h
    omega
  · rw [if_neg h]
    unfold IsLeap at h
    omega

theorem monthStart_succ (year : ℤ) {month : ℕ} (h : 1 ≤ month) :
    monthStart year (month + 1) = monthStart year month + monthLength year month := by
  obtain ⟨month, rfl⟩ : ∃ m, month = m + 1 := ⟨month - 1, by omega⟩
  rfl

theorem monthStart_end (year : ℤ) : (monthStart year 13 : ℤ) = yearLength year := by
  simp only [monthStart, monthLength, yearLength]
  by_cases h : IsLeap year
  · simp [h]
  · simp [h]

theorem monthLength_pos (year : ℤ) (month : ℕ) : 0 < monthLength year month := by
  unfold monthLength
  split
  · split <;> omega
  · split <;> omega

theorem monthLength_le (year : ℤ) (month : ℕ) : monthLength year month ≤ 31 := by
  unfold monthLength
  split
  · split <;> omega
  · split <;> omega

theorem monthStart_le (year : ℤ) {m n : ℕ} (hm : 1 ≤ m) (h : m ≤ n) : monthStart year m ≤ monthStart year n := by
  induction n, h using Nat.le_induction with
  | base => exact le_rfl
  | succ n hmn ih =>
    rw [monthStart_succ year (by omega)]
    omega

theorem yearStart_lt {year year' : ℤ} (h : year < year') : yearStart year + yearLength year ≤ yearStart year' := by
  rw [← yearStart_succ]
  unfold yearStart leapsThrough
  omega

theorem yearStart_mono {year year' : ℤ} (h : year ≤ year') : yearStart year ≤ yearStart year' := by
  unfold yearStart leapsThrough
  omega

namespace Date

variable {date date' : Date}

/-- A date lies within its year. -/
theorem Valid.within (h : date.Valid) :
    yearStart date.year ≤ date.dayNumber ∧ date.dayNumber < yearStart date.year + yearLength date.year := by
  have hmonth := monthStart_succ date.year h.one_le_month
  have hend := monthStart_le date.year (by omega : 1 ≤ date.month + 1) (by have := h.month_le; omega : date.month + 1 ≤ 13)
  have hyear := monthStart_end date.year
  have hday := h.day_le
  have hone := h.one_le_day
  unfold dayNumber
  omega

/-- **No two dates have one number.** -/
theorem Valid.eq_of_dayNumber (h : date.Valid) (h' : date'.Valid) (heq : date.dayNumber = date'.dayNumber) :
    date = date' := by
  have hyear : date.year = date'.year := by
    have hin := h.within
    have hin' := h'.within
    rcases lt_trichotomy date.year date'.year with hlt | heq | hlt
    · have hstart := yearStart_lt hlt
      omega
    · exact heq
    · have hstart := yearStart_lt hlt
      omega
  obtain ⟨year, month, day⟩ := date
  obtain ⟨year', month', day'⟩ := date'
  obtain rfl : year = year' := hyear
  have hmonth : month = month' := by
    have hsucc := monthStart_succ year h.one_le_month
    have hsucc' := monthStart_succ year h'.one_le_month
    have hday := h.day_le
    have hday' := h'.day_le
    have hone := h.one_le_day
    have hone' := h'.one_le_day
    simp only [dayNumber] at heq hday hday' hone hone' hsucc hsucc'
    rcases lt_trichotomy month month' with hlt | heq | hlt
    · have hle := monthStart_le year (by omega : 1 ≤ month + 1) (by omega : month + 1 ≤ month')
      omega
    · exact heq
    · have hle := monthStart_le year (by omega : 1 ≤ month' + 1) (by omega : month' + 1 ≤ month)
      omega
  obtain rfl := hmonth
  obtain rfl : day = day' := by
    have hone := h.one_le_day
    have hone' := h'.one_le_day
    simp only [dayNumber] at heq hone hone'
    omega
  rfl

/-! ### The date after a date -/

def next (date : Date) : Date :=
  if date.day < monthLength date.year date.month then ⟨date.year, date.month, date.day + 1⟩
  else if date.month < 12 then ⟨date.year, date.month + 1, 1⟩
  else ⟨date.year + 1, 1, 1⟩

theorem Valid.next (h : date.Valid) : date.next.Valid := by
  have hmonth := h.one_le_month
  have hle := h.month_le
  unfold Date.next
  split
  · rename_i hday
    exact ⟨hmonth, hle, Nat.le_add_left 1 _, hday⟩
  · split
    · rename_i hlt
      exact ⟨Nat.le_add_left 1 _, hlt, le_rfl, monthLength_pos _ _⟩
    · exact ⟨le_rfl, Nat.le_add_left 1 11, le_rfl, monthLength_pos _ _⟩

/-- **The next date has the next number.** -/
theorem Valid.dayNumber_next (h : date.Valid) : date.next.dayNumber = date.dayNumber + 1 := by
  have hone := h.one_le_day
  have hday := h.day_le
  have hsucc := monthStart_succ date.year h.one_le_month
  unfold Date.next
  split
  · simp only [dayNumber]
    omega
  · split
    · simp only [dayNumber]
      omega
    · rename_i hover _
      have hle := h.month_le
      have hlast : date.month = 12 := by omega
      have hend : (monthStart date.year (12 + 1) : ℤ) = yearLength date.year := monthStart_end date.year
      have hyear := yearStart_succ date.year
      have hfirst : monthStart (date.year + 1) 1 = 0 := rfl
      rw [hlast] at hsucc hday hover
      simp only [dayNumber, hfirst, hlast]
      omega

end Date

end FluxRs.Lib.Gregorian
