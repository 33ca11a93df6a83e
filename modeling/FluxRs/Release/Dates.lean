import FluxRs.Lib.Bytes
import FluxRs.Lib.Gregorian

/-!
# FluxRs.Release.Dates — civil dates and the dates of archive entries

`civil_from_days` and `dos_datetime`, once for the daemon (`crates/fluxd/src/time.rs`, `bugreport.rs`) and once for
packaging (`xtask/src/zip.rs`).  A signed sum out of range and an unsigned difference below zero have no value.
-/

namespace FluxRs.Release

open FluxRs.Lib FluxRs.Lib.Gregorian

/-! ### Machine arithmetic -/

def i64 (x : ℤ) : Option ℤ := if -2 ^ 63 ≤ x ∧ x < 2 ^ 63 then some x else none

def subU64 (a b : ℕ) : Option ℕ := if b ≤ a then some (a - b) else none

/-- `as u64`. -/
def asU64 (x : ℤ) : ℕ := (x % 2 ^ 64).toNat

/-- `as u16`. -/
def asU16 (x : ℤ) : ℕ := (x % 2 ^ 16).toNat

/-- `<<` of a `u16`. -/
def shlU16 (a k : ℕ) : ℕ := (a <<< k) % 2 ^ 16

/-! ### Civil dates and archive dates -/

/-- `yoe`: the year of an era of 400 years. -/
def yearOfEra (doe : ℕ) : Option ℕ :=
  (subU64 doe (doe / 1460)).bind fun days => (subU64 (days + doe / 36524) (doe / 146096)).map (· / 365)

/-- `doy`: the day of a year that starts in March. -/
def dayOfYear (doe yoe : ℕ) : Option ℕ := (subU64 (365 * yoe + yoe / 4) (yoe / 100)).bind (subU64 doe ·)

/-- `month` and `day`. -/
def monthDay (doy : ℕ) : Option (ℕ × ℕ) :=
  let mp := (5 * doy + 2) / 153
  (subU64 doy ((153 * mp + 2) / 5)).bind fun days =>
    (if mp < 10 then some (mp + 3) else subU64 mp 9).map fun month => (month, days + 1)

namespace Daemon

/-- What the division that rounds to zero is applied to, so that it rounds down. -/
def eraNumerator (z : ℤ) : Option ℤ := if 0 ≤ z then some z else i64 (z - 146096)

/-- January and February belong to the next year. -/
def civilYear (y : ℤ) (month : ℕ) : Option ℤ := if month ≤ 2 then i64 (y + 1) else some y

def civilFromDays (z : ℤ) : Option Date := do
  let z ← i64 (z + 719468)
  let numerator ← eraNumerator z
  let era := numerator.tdiv 146097
  let start ← i64 (era * 146097)
  let distance ← i64 (z - start)
  let doe := asU64 distance
  let yoe ← yearOfEra doe
  let y ← i64 (yoe + era * 400)
  let doy ← dayOfYear doe yoe
  let (month, day) ← monthDay doy
  let year ← civilYear y month
  return ⟨year, month, day⟩

/-- `duration_since(UNIX_EPOCH).unwrap_or_default().as_secs()`, of an instant counted in nanoseconds. -/
def asSecs (t : ℤ) : ℕ := (t / 10 ^ 9).toNat

/-- The clock time and the date of an archive entry. -/
def dosDatetime (t : ℤ) : Option (ℕ × ℕ) := do
  let secs := asSecs t
  let days : ℤ := (secs / 86400 : ℕ)
  let rem := secs % 86400
  let (h, m, s) := (rem / 3600, rem % 3600 / 60, rem % 60)
  let (year, month, day) ← (civilFromDays days).map fun date => (date.year, date.month, date.day)
  let year := asU16 (max 1980 (min year 2107))
  let time := shlU16 (asU16 h) 11 ||| shlU16 (asU16 m) 5 ||| asU16 s / 2
  let date := shlU16 (year - 1980) 9 ||| shlU16 (asU16 month) 5 ||| asU16 day
  return (time, date)

end Daemon

namespace Packaging

def civilFromDays (z : ℤ) : Option Date := do
  let z ← i64 (z + 719468)
  -- `div_euclid` and `rem_euclid`
  let era := z / 146097
  let doe := asU64 (z % 146097)
  let yoe ← yearOfEra doe
  let doy ← dayOfYear doe yoe
  let (month, day) ← monthDay doy
  let y ← i64 (yoe + era * 400)
  let year ← i64 (y + if month ≤ 2 then 1 else 0)
  return ⟨year, month, day⟩

def dosEpoch : ℤ := 315532800

/-- The date and the clock time of an archive entry. -/
def dosDatetime (epochSecs : ℤ) : Option (ℕ × ℕ) := do
  let secs := max epochSecs dosEpoch
  let days := secs / 86400
  let tod := secs % 86400
  let (year, month, day) ← (civilFromDays days).map fun date => (date.year, date.month, date.day)
  let year ← i64 (year - 1980)
  let date := shlU16 (asU16 year) 9 ||| shlU16 (asU16 month) 5 ||| asU16 day
  let time := shlU16 (asU16 (tod / 3600)) 11 ||| shlU16 (asU16 (tod / 60 % 60)) 5 ||| asU16 (tod % 60 / 2)
  return (date, time)

end Packaging

/-! ### One era -/

theorem i64_eq {x : ℤ} (hlow : -2 ^ 63 ≤ x) (hhigh : x < 2 ^ 63) : i64 x = some x := if_pos ⟨hlow, hhigh⟩

theorem subU64_eq {a b : ℕ} (h : b ≤ a) : subU64 a b = some (a - b) := if_pos h

theorem asU64_eq {x : ℤ} (hlow : 0 ≤ x) (hhigh : x < 2 ^ 64) : asU64 x = x.toNat := by
  rw [asU64, Int.emod_eq_of_lt hlow hhigh]

/-- A day of an era: its century, its four years, its year of these, and its day of that year. -/
structure EraDay (doe : ℕ) where
  century : ℕ
  cycle : ℕ
  year : ℕ
  day : ℕ
  century_le : century ≤ 3
  cycle_le : cycle ≤ 24
  year_le : year ≤ 3
  doe_eq : doe = 36524 * century + 1461 * cycle + 365 * year + day
  day_lt : day < 365 ∨ day = 365 ∧ year = 3 ∧ (cycle = 24 → century = 3)

namespace EraDay

variable {doe : ℕ} (d : EraDay doe)

def yoe : ℕ := 100 * d.century + 4 * d.cycle + d.year

theorem yoe_div : d.yoe / 4 = 25 * d.century + d.cycle ∧ d.yoe / 100 = d.century ∧ d.yoe < 400 := by
  have hcentury := d.century_le
  have hcycle := d.cycle_le
  have hyear := d.year_le
  unfold yoe
  omega

theorem day_le : d.day ≤ 365 := by
  have hday := d.day_lt
  omega

end EraDay

/-- **The year of an era is the one that its days give.** -/
theorem exists_eraDay {doe : ℕ} (h : doe < 146097) : ∃ d : EraDay doe, yearOfEra doe = some d.yoe := by
  obtain ⟨c, hc, hlow, hhigh⟩ : ∃ c, c ≤ 3 ∧ 36524 * c ≤ doe ∧ (doe < 36524 * (c + 1) ∨ c = 3 ∧ doe = 146096) :=
    ⟨min (doe / 36524) 3, by omega, by omega, by omega⟩
  obtain ⟨k, r, hdoe, hr⟩ : ∃ k r, doe = 36524 * c + 1461 * k + r ∧ r < 1461 :=
    ⟨(doe - 36524 * c) / 1461, (doe - 36524 * c) % 1461, by omega, by omega⟩
  have hk : k ≤ 24 := by omega
  have hvalue : yearOfEra doe = some ((doe - doe / 1460 + doe / 36524 - doe / 146096) / 365) := by
    rw [yearOfEra, subU64_eq (by omega), Option.bind_some, subU64_eq (by omega), Option.map_some]
  refine ⟨⟨c, k, min (r / 365) 3, r - 365 * min (r / 365) 3, hc, hk, by omega, by omega, by omega⟩, ?_⟩
  rw [hvalue]
  show some _ = some (100 * c + 4 * k + min (r / 365) 3)
  have hquot : doe / 1460 = 25 * c + k + (24 * c + k + r) / 1460 := by omega
  have hcentury : doe / 36524 = c ∧ doe / 146096 = 0 ∨ doe = 146096 := by omega
  obtain ⟨hcentury, hlast⟩ | rfl := hcentury
  · rw [hquot, hcentury, hlast]
    -- the fourth year of a cycle is one day longer, which the first quotient counts too early
    have hcarry : (24 * c + k + r) / 1460 = 0 ∨ (24 * c + k + r) / 1460 = 1 := by omega
    obtain hcarry | hcarry := hcarry <;> rw [hcarry] <;> refine congrArg some ?_ <;> omega
  · refine congrArg some ?_
    omega

theorem dayOfYear_eq {doe : ℕ} (d : EraDay doe) : dayOfYear doe d.yoe = some d.day := by
  obtain ⟨hfour, hcentury, -⟩ := d.yoe_div
  have hdoe := d.doe_eq
  have hyoe : d.yoe = 100 * d.century + 4 * d.cycle + d.year := rfl
  rw [dayOfYear, hfour, hcentury, subU64_eq (by omega), Option.bind_some, subU64_eq (by omega)]
  refine congrArg some ?_
  omega

/-! ### Months that start in March -/

/-- The days of a year before a month, counted from March. -/
def marchStart (mp : ℕ) : ℕ := (153 * mp + 2) / 5

theorem monthDay_eq {doy : ℕ} (h : doy ≤ 365) : ∃ mp ≤ 11, marchStart mp ≤ doy ∧ doy < marchStart (mp + 1) ∧
    monthDay doy = some (if mp < 10 then mp + 3 else mp - 9, doy - marchStart mp + 1) := by
  refine ⟨(5 * doy + 2) / 153, by omega, ?_, ?_, ?_⟩
  · unfold marchStart
    omega
  · unfold marchStart
    omega
  · have hstart : (153 * ((5 * doy + 2) / 153) + 2) / 5 ≤ doy := by omega
    unfold monthDay
    simp only
    rw [subU64_eq hstart, Option.bind_some]
    split
    · rw [Option.map_some]
      rfl
    · rw [subU64_eq (by omega), Option.map_some]
      rfl

/-- The months from March on, in the year they are counted from. -/
theorem march_months (year : ℤ) {mp : ℕ} (h : mp < 10) :
    (monthStart year (mp + 3) : ℤ) = yearLength year - 306 + marchStart mp ∧
      monthLength year (mp + 3) = marchStart (mp + 1) - marchStart mp := by
  have hleap : yearLength year = 365 + (if IsLeap year then 1 else 0) := by
    unfold yearLength
    split <;> rfl
  rw [hleap]
  by_cases hyear : IsLeap year
  · interval_cases mp <;> simp [monthStart, monthLength, marchStart, hyear]
  · interval_cases mp <;> simp [monthStart, monthLength, marchStart, hyear]

/-- The year that a date is counted in starts where the era says. -/
theorem yearStart_era {doe : ℕ} (d : EraDay doe) (era : ℤ) :
    yearStart (d.yoe + era * 400 + 1) = era * 146097 + doe - 719468 + 306 - d.day := by
  obtain ⟨hfour, hcentury, hlt⟩ := d.yoe_div
  have hdoe := d.doe_eq
  have hyoe : d.yoe = 100 * d.century + 4 * d.cycle + d.year := rfl
  unfold yearStart leapsThrough
  omega

/-- The last day of February is one of a leap year. -/
theorem isLeap_era {doe : ℕ} (d : EraDay doe) (era : ℤ) (h : d.day = 365) : IsLeap (d.yoe + era * 400 + 1) := by
  have hcentury := d.century_le
  have hcycle := d.cycle_le
  have hday := d.day_lt
  have hyoe : d.yoe = 100 * d.century + 4 * d.cycle + d.year := rfl
  unfold IsLeap
  omega

/-- The date of a day of an era. -/
def eraDate {doe : ℕ} (d : EraDay doe) (era : ℤ) (month day : ℕ) : Date :=
  ⟨d.yoe + era * 400 + (if month ≤ 2 then 1 else 0), month, day⟩

/-- **The date of a day of an era is valid and has the day's number.** -/
theorem eraDate_spec {doe : ℕ} (d : EraDay doe) (era : ℤ) {month day : ℕ} (h : monthDay d.day = some (month, day)) :
    (eraDate d era month day).Valid ∧ (eraDate d era month day).dayNumber = era * 146097 + doe - 719468 := by
  obtain ⟨mp, hmp, hlow, hhigh, hmonthDay⟩ := monthDay_eq d.day_le
  obtain ⟨rfl, rfl⟩ := Prod.mk.inj (Option.some.inj (h.symm.trans hmonthDay))
  have hstart := yearStart_era d era
  by_cases hmonth : mp < 10
  · rw [if_pos hmonth]
    obtain ⟨hbefore, hlength⟩ := march_months (d.yoe + era * 400) hmonth
    have hsucc := yearStart_succ (d.yoe + era * 400)
    have hdate : eraDate d era (mp + 3) (d.day - marchStart mp + 1) =
        ⟨d.yoe + era * 400, mp + 3, d.day - marchStart mp + 1⟩ := by
      rw [eraDate, if_neg (by omega), Int.add_zero]
    rw [hdate]
    refine ⟨⟨by simp only; omega, by simp only; omega, by simp only; omega, ?_⟩, ?_⟩
    · simp only
      rw [hlength]
      omega
    · simp only [Date.dayNumber]
      omega
  · -- January and February belong to the year that has begun
    rw [if_neg hmonth]
    have hdate : eraDate d era (mp - 9) (d.day - marchStart mp + 1) =
        ⟨d.yoe + era * 400 + 1, mp - 9, d.day - marchStart mp + 1⟩ := by
      rw [eraDate, if_pos (by omega)]
    rw [hdate]
    obtain rfl | rfl : mp = 10 ∨ mp = 11 := by omega
    · have hten : marchStart 10 = 306 := by decide
      have heleven : marchStart 11 = 337 := by decide
      rw [heleven] at hhigh
      rw [hten] at hlow ⊢
      have hlength : monthLength (d.yoe + era * 400 + 1) 1 = 31 := rfl
      refine ⟨⟨by simp only; omega, by simp only; omega, by simp only; omega, ?_⟩, ?_⟩
      · show d.day - 306 + 1 ≤ monthLength (d.yoe + era * 400 + 1) 1
        omega
      · have hfirst : monthStart (d.yoe + era * 400 + 1) (10 - 9) = 0 := rfl
        simp only [Date.dayNumber, hfirst]
        omega
    · have heleven : marchStart 11 = 337 := by decide
      rw [heleven] at hlow ⊢
      have hday := d.day_le
      refine ⟨⟨by simp only; omega, by simp only; omega, by simp only; omega, ?_⟩, ?_⟩
      · show d.day - 337 + 1 ≤ monthLength (d.yoe + era * 400 + 1) 2
        rw [monthLength, if_pos rfl]
        by_cases hlast : d.day = 365
        · rw [if_pos (isLeap_era d era hlast)]
          omega
        · split <;> omega
      · have hsecond : monthStart (d.yoe + era * 400 + 1) (11 - 9) = 31 := rfl
        simp only [Date.dayNumber, hsecond]
        omega

/-! ### Both functions -/

/-- The day numbers whose sums stay in range. -/
structure InRange (z : ℤ) : Prop where
  low : -2 ^ 63 ≤ z
  high : z + 719468 < 2 ^ 63

/-- Truncating after the shift rounds down. -/
theorem eraNumerator_tdiv {z : ℤ} (hlow : -2 ^ 63 + 146096 ≤ z) :
    ∃ numerator, Daemon.eraNumerator z = some numerator ∧ numerator.tdiv 146097 = z / 146097 := by
  unfold Daemon.eraNumerator
  by_cases hz : 0 ≤ z
  · rw [if_pos hz]
    exact ⟨z, rfl, Int.tdiv_eq_ediv_of_nonneg hz⟩
  · rw [if_neg hz, i64_eq (by omega) (by omega)]
    refine ⟨z - 146096, rfl, ?_⟩
    have hneg : (z - 146096).tdiv 146097 = -((146096 - z) / 146097) := by
      rw [← Int.neg_sub 146096 z, Int.neg_tdiv, Int.tdiv_eq_ediv_of_nonneg (by omega)]
    rw [hneg]
    omega

/-- What both functions return: the date of the day of the era. -/
theorem civilFromDays_spec {z : ℤ} (h : InRange z) :
    ∃ (doe : ℕ) (d : EraDay doe) (month day : ℕ), monthDay d.day = some (month, day) ∧
      (doe : ℤ) = (z + 719468) % 146097 ∧
      Daemon.civilFromDays z = some (eraDate d ((z + 719468) / 146097) month day) ∧
      Packaging.civilFromDays z = some (eraDate d ((z + 719468) / 146097) month day) := by
  have hlow := h.low
  have hhigh := h.high
  have hera := Int.mul_ediv_add_emod (z + 719468) 146097
  have hpos := Int.emod_nonneg (z + 719468) (by decide : (146097 : ℤ) ≠ 0)
  have hlt := Int.emod_lt_of_pos (z + 719468) (by decide : (0 : ℤ) < 146097)
  have hz : i64 (z + 719468) = some (z + 719468) := i64_eq (by omega) hhigh
  obtain ⟨numerator, hnumerator, htdiv⟩ := eraNumerator_tdiv (z := z + 719468) (by omega)
  generalize hw : z + 719468 = w at *
  generalize hq : w / 146097 = era at *
  generalize hr : w % 146097 = rest at *
  obtain ⟨doe, rfl⟩ := Int.eq_ofNat_of_zero_le hpos
  obtain ⟨d, hyoe⟩ := exists_eraDay (by omega : doe < 146097)
  have hdoy := dayOfYear_eq d
  have hyear := d.yoe_div.2.2
  obtain ⟨mp, -, -, -, hmonthDay⟩ := monthDay_eq d.day_le
  have hdistance : asU64 (doe : ℤ) = doe := by
    rw [asU64_eq (by omega) (by omega), Int.toNat_natCast]
  have hy : i64 (d.yoe + era * 400) = some (d.yoe + era * 400) := i64_eq (by omega) (by omega)
  refine ⟨doe, d, _, _, hmonthDay, rfl, ?_, ?_⟩
  · have hstart : i64 (era * 146097) = some (era * 146097) := i64_eq (by omega) (by omega)
    have hrest : i64 (w - era * 146097) = some (doe : ℤ) := by
      rw [i64_eq (by omega) (by omega)]
      exact congrArg some (by omega)
    have hcivil : ∀ month, Daemon.civilYear (d.yoe + era * 400) month =
        some (d.yoe + era * 400 + if month ≤ 2 then 1 else 0) := by
      intro month
      unfold Daemon.civilYear
      split
      · exact i64_eq (by omega) (by omega)
      · rw [Int.add_zero]
    unfold Daemon.civilFromDays
    simp only [Option.bind_eq_bind, hw, hz, hnumerator, htdiv, hstart, hrest, hdistance, hyoe, hy, hdoy, hmonthDay,
      hcivil, Option.bind_some]
    rfl
  · have hcivil : ∀ month : ℕ, i64 (d.yoe + era * 400 + if month ≤ 2 then 1 else 0) =
        some (d.yoe + era * 400 + if month ≤ 2 then 1 else 0) := by
      intro month
      split <;> exact i64_eq (by omega) (by omega)
    unfold Packaging.civilFromDays
    simp only [Option.bind_eq_bind, hw, hz, hq, hr, hdistance, hyoe, hy, hdoy, hmonthDay, hcivil, Option.bind_some]
    rfl

/-- **Both functions return the one valid date of a day number.** -/
theorem civilFromDays_date {z : ℤ} (h : InRange z) :
    ∃ date : Date, Daemon.civilFromDays z = some date ∧ Packaging.civilFromDays z = some date ∧ date.Valid ∧
      date.dayNumber = z := by
  obtain ⟨doe, d, month, day, hmonthDay, hdoe, hdaemon, hpackaging⟩ := civilFromDays_spec h
  obtain ⟨hvalid, hnumber⟩ := eraDate_spec d ((z + 719468) / 146097) hmonthDay
  refine ⟨_, hdaemon, hpackaging, hvalid, ?_⟩
  have hera := Int.mul_ediv_add_emod (z + 719468) 146097
  rw [hnumber]
  omega

/-- Day numbers that follow each other have dates that follow each other. -/
theorem civilFromDays_next {z : ℤ} (h : InRange z) (hnext : InRange (z + 1)) {date : Date}
    (hdate : Daemon.civilFromDays z = some date) : Daemon.civilFromDays (z + 1) = some date.next := by
  obtain ⟨date', hz, -, hvalid, hnumber⟩ := civilFromDays_date h
  obtain rfl : date = date' := Option.some.inj (hdate.symm.trans hz)
  obtain ⟨after, hafter, -, hafterValid, hafterNumber⟩ := civilFromDays_date hnext
  rw [hafter]
  refine congrArg some (hafterValid.eq_of_dayNumber hvalid.next ?_)
  rw [hafterNumber, hvalid.dayNumber_next, hnumber]

/-! ### The fields of an archive date -/

theorem asU16_eq {n : ℕ} (h : n < 2 ^ 16) : asU16 n = n := by
  unfold asU16
  omega

/-- Three fields side by side: shifts and disjunctions add up when no field runs over. -/
theorem pack_eq {a b c k : ℕ} (hk : k = 9 ∨ k = 11) (ha : a < 2 ^ (16 - k)) (hb : b < 2 ^ (k - 5)) (hc : c < 2 ^ 5) :
    (shlU16 a k ||| shlU16 b 5 ||| c) = a * 2 ^ k + b * 2 ^ 5 + c := by
  have hhigh : a <<< k < 2 ^ 16 := by
    rw [Nat.shiftLeft_eq]
    obtain rfl | rfl := hk <;> omega
  have hmiddle : b <<< 5 < 2 ^ k := by
    rw [Nat.shiftLeft_eq]
    obtain rfl | rfl := hk <;> omega
  have hmiddle' : b <<< 5 < 2 ^ 16 := by
    rw [Nat.shiftLeft_eq]
    obtain rfl | rfl := hk <;> omega
  unfold shlU16
  rw [Nat.mod_eq_of_lt hhigh, Nat.mod_eq_of_lt hmiddle', ← Nat.shiftLeft_add_eq_or_of_lt hmiddle]
  -- the two upper fields together are again a multiple of the place of the lowest one
  have hupper : a <<< k + b <<< 5 = (a * 2 ^ (k - 5) + b) <<< 5 := by
    simp only [Nat.shiftLeft_eq]
    obtain rfl | rfl := hk <;> omega
  rw [hupper, ← Nat.shiftLeft_add_eq_or_of_lt hc, Nat.shiftLeft_eq]
  obtain rfl | rfl := hk <;> omega

/-- What a clock time and a date of an archive entry stand for. -/
structure Stamp where
  date : Date
  hour : ℕ
  minute : ℕ
  second : ℕ
deriving DecidableEq

structure Stamp.Valid (stamp : Stamp) : Prop where
  date : stamp.date.Valid
  hour : stamp.hour < 24
  minute : stamp.minute < 60
  second : stamp.second < 60

/-- Seconds from 1970-01-01. -/
def Stamp.seconds (stamp : Stamp) : ℤ :=
  stamp.date.dayNumber * 86400 + stamp.hour * 3600 + stamp.minute * 60 + stamp.second

/-- How a reader of an archive takes the two fields apart. -/
def decodeDos (time date : ℕ) : Stamp :=
  ⟨⟨1980 + (date / 2 ^ 9 : ℕ), date / 2 ^ 5 % 2 ^ 4, date % 2 ^ 5⟩, time / 2 ^ 11, time / 2 ^ 5 % 2 ^ 6, 2 * (time % 2 ^ 5)⟩

/-- The two fields of a date and of a time of that day. -/
def dosDate (year month day : ℕ) : ℕ := year * 2 ^ 9 + month * 2 ^ 5 + day

def dosTime (tod : ℕ) : ℕ := tod / 3600 * 2 ^ 11 + tod / 60 % 60 * 2 ^ 5 + tod % 60 / 2

/-- Taken apart, the fields give the date and the time without its odd second. -/
theorem decodeDos_spec {year month day tod : ℕ} (hyear : year ≤ 127) (hvalid : Date.Valid ⟨1980 + year, month, day⟩)
    (htod : tod < 86400) :
    dosTime tod < 2 ^ 16 ∧ dosDate year month day < 2 ^ 16 ∧
      (decodeDos (dosTime tod) (dosDate year month day)).Valid ∧
      (decodeDos (dosTime tod) (dosDate year month day)).seconds =
        Date.dayNumber ⟨1980 + year, month, day⟩ * 86400 + tod - tod % 2 := by
  have hmonth := hvalid.month_le
  have hday : day ≤ 31 := le_trans hvalid.day_le (monthLength_le _ _)
  simp only at hmonth
  have hdate : (decodeDos (dosTime tod) (dosDate year month day)).date = ⟨1980 + year, month, day⟩ := by
    show (⟨1980 + (dosDate year month day / 2 ^ 9 : ℕ), dosDate year month day / 2 ^ 5 % 2 ^ 4,
      dosDate year month day % 2 ^ 5⟩ : Date) = _
    have hy : dosDate year month day / 2 ^ 9 = year := by
      unfold dosDate
      omega
    have hm : dosDate year month day / 2 ^ 5 % 2 ^ 4 = month := by
      unfold dosDate
      omega
    have hd : dosDate year month day % 2 ^ 5 = day := by
      unfold dosDate
      omega
    rw [hy, hm, hd]
  have hhour : (decodeDos (dosTime tod) (dosDate year month day)).hour = tod / 3600 := by
    show dosTime tod / 2 ^ 11 = tod / 3600
    unfold dosTime
    omega
  have hminute : (decodeDos (dosTime tod) (dosDate year month day)).minute = tod / 60 % 60 := by
    show dosTime tod / 2 ^ 5 % 2 ^ 6 = tod / 60 % 60
    unfold dosTime
    omega
  have hsecond : (decodeDos (dosTime tod) (dosDate year month day)).second = 2 * (tod % 60 / 2) := by
    show 2 * (dosTime tod % 2 ^ 5) = 2 * (tod % 60 / 2)
    unfold dosTime
    omega
  refine ⟨?_, ?_, ⟨?_, ?_, ?_, ?_⟩, ?_⟩
  · unfold dosTime
    omega
  · unfold dosDate
    omega
  · rw [hdate]
    exact hvalid
  · rw [hhour]
    omega
  · rw [hminute]
    omega
  · rw [hsecond]
    omega
  · rw [Stamp.seconds, hdate, hhour, hminute, hsecond]
    omega

/-- The days of 1980-01-01 up to 2107-12-31 are in the years an archive can hold. -/
theorem year_of_dayNumber {date : Date} (h : date.Valid) (hlow : 3652 ≤ date.dayNumber)
    (hhigh : date.dayNumber < 50403) : 1980 ≤ date.year ∧ date.year ≤ 2107 := by
  have hwithin := h.within
  have hfirst : yearStart 1980 = 3652 := by decide
  have hlast : yearStart 2108 = 50403 := by decide
  constructor
  · by_contra hbefore
    have hstart := yearStart_lt (by omega : date.year < 1980)
    omega
  · by_contra hafter
    have hstart := yearStart_mono (by omega : 2108 ≤ date.year)
    omega

/-- **Both functions give the fields of the date and time of a second.** -/
theorem dosDatetime_eq {t : ℤ} (hlow : 315532800 ≤ t / 10 ^ 9) (hhigh : t / 10 ^ 9 ≤ 4354819199) :
    ∃ (n year month day : ℕ), t / 10 ^ 9 = n ∧ year ≤ 127 ∧ Date.Valid ⟨1980 + year, month, day⟩ ∧
      Date.dayNumber ⟨1980 + year, month, day⟩ = (n / 86400 : ℕ) ∧
      Daemon.dosDatetime t = some (dosTime (n % 86400), dosDate year month day) ∧
      Packaging.dosDatetime (t / 10 ^ 9) = some (dosDate year month day, dosTime (n % 86400)) := by
  have hsecs : Daemon.asSecs t = (t / 10 ^ 9).toNat := rfl
  obtain ⟨n, hn⟩ := Int.eq_ofNat_of_zero_le (by omega : 0 ≤ t / 10 ^ 9)
  rw [hn] at hlow hhigh hsecs ⊢
  rw [Int.toNat_natCast] at hsecs
  obtain ⟨date, hdaemon, hpackaging, hvalid, hnumber⟩ :=
    civilFromDays_date (z := (n / 86400 : ℕ)) ⟨by omega, by omega⟩
  obtain ⟨hyearLow, hyearHigh⟩ := year_of_dayNumber hvalid (by omega) (by omega)
  obtain ⟨year, month, day⟩ := date
  obtain ⟨y, rfl⟩ : ∃ y : ℕ, year = 1980 + y := ⟨(year - 1980).toNat, by simp only at hyearLow; omega⟩
  have hy : y ≤ 127 := by
    simp only at hyearHigh
    omega
  have hmonth : month ≤ 12 := hvalid.month_le
  have hday : day ≤ 31 := le_trans hvalid.day_le (monthLength_le _ _)
  have hmonth16 : asU16 month = month := asU16_eq (by omega)
  have hday16 : asU16 day = day := asU16_eq (by omega)
  refine ⟨n, y, month, day, rfl, hy, hvalid, hnumber, ?_, ?_⟩
  · have hyear : asU16 (max 1980 (min (1980 + (y : ℤ)) 2107)) = 1980 + y := by
      unfold asU16
      omega
    have hh : asU16 (n % 86400 / 3600 : ℕ) = n % 86400 / 3600 := asU16_eq (by omega)
    have hm : asU16 (n % 86400 % 3600 / 60 : ℕ) = n % 86400 / 60 % 60 := by
      rw [asU16_eq (by omega)]
      omega
    have hs : asU16 (n % 86400 % 60 : ℕ) = n % 86400 % 60 := asU16_eq (by omega)
    unfold Daemon.dosDatetime
    simp only [Option.bind_eq_bind, hsecs, hdaemon, Option.map_some, Option.bind_some, hyear, hh, hm, hs, hmonth16,
      hday16, Nat.add_sub_cancel_left]
    rw [pack_eq (.inr rfl) (by omega) (by omega) (by omega), pack_eq (.inl rfl) (by omega) (by omega) (by omega)]
    rfl
  · have hmax : max (n : ℤ) Packaging.dosEpoch = n := max_eq_left hlow
    have hdays : (n : ℤ) / 86400 = (n / 86400 : ℕ) := by omega
    have hyear : i64 (1980 + (y : ℤ) - 1980) = some (y : ℤ) := by
      rw [i64_eq (by omega) (by omega)]
      exact congrArg some (by omega)
    have hyear16 : asU16 y = y := asU16_eq (by omega)
    have hh : asU16 ((n : ℤ) % 86400 / 3600) = n % 86400 / 3600 := by
      unfold asU16
      omega
    have hm : asU16 ((n : ℤ) % 86400 / 60 % 60) = n % 86400 / 60 % 60 := by
      unfold asU16
      omega
    have hs : asU16 ((n : ℤ) % 86400 % 60 / 2) = n % 86400 % 60 / 2 := by
      unfold asU16
      omega
    unfold Packaging.dosDatetime
    simp only [Option.bind_eq_bind, hmax, hdays, hpackaging, Option.map_some, Option.bind_some, hyear, hh, hm, hs,
      hmonth16, hday16, hyear16]
    rw [pack_eq (.inl rfl) (by omega) (by omega) (by omega), pack_eq (.inr rfl) (by omega) (by omega) (by omega)]
    rfl

/-- **Day numbers and dates correspond, in both functions, and the two fields of an archive entry hold the instant
rounded down to two seconds.**  A value is what a run without an underflow returns. -/
theorem civil_dates :
    (∀ z, InRange z → ∃ date, Daemon.civilFromDays z = some date ∧ Packaging.civilFromDays z = some date ∧
      date.Valid ∧ date.dayNumber = z ∧ (∀ other : Date, other.Valid → other.dayNumber = z → other = date) ∧
      (InRange (z + 1) → Daemon.civilFromDays (z + 1) = some date.next)) ∧
    ∀ t : ℤ, 315532800 ≤ t / 10 ^ 9 → t / 10 ^ 9 ≤ 4354819199 → ∃ time date,
      Daemon.dosDatetime t = some (time, date) ∧ Packaging.dosDatetime (t / 10 ^ 9) = some (date, time) ∧
      time < 2 ^ 16 ∧ date < 2 ^ 16 ∧ (decodeDos time date).Valid ∧
      (decodeDos time date).seconds = t / 10 ^ 9 - t / 10 ^ 9 % 2 := by
  refine ⟨?_, ?_⟩
  · intro z h
    obtain ⟨date, hdaemon, hpackaging, hvalid, hnumber⟩ := civilFromDays_date h
    refine ⟨date, hdaemon, hpackaging, hvalid, hnumber, ?_, fun hnext => civilFromDays_next h hnext hdaemon⟩
    intro other hother heq
    exact hother.eq_of_dayNumber hvalid (heq.trans hnumber.symm)
  · intro t hlow hhigh
    obtain ⟨n, year, month, day, hn, hyear, hvalid, hnumber, hdaemon, hpackaging⟩ := dosDatetime_eq hlow hhigh
    obtain ⟨htime, hdate, hstamp, hseconds⟩ := decodeDos_spec hyear hvalid (Nat.mod_lt n (by omega : 0 < 86400))
    refine ⟨_, _, hdaemon, hpackaging, htime, hdate, hstamp, ?_⟩
    rw [hseconds, hnumber, hn]
    omega

/-- A leap day, the day before the epoch, and an odd second of that leap day. -/
theorem civil_dates_leap :
    (Daemon.civilFromDays 19782 = some ⟨2024, 2, 29⟩ ∧ Packaging.civilFromDays 19782 = some ⟨2024, 2, 29⟩ ∧
      Daemon.civilFromDays 19783 = some (Date.next ⟨2024, 2, 29⟩)) ∧
    (Daemon.civilFromDays (-1) = some ⟨1969, 12, 31⟩ ∧ Packaging.civilFromDays (-1) = some ⟨1969, 12, 31⟩) ∧
    ∃ time date, Daemon.dosDatetime (1709210097 * 10 ^ 9 + 1) = some (time, date) ∧
      Packaging.dosDatetime 1709210097 = some (date, time) ∧ (decodeDos time date).seconds = 1709210096 := by
  obtain ⟨hdays, hinstants⟩ := civil_dates
  refine ⟨?_, ?_, ?_⟩
  · obtain ⟨date, hdaemon, hpackaging, -, -, hunique, hnext⟩ := hdays 19782 ⟨by decide, by decide⟩
    obtain rfl := hunique ⟨2024, 2, 29⟩ ⟨by decide, by decide, by decide, by decide⟩ (by decide)
    exact ⟨hdaemon, hpackaging, hnext ⟨by decide, by decide⟩⟩
  · obtain ⟨date, hdaemon, hpackaging, -, -, hunique, -⟩ := hdays (-1) ⟨by decide, by decide⟩
    obtain rfl := hunique ⟨1969, 12, 31⟩ ⟨by decide, by decide, by decide, by decide⟩ (by decide)
    exact ⟨hdaemon, hpackaging⟩
  · obtain ⟨time, date, hdaemon, hpackaging, -, -, -, hseconds⟩ :=
      hinstants (1709210097 * 10 ^ 9 + 1) (by decide) (by decide)
    exact ⟨time, date, hdaemon, hpackaging, hseconds⟩

end FluxRs.Release
