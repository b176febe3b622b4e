import LoadReplay.Timestamp
import Mathlib.Order.Basic
import Mathlib.Tactic.SplitIfs

/-!
# From one day to the next

The number of a date is the number of days since 1970: it is one more for the day after
(`Date.dayNumber_tomorrow`) and one less for the day before (`Date.dayNumber_yesterday`). An offset
from UTC is less than a day, so a reading of calendar and clock is converted to UTC by changing the
time of day and, where midnight is passed, stepping to the day before or after
(`Reading.unixSeconds_toUtc`).
-/

namespace LoadReplay

namespace Date

variable {d : Date} {year : Int} {month : Nat}

/-! ## Months and years -/

/-- Every month of the year has from 28 to 31 days. -/
theorem daysInMonth_bounds (year : Int) (hfirst : 1 ≤ month) (hlast : month ≤ 12) :
    28 ≤ daysInMonth year month ∧ daysInMonth year month ≤ 31 := by
  unfold daysInMonth
  split_ifs <;> omega

theorem daysBeforeMonth_succ (year : Int) (hfirst : 1 ≤ month) :
    daysBeforeMonth year (month + 1) = daysBeforeMonth year month + daysInMonth year month := by
  obtain ⟨m, rfl⟩ : ∃ m, month = m + 1 := ⟨month - 1, by omega⟩
  simp [daysBeforeMonth, List.range_succ]

theorem daysBeforeMonth_december :
    daysBeforeMonth year 12 = if isLeapYear year then 335 else 334 := by
  cases h : isLeapYear year <;> simp [daysBeforeMonth, daysInMonth, List.range_succ, h]

theorem daysBeforeYear_succ :
    daysBeforeYear (year + 1) = daysBeforeYear year + if isLeapYear year then 366 else 365 := by
  simp only [daysBeforeYear, isLeapYear, Bool.and_eq_true, Bool.or_eq_true, decide_eq_true_eq]
  split <;> omega

/-! ## Days -/

/-- The day after a date. -/
def tomorrow (d : Date) : Date :=
  if d.day < daysInMonth d.year d.month then { d with day := d.day + 1 }
  else if d.month < 12 then ⟨d.year, d.month + 1, 1⟩
  else ⟨d.year + 1, 1, 1⟩

/-- The day before a date. -/
def yesterday (d : Date) : Date :=
  if 1 < d.day then { d with day := d.day - 1 }
  else if 1 < d.month then ⟨d.year, d.month - 1, daysInMonth d.year (d.month - 1)⟩
  else ⟨d.year - 1, 12, 31⟩

theorem isValid_mk {day : Nat} : IsValid ⟨year, month, day⟩ ↔
    1 ≤ month ∧ month ≤ 12 ∧ 1 ≤ day ∧ day ≤ daysInMonth year month :=
  Iff.rfl

theorem daysInMonth_december : daysInMonth year 12 = 31 := by simp [daysInMonth]

theorem IsValid.tomorrow (h : d.IsValid) : d.tomorrow.IsValid := by
  obtain ⟨hfirst, hlast, hday, hlength⟩ := h
  unfold Date.tomorrow
  split_ifs with hmonth hyear
  · rw [isValid_mk]
    omega
  · have := daysInMonth_bounds d.year (show 1 ≤ d.month + 1 by omega) hyear
    rw [isValid_mk]
    omega
  · rw [isValid_mk]
    simp [daysInMonth]

theorem IsValid.yesterday (h : d.IsValid) : d.yesterday.IsValid := by
  obtain ⟨hfirst, hlast, hday, hlength⟩ := h
  unfold Date.yesterday
  split_ifs with hmonth hyear
  · rw [isValid_mk]
    omega
  · have := daysInMonth_bounds d.year (show 1 ≤ d.month - 1 by omega) (by omega)
    rw [isValid_mk]
    omega
  · rw [isValid_mk, daysInMonth_december]
    omega

theorem dayNumber_tomorrow (h : d.IsValid) : d.tomorrow.dayNumber = d.dayNumber + 1 := by
  obtain ⟨hfirst, hlast, hday, hlength⟩ := h
  unfold Date.tomorrow
  split_ifs with hmonth hyear
  · simp only [dayNumber]
    omega
  · have hbefore := daysBeforeMonth_succ d.year hfirst
    simp only [dayNumber, hbefore]
    omega
  · -- the last day of the year
    have hdecember : d.month = 12 := by omega
    have hnone : daysBeforeMonth (d.year + 1) 1 = 0 := rfl
    rw [hdecember, daysInMonth_december] at hmonth hlength
    simp only [dayNumber, hdecember, hnone, daysBeforeMonth_december, daysBeforeYear_succ]
    split <;> omega

theorem tomorrow_yesterday (h : d.IsValid) : d.yesterday.tomorrow = d := by
  obtain ⟨year, month, day⟩ := d
  obtain ⟨hfirst, hlast, hday, hlength⟩ := h
  dsimp only at hfirst hlast hday hlength
  unfold Date.yesterday
  dsimp only
  split_ifs with hmonth hyear
  · have hback : day - 1 + 1 = day := by omega
    rw [Date.tomorrow, if_pos (by dsimp only; omega)]
    simp only [hback]
  · have hback : month - 1 + 1 = month := by omega
    rw [Date.tomorrow, if_neg (by dsimp only; omega), if_pos (by dsimp only; omega)]
    simp only [hback, Date.mk.injEq, true_and]
    omega
  · rw [Date.tomorrow, if_neg (by simp [daysInMonth]), if_neg (by simp)]
    simp only [Date.mk.injEq]
    omega

theorem dayNumber_yesterday (h : d.IsValid) : d.yesterday.dayNumber = d.dayNumber - 1 := by
  have hstep := dayNumber_tomorrow h.yesterday
  rw [tomorrow_yesterday h] at hstep
  omega

/-! ## Years of four digits -/

theorem daysBeforeMonth_le (year : Int) {m : Nat} (h : m ≤ 12) :
    daysBeforeMonth year (m + 1) ≤ 31 * m := by
  induction m with
  | zero => exact Nat.le_refl 0
  | succ m ih =>
    have hmonth := daysInMonth_bounds year (Nat.le_add_left 1 m) h
    have hbefore := ih (by omega)
    rw [daysBeforeMonth_succ year (Nat.le_add_left 1 m)]
    omega

/-- The days of years of four digits are far from the ends of time. -/
theorem dayNumber_bounds (h : d.IsValid) (hfirst : 1 ≤ d.year) (hlast : d.year ≤ 9999) :
    earliest.dayNumber + 1 < d.dayNumber ∧ d.dayNumber + 1 < latest.dayNumber := by
  obtain ⟨hmonth, hmonth', hday, hlength⟩ := h
  have hlong := daysInMonth_bounds d.year hmonth hmonth'
  have hbefore := daysBeforeMonth_le d.year (show d.month - 1 ≤ 12 by omega)
  rw [Nat.sub_add_cancel hmonth] at hbefore
  have hearliest : earliest.dayNumber ≤ -800000 := by decide
  have hlatest : 3000000 ≤ latest.dayNumber := by decide
  have hepoch : daysBeforeYear 1970 = 719528 := by decide
  have hnumber : d.dayNumber = daysBeforeYear d.year - daysBeforeYear 1970 +
      daysBeforeMonth d.year d.month + d.day - 1 := rfl
  rw [hepoch, daysBeforeYear] at hnumber
  omega

end Date

namespace Reading

variable {r : Reading} {offset : Int}

/-- The seconds from 1970 to a reading, as if it were in UTC. -/
def unixSeconds (r : Reading) : Int :=
  r.date.dayNumber * 86400 + r.hour * 3600 + r.minute * 60 + r.second

/-- The reading in UTC of a reading at an offset of so many seconds east of it, which are less than
a day. -/
def toUtc (r : Reading) (offset : Int) : Reading :=
  let clock : Int := r.hour * 3600 + r.minute * 60 + r.second - offset
  let rest := (clock % 86400).toNat
  { date := if clock < 0 then r.date.yesterday
      else if clock < 86400 then r.date else r.date.tomorrow
    hour := rest / 3600
    minute := rest / 60 % 60
    second := rest % 60
    nanos := r.nanos }

theorem second_toUtc_lt : (r.toUtc offset).second < 60 := Nat.mod_lt _ (by decide)

theorem IsValid.toUtc (h : r.IsValid) : (r.toUtc offset).IsValid := by
  obtain ⟨hdate, -, -, -⟩ := h
  have hminute : (r.toUtc offset).minute < 60 := Nat.mod_lt _ (by decide)
  refine ⟨?_, ?_, hminute, Nat.le_of_lt second_toUtc_lt⟩
  · unfold Reading.toUtc
    dsimp only
    split_ifs
    · exact hdate.yesterday
    · exact hdate
    · exact hdate.tomorrow
  · unfold Reading.toUtc
    dsimp only
    omega

/-- Converted to UTC a reading denotes the same second. -/
theorem unixSeconds_toUtc (h : r.IsValid) (hsecond : r.second < 60)
    (hoffset : offset.natAbs < 86400) :
    (r.toUtc offset).unixSeconds = r.unixSeconds - offset := by
  obtain ⟨hdate, hhour, hminute, -⟩ := h
  have hbefore := Date.dayNumber_yesterday hdate
  have hafter := Date.dayNumber_tomorrow hdate
  unfold unixSeconds Reading.toUtc
  dsimp only
  split_ifs <;> omega

/-- The instant of a reading in a year of four digits. -/
theorem instant?_eq (h : r.IsValid) (hsecond : r.second < 60) (hfirst : 1 ≤ r.date.year)
    (hlast : r.date.year ≤ 9999) (hoffset : offset.natAbs < 86400) :
    r.instant? offset = some ⟨r.unixSeconds - offset, r.nanos⟩ := by
  obtain ⟨hlower, hupper⟩ := Date.dayNumber_bounds h.1 hfirst hlast
  obtain ⟨-, hhour, hminute, -⟩ := id h
  have hmin : min r.second 59 = r.second := by omega
  rw [instant?]
  dsimp only
  rw [hmin, if_neg (show ¬ r.second = 60 by omega), if_pos ⟨h, by omega, by omega⟩, unixSeconds]
  rfl

end Reading

end LoadReplay
