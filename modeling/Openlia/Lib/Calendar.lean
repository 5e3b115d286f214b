import Mathlib.Algebra.Order.Ring.Int
import Mathlib.Tactic.IntervalCases
import Mathlib.Tactic.Common

/-! # The Gregorian calendar

Days are numbered from 1 January 1970 on, in both directions. Each number is that of one date.
-/

namespace Openlia.Lib.Calendar

/-! ## Years -/

def leap (year : Int) : Bool := year % 4 = 0 && (year % 100 ≠ 0 || year % 400 = 0)

def yearDays (year : Int) : Int := if leap year then 366 else 365

/-- The number of 1 January. -/
def yearStart (year : Int) : Int :=
  365 * (year - 1) + (year - 1) / 4 - (year - 1) / 100 + (year - 1) / 400 - 719162

theorem yearStart_succ (year : Int) : yearStart (year + 1) = yearStart year + yearDays year := by
  have hleap : leap year = true ↔ year % 4 = 0 ∧ (year % 100 ≠ 0 ∨ year % 400 = 0) := by
    simp [leap]
  unfold yearDays
  split
  · rename_i h
    rw [hleap] at h
    unfold yearStart
    omega
  · rename_i h
    rw [hleap] at h
    unfold yearStart
    omega

theorem yearStart_mono {year year' : Int} (h : year ≤ year') :
    yearStart year ≤ yearStart year' := by
  unfold yearStart
  omega

/-- The year of a day: an estimate that may be off by one. -/
def yearOf (n : Int) : Int :=
  let year := 400 * (n + 719162) / 146097 + 1
  if n < yearStart year then year - 1
  else if yearStart (year + 1) ≤ n then year + 1
  else year

theorem yearOf_spec (n : Int) : yearStart (yearOf n) ≤ n ∧ n < yearStart (yearOf n + 1) := by
  unfold yearOf
  dsimp only
  split
  · unfold yearStart at *
    omega
  · split
    · unfold yearStart at *
      omega
    · omega

theorem yearOf_eq {n year : Int} (h : yearStart year ≤ n) (h' : n < yearStart (year + 1)) :
    yearOf n = year := by
  obtain ⟨hle, hlt⟩ := yearOf_spec n
  rcases lt_trichotomy (yearOf n) year with hlt' | heq | hgt
  · have hmono := yearStart_mono (show yearOf n + 1 ≤ year by omega)
    omega
  · exact heq
  · have hmono := yearStart_mono (show year + 1 ≤ yearOf n by omega)
    omega

/-! ## Days of a year -/

def monthDays (leap : Bool) (month : Nat) : Nat :=
  if month = 2 then if leap then 29 else 28
  else if month = 4 ∨ month = 6 ∨ month = 9 ∨ month = 11 then 30
  else 31

/-- The days of the months before. -/
def daysBefore (leap : Bool) (month : Nat) : Nat :=
  ((List.range (month - 1)).map fun m => monthDays leap (m + 1)).sum

def monthOf (leap : Bool) (day : Nat) : Nat :=
  ((List.range 12).filter fun m => daysBefore leap (m + 1) ≤ day).length

theorem monthOf_daysBefore : ∀ leap : Bool, ∀ month < 13, 1 ≤ month → ∀ day < 32,
    day < monthDays leap month → monthOf leap (daysBefore leap month + day) = month := by
  decide +kernel

theorem monthOf_spec : ∀ leap : Bool, ∀ day < (if leap then 366 else 365),
    1 ≤ monthOf leap day ∧ monthOf leap day ≤ 12 ∧ daysBefore leap (monthOf leap day) ≤ day ∧
      day < daysBefore leap (monthOf leap day) + monthDays leap (monthOf leap day) := by
  decide +kernel

theorem daysBefore_add_le : ∀ leap : Bool, ∀ month < 13, 1 ≤ month →
    daysBefore leap month + monthDays leap month ≤ if leap then 366 else 365 := by
  decide +kernel

theorem monthDays_le (leap : Bool) (month : Nat) : monthDays leap month ≤ 31 := by
  unfold monthDays
  split
  · split <;> omega
  · split <;> omega

/-! ## Dates -/

structure CivilDate where
  year : Int
  month : Nat
  day : Nat
  deriving DecidableEq

def CivilDate.Valid (c : CivilDate) : Prop :=
  1 ≤ c.month ∧ c.month ≤ 12 ∧ 1 ≤ c.day ∧ c.day ≤ monthDays (leap c.year) c.month

instance (c : CivilDate) : Decidable c.Valid := inferInstanceAs (Decidable (_ ∧ _))

/-- The number of a day; a day after the end of a month counts on. -/
def CivilDate.number (c : CivilDate) : Int :=
  yearStart c.year + daysBefore (leap c.year) c.month + (c.day - 1)

def civilDate (n : Int) : CivilDate :=
  let year := yearOf n
  let day := (n - yearStart year).toNat
  let month := monthOf (leap year) day
  ⟨year, month, day - daysBefore (leap year) month + 1⟩

theorem civilDate_spec (n : Int) : (civilDate n).Valid ∧ (civilDate n).number = n := by
  obtain ⟨hle, hlt⟩ := yearOf_spec n
  rw [yearStart_succ] at hlt
  have hday : (n - yearStart (yearOf n)).toNat < if leap (yearOf n) then 366 else 365 := by
    unfold yearDays at hlt
    split <;> split at hlt <;> first | omega | contradiction
  obtain ⟨hone, htwelve, hbefore, hafter⟩ := monthOf_spec _ _ hday
  refine ⟨⟨hone, htwelve, Nat.le_add_left 1 _, ?_⟩, ?_⟩
  · simp only [civilDate]
    omega
  · simp only [CivilDate.number, civilDate]
    omega

/-- The first date with a number is the only one. -/
theorem civilDate_number {c : CivilDate} (h : c.Valid) : civilDate c.number = c := by
  obtain ⟨hone, htwelve, hday, hlast⟩ := h
  have hbefore := daysBefore_add_le (leap c.year) c.month (by omega) hone
  have hyear : yearOf c.number = c.year := by
    apply yearOf_eq
    · unfold CivilDate.number
      omega
    · rw [yearStart_succ]
      unfold CivilDate.number yearDays
      split <;> split at hbefore <;> first | omega | contradiction
  have hmonth := monthOf_daysBefore (leap c.year) c.month (by omega) hone (c.day - 1)
    (by have := monthDays_le (leap c.year) c.month; omega) (by omega)
  have hoffset : (c.number - yearStart c.year).toNat =
      daysBefore (leap c.year) c.month + (c.day - 1) := by
    unfold CivilDate.number
    omega
  unfold civilDate
  simp only [hyear, hoffset, hmonth]
  obtain ⟨year, month, day⟩ := c
  simp only [CivilDate.mk.injEq, true_and]
  dsimp only at hday
  omega

end Openlia.Lib.Calendar
