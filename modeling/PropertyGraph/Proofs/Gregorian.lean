import Mathlib.Algebra.GroupWithZero.Nat
import PropertyGraph.Proofs.DayCount

/-!
# The rules of the Gregorian calendar

Leap years, the lengths of the months and the days of the years as they are laid down, apart from the functions that
turn dates and day numbers into each other.  Nothing here is a formula: the twelve lengths stand in a list, a year has
the days of its months, and days are counted by adding up years and months.  The key facts: the dates of these rules
are the valid dates (`isDate_iff`), and the days they count are those of the calendar (`daysSinceEpoch_eq_count`).
-/

namespace PropertyGraph.Gregorian

/-- Every fourth year is a leap year, a hundredth one only if it is a four hundredth one. -/
def IsLeap (year : Nat) : Prop := 4 ∣ year ∧ (100 ∣ year → 400 ∣ year)

instance (year : Nat) : Decidable (IsLeap year) := inferInstanceAs (Decidable (_ ∧ _))

/-- The days of the twelve months, from January on. -/
def monthLengths (year : Nat) : List Nat :=
  [31, if IsLeap year then 29 else 28, 31, 30, 31, 30, 31, 31, 30, 31, 30, 31]

/-- A date has one of the twelve months and a day that this month has. -/
def IsDate (year month day : Nat) : Prop :=
  1 ≤ month ∧ ∃ length ∈ (monthLengths year)[month - 1]?, 1 ≤ day ∧ day ≤ length

/-- The days of a year are those of its months. -/
def yearLength (year : Nat) : Nat := (monthLengths year).sum

/-- The days from 0000-01-01 to a date: those of the years before its year, of the months before its month and of its
month before it. -/
def daysBefore (year month day : Nat) : Nat :=
  ((List.range year).map yearLength).sum + ((monthLengths year).take (month - 1)).sum + (day - 1)

/-- The days from 1970-01-01 to a date. -/
def daysSinceEpoch (year month day : Nat) : Int := daysBefore year month day - daysBefore 1970 1 1

/-! ### Agreement with the calendar -/

open Calendar

theorem isLeapYear_eq_true_iff (year : Nat) : isLeapYear year = true ↔ IsLeap year := by
  rw [isLeapYear_iff, IsLeap]
  omega

theorem length_monthLengths (year : Nat) : (monthLengths year).length = 12 := rfl

theorem getElem?_monthLengths (year : Nat) {month : Nat} (h : month < 12) :
    ∃ length, (monthLengths year)[month]? = some length ∧ (length : Int) = daysInMonth year (month + 1) := by
  have hfebruary : ((if IsLeap year then 29 else 28 : Nat) : Int) = daysInMonth year 2 := by
    have hiff := isLeapYear_eq_true_iff year
    rw [daysInMonth_february]
    cases hleap : isLeapYear year <;> simp_all
  match month with
  | 1 => exact ⟨_, rfl, hfebruary⟩
  | 0 | 2 | 3 | 4 | 5 | 6 | 7 | 8 | 9 | 10 | 11 => exact ⟨_, rfl, rfl⟩
  | month + 12 => omega

/-- The dates of these rules are the valid ones. -/
theorem isDate_iff (year month day : Nat) : IsDate year month day ↔ Date.Valid ⟨year, month, day⟩ := by
  unfold IsDate Date.Valid
  dsimp only
  by_cases h : 1 ≤ month ∧ month ≤ 12
  · obtain ⟨length, hget, hlength⟩ := getElem?_monthLengths year (show month - 1 < 12 by omega)
    rw [show ((month - 1 : Nat) : Int) + 1 = month by omega] at hlength
    rw [hget, ← hlength]
    simp only [Option.mem_def, Option.some.injEq, exists_eq_left']
    omega
  · constructor
    · rintro ⟨hmonth, length, hget, -⟩
      obtain ⟨hlt, -⟩ := List.getElem?_eq_some_iff.1 hget
      rw [length_monthLengths] at hlt
      omega
    · omega

theorem sum_take_monthLengths (year : Nat) {months : Nat} (h : months ≤ 12) :
    (((monthLengths year).take months).sum : Int) = daysInMonths year months := by
  induction months with
  | zero => rfl
  | succ months ih =>
    obtain ⟨length, hget, hlength⟩ := getElem?_monthLengths year (show months < 12 by omega)
    rw [List.take_add_one, hget, Option.toList_some, List.sum_append, List.sum_singleton, Int.natCast_add,
      daysInMonths, ih (by omega), hlength]

theorem yearLength_eq (year : Nat) : (yearLength year : Int) = daysInYear year := by
  rw [← daysInMonths_twelve, ← sum_take_monthLengths year (Nat.le_refl 12)]
  rfl

theorem sum_yearLength (year : Nat) : (((List.range year).map yearLength).sum : Int) = newYear year - newYear 0 := by
  induction year with
  | zero => simp
  | succ year ih =>
    have hyear := newYear_succ year
    have hlength := yearLength_eq year
    rw [List.range_succ, List.map_append, List.sum_append, List.map_singleton, List.sum_singleton, Int.natCast_add,
      show ((year + 1 : Nat) : Int) = year + 1 from rfl]
    omega

/-- The days that are counted to a date by these rules are those of the calendar. -/
theorem daysSinceEpoch_eq_count {year month day : Nat} (h : IsDate year month day) :
    daysSinceEpoch year month day = Date.count ⟨year, month, day⟩ := by
  obtain ⟨hmonth, hmonth', hday, -⟩ := (isDate_iff year month day).1 h
  dsimp only at hmonth hmonth' hday
  have hmonths := sum_take_monthLengths year (show month - 1 ≤ 12 by omega)
  have hyears := sum_yearLength year
  have hyears' := sum_yearLength 1970
  have hepoch : newYear (1970 : Nat) = 0 := newYear_eq 1970
  unfold daysSinceEpoch daysBefore Date.count
  dsimp only
  rw [show ((month : Int) - 1).toNat = month - 1 by omega, show (1 - 1 : Nat) = 0 from rfl, List.take_zero,
    List.sum_nil]
  omega

example : IsDate 2024 2 29 ∧ ¬IsDate 2023 2 29 ∧ daysSinceEpoch 2024 2 29 = 19782 := by
  refine ⟨⟨by decide, 29, by decide, by decide⟩, ?_, by decide +kernel⟩
  rw [isDate_iff]
  decide

end PropertyGraph.Gregorian
