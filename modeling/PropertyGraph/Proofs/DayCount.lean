import PropertyGraph.Proofs.Calendar

/-!
# Days counted one after the other

The day number of a date is the number of days that go by from 1970-01-01 when they are counted year by year and
then month by month.  The key facts: the count of whole years has a closed form (`Calendar.newYear_eq`), the day
number of a date is its count (`Date.toDays_eq_count`) and tells the date (`Date.Valid.eq_of_count_eq`), every day
falls in one year and in no other (`Date.fallsIn_ofDays`, `Calendar.FallsIn.unique`), and the days of the years 0000
to 9999 are those between two day numbers (`Calendar.FallsIn.fourDigits_iff`).
-/

namespace PropertyGraph

namespace Calendar

/-! ### Years -/

def daysInYear (year : Int) : Int := if isLeapYear year then 366 else 365

/-- The days of a number of years from a first one on. -/
def daysInYears (first : Int) : Nat → Int
  | 0 => 0
  | n + 1 => daysInYears first n + daysInYear (first + n)

/-- The day number of the first of January: the years from 1970 to it are counted, or those from it to 1970. -/
def newYear (year : Int) : Int :=
  if 1970 ≤ year then daysInYears 1970 (year - 1970).toNat else -daysInYears year (1970 - year).toNat

/-- The number of leap years up to a year, those before the year 1 being counted down from there. -/
def leapYears (year : Int) : Int := year / 4 - year / 100 + year / 400

theorem isLeapYear_iff (year : Int) :
    isLeapYear year = true ↔ (year % 4 = 0 ∧ year % 100 ≠ 0) ∨ year % 400 = 0 := by
  simp only [isLeapYear, Bool.or_eq_true, Bool.and_eq_true, beq_iff_eq, bne_iff_ne, ne_eq]

theorem leapYears_succ (year : Int) : leapYears (year + 1) = leapYears year + (isLeapYear (year + 1)).toNat := by
  have hiff := isLeapYear_iff (year + 1)
  unfold leapYears
  cases hleap : isLeapYear (year + 1) with
  | true =>
    have hrule := hiff.1 hleap
    rw [Bool.toNat_true]
    omega
  | false =>
    have hrule : ¬((year + 1) % 4 = 0 ∧ (year + 1) % 100 ≠ 0 ∨ (year + 1) % 400 = 0) := fun h => by
      rw [hiff.2 h] at hleap
      cases hleap
    rw [Bool.toNat_false]
    omega

theorem daysInYear_eq (year : Int) : daysInYear year = 365 + (isLeapYear year).toNat := by
  unfold daysInYear
  cases isLeapYear year <;> rfl

theorem daysInYears_eq (first : Int) (n : Nat) :
    daysInYears first n = 365 * n + leapYears (first + n - 1) - leapYears (first - 1) := by
  induction n with
  | zero => simp [daysInYears]
  | succ n ih =>
    have hleap := leapYears_succ (first + n - 1)
    rw [Int.sub_add_cancel] at hleap
    rw [daysInYears, ih, daysInYear_eq, show first + ((n + 1 : Nat) : Int) - 1 = first + n by omega, hleap]
    omega

/-- The years before a year, counted from 1970, in closed form. -/
theorem newYear_eq (year : Int) : newYear year = 365 * (year - 1970) + leapYears (year - 1) - 477 := by
  have hepoch : leapYears 1969 = 477 := by decide
  unfold newYear
  split
  · rw [daysInYears_eq, show (1970 : Int) + (year - 1970).toNat - 1 = year - 1 by omega]
    rw [show (1970 : Int) - 1 = 1969 from rfl, hepoch]
    omega
  · rw [daysInYears_eq, show year + (1970 - year).toNat - 1 = 1969 by omega, hepoch]
    omega

theorem newYear_succ (year : Int) : newYear (year + 1) = newYear year + daysInYear year := by
  have hleap := leapYears_succ (year - 1)
  rw [Int.sub_add_cancel] at hleap
  rw [newYear_eq, newYear_eq, daysInYear_eq, Int.add_sub_cancel, hleap]
  omega

theorem newYear_le_newYear {first last : Int} (h : first ≤ last) : newYear first ≤ newYear last := by
  obtain ⟨n, rfl⟩ : ∃ n : Nat, last = first + n := ⟨(last - first).toNat, by omega⟩
  clear h
  induction n with
  | zero => simp
  | succ n ih =>
    have hyear := newYear_succ (first + n)
    have hpos := daysInYear_eq (first + n)
    rw [show first + ((n + 1 : Nat) : Int) = first + n + 1 by omega, hyear]
    omega

/-! ### Months -/

/-- The days of a year's first months. -/
def daysInMonths (year : Int) : Nat → Int
  | 0 => 0
  | n + 1 => daysInMonths year n + daysInMonth year (n + 1)

theorem daysInMonths_le (year : Int) {m n : Nat} (h : m ≤ n) (hn : n ≤ 12) :
    daysInMonths year m ≤ daysInMonths year n := by
  induction n with
  | zero =>
    obtain rfl := Nat.le_zero.1 h
    exact Int.le_refl _
  | succ n ih =>
    rcases Nat.lt_or_eq_of_le h with h | rfl
    · have hmonth : 28 ≤ daysInMonth year (n + 1) := le_daysInMonth (by omega)
      have := ih (by omega) (by omega)
      rw [daysInMonths]
      omega
    · exact Int.le_refl _

/-- The twelve months of a year are its days. -/
theorem daysInMonths_twelve (year : Int) : daysInMonths year 12 = daysInYear year := by
  unfold daysInYear
  cases h : isLeapYear year <;> simp [daysInMonths, daysInMonth, h]

/-! ### The year of a day -/

/-- A day falls in a year if it comes no earlier than the year's first day and before that of the next year. -/
def FallsIn (days year : Int) : Prop := newYear year ≤ days ∧ days < newYear (year + 1)

theorem FallsIn.unique {days year other : Int} (h : FallsIn days year) (h' : FallsIn days other) : other = year := by
  obtain ⟨hfirst, hlast⟩ := h
  obtain ⟨hfirst', hlast'⟩ := h'
  -- the first day of a later year is no earlier than the day after the last one of the year
  rcases Int.lt_trichotomy other year with hlt | heq | hgt
  · have := newYear_le_newYear (show other + 1 ≤ year by omega)
    omega
  · exact heq
  · have := newYear_le_newYear (show year + 1 ≤ other by omega)
    omega

/-- The years of four digits are those of the days from 0000-01-01 to 9999-12-31. -/
theorem FallsIn.fourDigits_iff {days year : Int} (h : FallsIn days year) :
    (0 ≤ year ∧ year ≤ 9999) ↔ -719528 ≤ days ∧ days ≤ 2932896 := by
  obtain ⟨hfirst, hlast⟩ := h
  have hzero : newYear 0 = -719528 := newYear_eq 0
  have hend : newYear 10000 = 2932897 := newYear_eq 10000
  constructor
  · rintro ⟨hlow, hhigh⟩
    have := newYear_le_newYear hlow
    have := newYear_le_newYear (show year + 1 ≤ 10000 by omega)
    omega
  · rintro ⟨hlow, hhigh⟩
    constructor
    · refine Int.not_lt.1 fun hneg => ?_
      have := newYear_le_newYear (show year + 1 ≤ 0 by omega)
      omega
    · refine Int.not_lt.1 fun hlate => ?_
      have := newYear_le_newYear (show 10000 ≤ year by omega)
      omega

end Calendar

namespace Date

open Calendar

/-- The days from 1970-01-01 to a date: those of the years before its year, of the months before its month, and
of its month before it. -/
def count (d : Date) : Int := newYear d.year + daysInMonths d.year (d.month - 1).toNat + (d.day - 1)

/-- The months from January on, counted from March, and the days of the year before them. -/
private theorem daysInMonths_eq {year month : Int} (h : 1 ≤ month ∧ month ≤ 12) :
    daysInMonths year (month - 1).toNat =
      if month ≤ 2 then daysBeforeMonth (month + 9) - 306
      else daysBeforeMonth (month - 3) + 59 + (isLeapYear year).toNat := by
  have hcases : month = 1 ∨ month = 2 ∨ month = 3 ∨ month = 4 ∨ month = 5 ∨ month = 6 ∨ month = 7 ∨ month = 8 ∨
      month = 9 ∨ month = 10 ∨ month = 11 ∨ month = 12 := by omega
  rcases hcases with rfl | rfl | rfl | rfl | rfl | rfl | rfl | rfl | rfl | rfl | rfl | rfl <;>
    cases hleap : isLeapYear year <;> simp [daysInMonths, daysInMonth, daysBeforeMonth, hleap]

/-- The day number of a date is the number of days that are counted to it. -/
theorem toDays_eq_count {d : Date} (h : 1 ≤ d.month ∧ d.month ≤ 12) : d.toDays = d.count := by
  have hleap := leapYears_succ (d.year - 1)
  rw [Int.sub_add_cancel] at hleap
  rw [count, newYear_eq, daysInMonths_eq h]
  unfold toDays
  unfold leapYears at hleap ⊢
  dsimp only [daysInCycle, epochShift]
  split <;> omega

/-- A valid date falls in its year. -/
theorem Valid.fallsIn {d : Date} (h : d.Valid) : FallsIn d.count d.year := by
  obtain ⟨hmonth, hmonth', hday, hday'⟩ := h
  -- the days up to the end of the month are among those of the year
  have hend : daysInMonths d.year ((d.month - 1).toNat + 1) =
      daysInMonths d.year (d.month - 1).toNat + daysInMonth d.year d.month := by
    rw [daysInMonths, show (((d.month - 1).toNat : Nat) : Int) + 1 = d.month by omega]
  have hyear := daysInMonths_le d.year (m := (d.month - 1).toNat + 1) (n := 12) (by omega) (by decide)
  have hmonths := daysInMonths_le d.year (m := 0) (n := (d.month - 1).toNat) (by omega) (by omega)
  rw [daysInMonths_twelve, hend] at hyear
  rw [daysInMonths] at hmonths
  unfold FallsIn count
  rw [newYear_succ]
  omega

/-- The days that are counted to a valid date tell the date. -/
theorem Valid.eq_of_count_eq {d e : Date} (hd : d.Valid) (he : e.Valid) (h : d.count = e.count) : d = e := by
  obtain ⟨year, month, day⟩ := d
  obtain ⟨year', month', day'⟩ := e
  obtain rfl : year = year' := he.fallsIn.unique (h ▸ hd.fallsIn)
  -- the days of a month come before those of every later month of the year
  have hbefore {m n : Int} (hm : 1 ≤ m) (hmn : m < n) (hn : n ≤ 12) :
      daysInMonths year (m - 1).toNat + daysInMonth year m ≤ daysInMonths year (n - 1).toNat := by
    have hmonths := daysInMonths_le year (m := (m - 1).toNat + 1) (n := (n - 1).toNat) (by omega) (by omega)
    rwa [daysInMonths, show (((m - 1).toNat : Nat) : Int) + 1 = m by omega] at hmonths
  obtain ⟨hmonth, hmonth', hday, hday'⟩ := hd
  obtain ⟨hmonthe, hmonthe', hdaye, hdaye'⟩ := he
  dsimp only [count] at *
  rcases Int.lt_trichotomy month month' with hlt | rfl | hgt
  · have := hbefore hmonth hlt hmonthe'
    omega
  · obtain rfl : day = day' := by omega
    rfl
  · have := hbefore hmonthe hgt hmonth'
    omega

theorem fallsIn_ofDays (days : Int) : FallsIn days (ofDays days).year := by
  have hvalid := valid_ofDays days
  have := hvalid.fallsIn
  rwa [← toDays_eq_count ⟨hvalid.1, hvalid.2.1⟩, toDays_ofDays] at this

end Date

end PropertyGraph
