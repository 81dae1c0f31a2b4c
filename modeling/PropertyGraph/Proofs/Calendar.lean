import PropertyGraph.Calendar

/-!
# Dates and day numbers

The date with a day number is valid and has that day number.  A day is counted in cycles, centuries, fours of
years and years that begin in March; `Counted` collects what is known of these counts.  The key facts: the counts
that are made of a day number are such counts (`counted_counts`), and the date of counts is valid
(`Counted.valid_date`) and has the day's number (`Counted.toDays_date`).
-/

namespace PropertyGraph

namespace Calendar

/-- A day as the cycles, centuries, fours of years, years and days before it, all counted from a first of March,
with the month from March on. -/
structure Counts where
  cycle : Int
  century : Int
  four : Int
  year : Int
  day : Int
  month : Int

namespace Counts

/-- The number of the year that began in March. -/
def years (c : Counts) : Int := c.cycle * 400 + c.century * 100 + c.four * 4 + c.year

/-- The number of the day. -/
def days (c : Counts) : Int :=
  c.cycle * daysInCycle + c.century * 36524 + c.four * 1461 + c.year * 365 + c.day - epochShift

/-- The date of the day. -/
def date (c : Counts) : Date where
  year := if c.month < 10 then c.years else c.years + 1
  month := if c.month < 10 then c.month + 3 else c.month - 9
  day := c.day - daysBeforeMonth c.month + 1

end Counts

/-- The counts of a day: no count reaches the next one, and only the last year of four has a leap day, the last
four of a century only in the last century. -/
structure Counted (c : Counts) : Prop where
  century : 0 ≤ c.century ∧ c.century ≤ 3
  four : 0 ≤ c.four ∧ c.four ≤ 24
  year : 0 ≤ c.year ∧ c.year ≤ 3
  day : 0 ≤ c.day ∧ c.day ≤ 365
  year_of_leap : c.day = 365 → c.year = 3
  century_of_leap : c.day = 365 → c.four = 24 → c.century = 3
  month : 0 ≤ c.month ∧ c.month ≤ 11
  le_day : daysBeforeMonth c.month ≤ c.day
  day_lt : c.day < daysBeforeMonth (c.month + 1)

/-- The counts that are made of a day number. -/
def counts (days : Int) : Counts :=
  let shifted := days + epochShift
  let dayOfCycle := shifted % daysInCycle
  let century := min 3 (dayOfCycle / 36524)
  let dayOfCentury := dayOfCycle - century * 36524
  let dayOfFour := dayOfCentury % 1461
  let yearOfFour := min 3 (dayOfFour / 365)
  let dayOfYear := dayOfFour - yearOfFour * 365
  ⟨shifted / daysInCycle, century, dayOfCentury / 1461, yearOfFour, dayOfYear, (5 * dayOfYear + 2) / 153⟩

theorem ofDays_eq (days : Int) : Date.ofDays days = (counts days).date := rfl

theorem days_counts (days : Int) : (counts days).days = days := by
  have hcycle := Int.ediv_mul_add_emod (days + epochShift) daysInCycle
  dsimp only [counts, Counts.days]
  generalize (days + epochShift) % daysInCycle = dayOfCycle at hcycle ⊢
  omega

theorem counted_counts (days : Int) : Counted (counts days) := by
  have hlow : 0 ≤ (days + epochShift) % daysInCycle := Int.emod_nonneg _ (by decide)
  have hhigh : (days + epochShift) % daysInCycle < 146097 := Int.emod_lt_of_pos _ (by decide)
  unfold counts
  dsimp only
  generalize (days + epochShift) % daysInCycle = dayOfCycle at hlow hhigh ⊢
  constructor <;> dsimp only [daysBeforeMonth] <;> omega

theorem daysInMonth_le (year month : Int) : daysInMonth year month ≤ 31 := by
  unfold daysInMonth
  repeat' split
  all_goals omega

variable {c : Counts}

/-- The months from March to January have the days up to the next month. -/
private theorem daysInMonth_of_le {month : Int} (h : 0 ≤ month ∧ month ≤ 10) (year : Int) :
    daysInMonth year (if month < 10 then month + 3 else month - 9) =
      daysBeforeMonth (month + 1) - daysBeforeMonth month := by
  have hcases : month = 0 ∨ month = 1 ∨ month = 2 ∨ month = 3 ∨ month = 4 ∨ month = 5 ∨ month = 6 ∨ month = 7 ∨
      month = 8 ∨ month = 9 ∨ month = 10 := by omega
  rcases hcases with rfl | rfl | rfl | rfl | rfl | rfl | rfl | rfl | rfl | rfl | rfl <;> rfl

/-- The leap day of four years belongs to the year after them, by the calendar's own rule. -/
private theorem Counted.isLeapYear (h : Counted c) (hleap : c.day = 365) : isLeapYear (c.years + 1) = true := by
  have hyear := h.year_of_leap hleap
  have hcentury := h.century_of_leap hleap
  have hfour := h.four
  have hnot : ¬((c.years + 1) % 100 = 0 ∧ (c.years + 1) % 400 ≠ 0) := by
    have hrange := h.century
    unfold Counts.years
    omega
  have hdivides : (c.years + 1) % 4 = 0 := by
    unfold Counts.years
    omega
  simp only [Calendar.isLeapYear, Bool.or_eq_true, Bool.and_eq_true, beq_iff_eq, bne_iff_ne]
  omega

theorem Counted.valid_date (h : Counted c) : c.date.Valid := by
  have hmonth := h.month
  have hfirst := h.le_day
  refine ⟨?_, ?_, ?_, ?_⟩ <;> dsimp only [Counts.date]
  · split <;> omega
  · split <;> omega
  · omega
  · by_cases hjanuary : c.month ≤ 10
    · rw [daysInMonth_of_le ⟨hmonth.1, hjanuary⟩]
      have hlast := h.day_lt
      omega
    · have hfebruary : c.month = 11 := by omega
      have hday := h.day
      rw [hfebruary, if_neg (by decide), if_neg (by decide), show (11 : Int) - 9 = 2 from rfl, daysInMonth_february]
      rw [show daysBeforeMonth 11 = 337 from rfl]
      by_cases hleap : c.day = 365
      · rw [h.isLeapYear hleap]
        exact Int.le_of_eq (by rw [hleap]; rfl)
      · omega

theorem Counted.toDays_date (h : Counted c) : c.date.toDays = c.days := by
  have hmonth := h.month
  have hyear : (if c.date.month ≤ 2 then c.date.year - 1 else c.date.year) = c.years := by
    dsimp only [Counts.date]
    split <;> split <;> omega
  have hback : (if c.date.month ≤ 2 then c.date.month + 9 else c.date.month - 3) = c.month := by
    dsimp only [Counts.date]
    split <;> split <;> omega
  have hcentury := h.century
  have hfour := h.four
  have hyears := h.year
  unfold Date.toDays
  rw [hyear, hback]
  dsimp only [Counts.date, Counts.years, Counts.days, daysInCycle]
  omega

end Calendar

namespace Date

open Calendar

theorem valid_ofDays (days : Int) : (ofDays days).Valid := (counted_counts days).valid_date

theorem toDays_ofDays (days : Int) : (ofDays days).toDays = days := by
  rw [ofDays_eq, (counted_counts days).toDays_date, days_counts]

end Date

end PropertyGraph
