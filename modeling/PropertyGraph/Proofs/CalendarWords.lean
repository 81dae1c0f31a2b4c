import PropertyGraph.Proofs.DayCount
import PropertyGraph.Rfc3339

/-!
# The calendar in words of 64 bits

Dates and day numbers are turned into each other by a few operations on words.  A quotient of words drops its
fraction toward zero, so what lies before the first cycle is moved back by a cycle less a day before it is divided;
the year of a cycle comes from one quotient by 365 after the leap days are taken out; and an operation has a result
only if a word can hold it.  The key facts: on all days that a number of milliseconds in a word can fall on, and on
the day after the last of them, every operation has its result and the conversions are those of the calendar
(`Date.ofDaysInWords_eq`, `Date.toDaysInWords_eq`), the date of the next day number is the next date of the calendar
(`Date.ofDays_succ`), and on these days the conversions are inverse to each other (`Date.conversions_inverse`).
-/

namespace PropertyGraph

/-! ### The next date -/

namespace Date

open Calendar

/-- The date after a date: the next day of its month, or else the first of the next month, or else the first of the
next year. -/
def next (d : Date) : Date :=
  if d.day < daysInMonth d.year d.month then ⟨d.year, d.month, d.day + 1⟩
  else if d.month < 12 then ⟨d.year, d.month + 1, 1⟩
  else ⟨d.year + 1, 1, 1⟩

theorem Valid.next {d : Date} (h : d.Valid) : d.next.Valid := by
  obtain ⟨hmonth, hmonth', hday, hday'⟩ := h
  unfold Date.next
  split
  · exact ⟨hmonth, hmonth', by dsimp only; omega, by dsimp only; omega⟩
  · split
    · have hlength : 28 ≤ daysInMonth d.year (d.month + 1) := le_daysInMonth (by omega)
      refine ⟨?_, ?_, ?_, ?_⟩ <;> dsimp only <;> omega
    · have hlength : 28 ≤ daysInMonth (d.year + 1) 1 := le_daysInMonth (by decide)
      refine ⟨?_, ?_, ?_, ?_⟩ <;> dsimp only <;> omega

/-- The next date is counted one day further. -/
theorem Valid.count_next {d : Date} (h : d.Valid) : d.next.count = d.count + 1 := by
  obtain ⟨hmonth, hmonth', hday, hday'⟩ := h
  have hlength : daysInMonths d.year ((d.month - 1).toNat + 1) =
      daysInMonths d.year (d.month - 1).toNat + daysInMonth d.year d.month := by
    rw [daysInMonths, show (((d.month - 1).toNat : Nat) : Int) + 1 = d.month by omega]
  unfold Date.next
  split
  · dsimp only [count]
    omega
  · split
    · dsimp only [count]
      rw [show (d.month + 1 - 1).toNat = (d.month - 1).toNat + 1 by omega, hlength]
      omega
    · -- the twelve months of the year are over
      have hyear : (d.month - 1).toNat + 1 = 12 := by omega
      rw [hyear, daysInMonths_twelve] at hlength
      dsimp only [count]
      rw [newYear_succ, hlength, show ((1 : Int) - 1).toNat = 0 from rfl, daysInMonths]
      omega

theorem count_ofDays (days : Int) : (ofDays days).count = days := by
  have hvalid := valid_ofDays days
  rw [← toDays_eq_count ⟨hvalid.1, hvalid.2.1⟩, toDays_ofDays]

theorem ofDays_succ (days : Int) : ofDays (days + 1) = (ofDays days).next := by
  have hvalid := valid_ofDays days
  refine (valid_ofDays (days + 1)).eq_of_count_eq hvalid.next ?_
  rw [hvalid.count_next, count_ofDays, count_ofDays]

end Date

/-! ### Operations on words -/

namespace Word

/-- The integers that a word of 64 bits can hold. -/
abbrev Fits (n : Int) : Prop := -9223372036854775808 ≤ n ∧ n < 9223372036854775808

/-- The result of an operation, if a word of 64 bits can hold it. -/
def result (n : Int) : Option Int := if Fits n then some n else none

def add (m n : Int) : Option Int := result (m + n)

def sub (m n : Int) : Option Int := result (m - n)

def mul (m n : Int) : Option Int := result (m * n)

/-- The quotient without its fraction; there is none by zero. -/
def quot (m n : Int) : Option Int := if n = 0 then none else result (m.tdiv n)

/-- The quotient with its fraction counted down, by a positive word: what is negative is moved before it is
divided. -/
def floorQuot (m n : Int) : Option Int := do
  let shifted ← if 0 ≤ m then some m else sub m (n - 1)
  quot shifted n

/-- The quotient counted down and what is left. -/
def divide (m n : Int) : Option (Int × Int) := do
  let quotient ← floorQuot m n
  let rest ← sub m (← mul quotient n)
  some (quotient, rest)

variable {m n : Int}

theorem result_of (h : Fits n) : result n = some n := if_pos h

theorem add_of (h : Fits (m + n)) : add m n = some (m + n) := result_of h

theorem sub_of (h : Fits (m - n)) : sub m n = some (m - n) := result_of h

theorem mul_of (h : Fits (m * n)) : mul m n = some (m * n) := result_of h

/-- A quotient of a word that is not negative by a positive one always has a result. -/
theorem quot_of_nonneg (h : Fits m) (hm : 0 ≤ m) (hn : 0 < n) : quot m n = some (m / n) := by
  have hlow : 0 ≤ m / n := Int.ediv_nonneg hm (Int.le_of_lt hn)
  have hhigh : m / n ≤ m := Int.ediv_le_self n hm
  rw [quot, if_neg (Int.ne_of_gt hn), Int.tdiv_eq_ediv_of_nonneg hm, result_of (by omega)]

theorem floorQuot_of (h : Fits m) (hm : Fits (m - (n - 1))) (hn : 0 < n) : floorQuot m n = some (m / n) := by
  unfold floorQuot
  by_cases hsign : 0 ≤ m
  · rw [if_pos hsign]
    exact quot_of_nonneg h hsign hn
  · -- what is left of a word before the next multiple counts up where the word counts down
    have hback : (n - 1 - m) / n = -(m / n) := by
      have hlow := Int.emod_nonneg m (Int.ne_of_gt hn)
      have hhigh := Int.emod_lt_of_pos m hn
      have hsum := Int.emod_add_mul_ediv m n
      refine ((Int.ediv_emod_unique hn).2 ⟨?_, show 0 ≤ n - 1 - m % n by omega, by omega⟩).1
      rw [Int.mul_neg]
      omega
    have hquot : (m - (n - 1)).tdiv n = m / n := by
      rw [show m - (n - 1) = -(n - 1 - m) by omega, Int.neg_tdiv, Int.tdiv_eq_ediv_of_nonneg (by omega), hback,
        Int.neg_neg]
    have hle : (n - 1 - m) / n ≤ n - 1 - m := Int.ediv_le_self n (by omega)
    have hpos : 0 ≤ (n - 1 - m) / n := Int.ediv_nonneg (by omega) (Int.le_of_lt hn)
    rw [hback] at hle hpos
    rw [if_neg hsign, sub_of (by omega)]
    show quot (m - (n - 1)) n = some (m / n)
    rw [quot, if_neg (Int.ne_of_gt hn), hquot, result_of (by omega)]

theorem divide_of (h : Fits m) (hm : Fits (m - (n - 1))) (hn : 0 < n) (hn' : Fits n) :
    divide m n = some (m / n, m % n) := by
  have hlow := Int.emod_nonneg m (Int.ne_of_gt hn)
  have hhigh := Int.emod_lt_of_pos m hn
  have hsum := Int.ediv_mul_add_emod m n
  unfold divide
  dsimp only [bind]
  rw [floorQuot_of h hm hn, Option.bind_some, mul_of (by omega), Option.bind_some, sub_of (by omega), Option.bind_some,
    show m - m / n * n = m % n by omega]

end Word

/-! ### Parts of the conversions -/

namespace Calendar

open Word

/-- The number of the year that began in March. -/
def yearFromMarchInWords (d : Date) : Option Int := if d.month ≤ 2 then sub d.year 1 else some d.year

/-- The month counted from March. -/
def monthFromMarchInWords (d : Date) : Option Int := if d.month ≤ 2 then add d.month 9 else sub d.month 3

def monthInWords (monthFromMarch : Int) : Option Int :=
  if monthFromMarch < 10 then add monthFromMarch 3 else sub monthFromMarch 9

def yearInWords (yearFromMarch month : Int) : Option Int :=
  if month ≤ 2 then add yearFromMarch 1 else some yearFromMarch

/-- The days from the first of March to the first of a month counted from March. -/
def daysBeforeMonthInWords (month : Int) : Option Int := do quot (← add (← mul 153 month) 2) 5

/-- The days of a cycle before a year of it. -/
def daysBeforeYearInWords (year : Int) : Option Int := do
  sub (← add (← mul year 365) (← quot year 4)) (← quot year 100)

/-- The year of a cycle that a day of it falls in: the days without the leap days before it, in years of 365. -/
def yearOfCycleInWords (day : Int) : Option Int := do
  quot (← sub (← add (← sub day (← quot day 1460)) (← quot day 36524)) (← quot day 146096)) 365

/-- The date of a day of a year that began in March. -/
def dateInWords (year day : Int) : Option Date := do
  let monthFromMarch ← quot (← add (← mul 5 day) 2) 153
  let dayOfMonth ← add (← sub day (← daysBeforeMonthInWords monthFromMarch)) 1
  let month ← monthInWords monthFromMarch
  some ⟨← yearInWords year month, month, dayOfMonth⟩

theorem daysBeforeMonthInWords_eq {month : Int} (h : 0 ≤ month ∧ month ≤ 12) :
    daysBeforeMonthInWords month = some (daysBeforeMonth month) := by
  unfold daysBeforeMonthInWords
  dsimp only [bind]
  rw [mul_of (by omega), Option.bind_some, add_of (by omega), Option.bind_some,
    quot_of_nonneg (by omega) (by omega) (by decide), daysBeforeMonth]

theorem daysBeforeYearInWords_eq {year : Int} (h : 0 ≤ year ∧ year < 400) :
    daysBeforeYearInWords year = some (year * 365 + year / 4 - year / 100) := by
  unfold daysBeforeYearInWords
  dsimp only [bind]
  rw [mul_of (by omega), Option.bind_some, quot_of_nonneg (by omega) (by omega) (by decide), Option.bind_some,
    add_of (by omega), Option.bind_some, quot_of_nonneg (by omega) (by omega) (by decide), Option.bind_some,
    sub_of (by omega)]

variable {c : Counts}

/-- A quotient by four years without their leap day may be one ahead, never on the first day of a year and always on
a leap day. -/
private theorem Counted.exists_ahead (h : Counted c) :
    ∃ ahead, (c.century * 36524 + c.four * 1461 + c.year * 365 + c.day) / 1460 =
      c.century * 25 + c.four + ahead ∧ 0 ≤ c.day - ahead ∧ c.day - ahead < 365 := by
  have hcentury := h.century
  have hfour := h.four
  have hyear := h.year
  have hday := h.day
  have hleap := h.year_of_leap
  by_cases hahead : c.century * 24 + c.four + c.year * 365 + c.day < 1460
  · exact ⟨0, by omega, by omega, by omega⟩
  · exact ⟨1, by omega, by omega, by omega⟩

/-- The year of a cycle is found without a count of centuries and fours of years. -/
theorem Counted.yearOfCycleInWords_eq (h : Counted c) :
    yearOfCycleInWords (c.century * 36524 + c.four * 1461 + c.year * 365 + c.day) =
      some (c.century * 100 + c.four * 4 + c.year) := by
  obtain ⟨ahead, hfours, hlow, hhigh⟩ := h.exists_ahead
  have hrest : 0 ≤ c.four * 1461 + c.year * 365 + c.day ∧
      (c.four * 1461 + c.year * 365 + c.day < 36524 ∨
        c.four * 1461 + c.year * 365 + c.day = 36524 ∧ c.century = 3) := by
    have hfour := h.four
    have hyear := h.year
    have hday := h.day
    by_cases hlast : c.day = 365 ∧ c.four = 24
    · have hcentury := h.century_of_leap hlast.1 hlast.2
      have hyear := h.year_of_leap hlast.1
      omega
    · omega
  have hcentury := h.century
  generalize hday : c.century * 36524 + c.four * 1461 + c.year * 365 + c.day = day at hfours ⊢
  have hrange : 0 ≤ day ∧ day ≤ 146096 := by omega
  -- the last day of the cycle is the only one that would begin a fifth century
  have hcenturies : day / 36524 - day / 146096 = c.century := by omega
  have hyears : (day - day / 1460 + day / 36524 - day / 146096) / 365 = c.century * 100 + c.four * 4 + c.year := by
    rw [show day - day / 1460 + day / 36524 - day / 146096 =
      (c.day - ahead) + (c.century * 100 + c.four * 4 + c.year) * 365 by omega,
      Int.add_mul_ediv_right _ _ (by decide), Int.ediv_eq_zero_of_lt hlow hhigh, Int.zero_add]
  unfold yearOfCycleInWords
  dsimp only [bind]
  rw [quot_of_nonneg (by omega) (by omega) (by decide), Option.bind_some, sub_of (by omega), Option.bind_some,
    quot_of_nonneg (by omega) (by omega) (by decide), Option.bind_some, add_of (by omega), Option.bind_some,
    quot_of_nonneg (by omega) (by omega) (by decide), Option.bind_some, sub_of (by omega), Option.bind_some,
    quot_of_nonneg (by omega) (by omega) (by decide), hyears]

theorem Counted.daysBeforeYearInWords_eq (h : Counted c) :
    daysBeforeYearInWords (c.century * 100 + c.four * 4 + c.year) =
      some (c.century * 36524 + c.four * 1461 + c.year * 365) := by
  have hcentury := h.century
  have hfour := h.four
  have hyear := h.year
  have hfours : (c.century * 100 + c.four * 4 + c.year) / 4 = c.century * 25 + c.four := by omega
  have hcenturies : (c.century * 100 + c.four * 4 + c.year) / 100 = c.century := by omega
  rw [Calendar.daysBeforeYearInWords_eq (by omega), hfours, hcenturies]
  congr 1
  omega

theorem Counted.monthInWords_eq (h : Counted c) : monthInWords c.month = some c.date.month := by
  have hmonth := h.month
  unfold monthInWords Counts.date
  dsimp only
  split
  · exact add_of (by omega)
  · exact sub_of (by omega)

/-- January and February are the last months of a year that began in March, and those of the next year. -/
theorem Counted.yearInWords_eq (h : Counted c) (hyears : -1000000000000 ≤ c.years ∧ c.years ≤ 1000000000000) :
    yearInWords c.years c.date.month = some c.date.year := by
  have hmonth := h.month
  unfold yearInWords Counts.date
  dsimp only
  by_cases hnew : c.month < 10
  · rw [if_pos hnew, if_pos hnew, if_neg (by omega)]
  · rw [if_neg hnew, if_neg hnew, if_pos (by omega), add_of (by omega)]

theorem Counted.dateInWords_eq (h : Counted c) (hyears : -1000000000000 ≤ c.years ∧ c.years ≤ 1000000000000) :
    dateInWords c.years c.day = some c.date := by
  have hday := h.day
  have hmonth := h.month
  have hfirst := h.le_day
  have hlast := h.day_lt
  have hmonthOfDay : (5 * c.day + 2) / 153 = c.month := by
    unfold daysBeforeMonth at hfirst hlast
    omega
  have hstart : 0 ≤ daysBeforeMonth c.month := by
    unfold daysBeforeMonth
    omega
  unfold dateInWords
  dsimp only [bind]
  rw [mul_of (by omega), Option.bind_some, add_of (by omega), Option.bind_some,
    quot_of_nonneg (by omega) (by omega) (by decide), hmonthOfDay, Option.bind_some,
    daysBeforeMonthInWords_eq (by omega), Option.bind_some, sub_of (by omega), Option.bind_some, add_of (by omega),
    Option.bind_some, h.monthInWords_eq, Option.bind_some, h.yearInWords_eq hyears, Option.bind_some]
  rfl

end Calendar

/-! ### Conversions on words -/

namespace Date

open Calendar Word

/-- The day number of a date by operations on words. -/
def toDaysInWords (d : Date) : Option Int := do
  let (cycle, yearOfCycle) ← divide (← yearFromMarchInWords d) 400
  let dayOfYear ← sub (← add (← daysBeforeMonthInWords (← monthFromMarchInWords d)) d.day) 1
  let dayOfCycle ← add (← daysBeforeYearInWords yearOfCycle) dayOfYear
  sub (← add (← mul cycle 146097) dayOfCycle) 719468

/-- The date with a day number by operations on words. -/
def ofDaysInWords (days : Int) : Option Date := do
  let (cycle, dayOfCycle) ← divide (← add days 719468) 146097
  let yearOfCycle ← yearOfCycleInWords dayOfCycle
  let year ← add yearOfCycle (← mul cycle 400)
  let dayOfYear ← sub dayOfCycle (← daysBeforeYearInWords yearOfCycle)
  dateInWords year dayOfYear

/-- No operation leaves the words in a year that is not too far away, and the day number is that of the calendar. -/
theorem toDaysInWords_eq {d : Date} (h : d.Valid) (hyear : -1000000000 ≤ d.year ∧ d.year ≤ 1000000000) :
    d.toDaysInWords = some d.toDays := by
  obtain ⟨hmonth, hmonth', hday, hday'⟩ := h
  have hlength := daysInMonth_le d.year d.month
  have hyears : yearFromMarchInWords d = some (if d.month ≤ 2 then d.year - 1 else d.year) := by
    unfold yearFromMarchInWords
    split
    · exact sub_of (by omega)
    · rfl
  have hmonths : monthFromMarchInWords d = some (if d.month ≤ 2 then d.month + 9 else d.month - 3) := by
    unfold monthFromMarchInWords
    split
    · exact add_of (by omega)
    · exact sub_of (by omega)
  unfold toDaysInWords toDays
  rw [hyears, hmonths]
  generalize hy : (if d.month ≤ 2 then d.year - 1 else d.year) = year
  generalize hm : (if d.month ≤ 2 then d.month + 9 else d.month - 3) = month
  have hyearBound : -1000000001 ≤ year ∧ year ≤ 1000000000 := by split at hy <;> omega
  have hmonthBound : 0 ≤ month ∧ month ≤ 11 := by split at hm <;> omega
  have hstart : 0 ≤ daysBeforeMonth month ∧ daysBeforeMonth month ≤ 337 := by
    unfold daysBeforeMonth
    omega
  dsimp only [bind]
  rw [Option.bind_some, divide_of (by omega) (by omega) (by decide) (by decide), Option.bind_some]
  dsimp only
  rw [Option.bind_some, daysBeforeMonthInWords_eq (by omega), Option.bind_some, add_of (by omega), Option.bind_some,
    sub_of (by omega), Option.bind_some, daysBeforeYearInWords_eq (by omega), Option.bind_some, add_of (by omega),
    Option.bind_some, mul_of (by omega), Option.bind_some, add_of (by omega), Option.bind_some, sub_of (by omega)]
  rfl

/-- No operation leaves the words on a day that is not too far away, and the date is that of the calendar. -/
theorem ofDaysInWords_eq {days : Int} (h : -1000000000000 ≤ days ∧ days ≤ 1000000000000) :
    ofDaysInWords days = some (ofDays days) := by
  have hdays := days_counts days
  have hcounted := counted_counts days
  have hcycle : (days + 719468) / 146097 = (counts days).cycle := rfl
  rw [ofDays_eq]
  generalize counts days = c at *
  have hdayOfCycle : (days + 719468) % 146097 = c.century * 36524 + c.four * 1461 + c.year * 365 + c.day := by
    unfold Counts.days daysInCycle epochShift at hdays
    omega
  have hyears : c.century * 100 + c.four * 4 + c.year + c.cycle * 400 = c.years := by
    unfold Counts.years
    omega
  have hdayOfYear : c.century * 36524 + c.four * 1461 + c.year * 365 + c.day -
      (c.century * 36524 + c.four * 1461 + c.year * 365) = c.day := by omega
  have hcentury := hcounted.century
  have hfour := hcounted.four
  have hyear := hcounted.year
  have hday := hcounted.day
  unfold ofDaysInWords
  dsimp only [bind]
  rw [add_of (by omega), Option.bind_some, divide_of (by omega) (by omega) (by decide) (by decide), hcycle,
    hdayOfCycle, Option.bind_some]
  dsimp only
  rw [hcounted.yearOfCycleInWords_eq, Option.bind_some, mul_of (by omega), Option.bind_some, add_of (by omega), hyears,
    Option.bind_some, hcounted.daysBeforeYearInWords_eq, Option.bind_some, sub_of (by omega), hdayOfYear,
    Option.bind_some]
  exact hcounted.dateInWords_eq (by omega)

end Date

/-! ### The days of words -/

/-- A day that a number of milliseconds in a word can fall on. -/
def Calendar.IsDayOfWord (days : Int) : Prop := ∃ millis : Int64, millis.toInt / Rfc3339.millisPerDay = days

theorem Calendar.IsDayOfWord.bounds {days : Int} (h : IsDayOfWord days) :
    -106751991168 ≤ days ∧ days ≤ 106751991167 := by
  obtain ⟨millis, rfl⟩ := h
  have hlow : -9223372036854775808 ≤ millis.toInt := millis.le_toInt
  have hhigh : millis.toInt < 9223372036854775808 := millis.toInt_lt
  rw [show Rfc3339.millisPerDay = 86400000 from rfl]
  omega

namespace Date

open Calendar

/-- A date in these days has a year that is far within a word. -/
private theorem Valid.year_bounds {d : Date} (h : d.Valid) (hcount : IsDayOfWord d.count) :
    -1000000000 ≤ d.year ∧ d.year ≤ 1000000000 := by
  obtain ⟨hlow, hhigh⟩ := hcount.bounds
  obtain ⟨hfirst, hlast⟩ := h.fallsIn
  rw [newYear_eq] at hfirst hlast
  unfold leapYears at hfirst hlast
  omega

/-- **The conversions of the calendar in words.**  On every day that a number of milliseconds in a word can fall on,
the date of the day number is a date of the calendar that is counted to that day, its day number is the one it came
from, and the date of the next day number is the next date; and every date of the calendar on these days, whatever its
year, comes back from its day number, which is its count.  None of the operations on words that the conversions are
made of leaves the words. -/
theorem conversions_inverse :
    (∀ days, IsDayOfWord days →
      ((ofDays days).Valid ∧ (ofDays days).count = days) ∧ (ofDays days).toDays = days ∧
        ofDays (days + 1) = (ofDays days).next ∧
        ofDaysInWords days = some (ofDays days) ∧ ofDaysInWords (days + 1) = some (ofDays (days + 1)) ∧
        toDaysInWords (ofDays days) = some days) ∧
    ∀ d : Date, d.Valid → IsDayOfWord d.count →
      d.toDays = d.count ∧ ofDays d.toDays = d ∧
        toDaysInWords d = some d.toDays ∧ ofDaysInWords d.toDays = some d := by
  constructor
  · intro days hdays
    obtain ⟨hlow, hhigh⟩ := hdays.bounds
    have hvalid := valid_ofDays days
    have hcount := count_ofDays days
    have hwords := toDaysInWords_eq hvalid (hvalid.year_bounds (by rwa [hcount]))
    rw [toDays_ofDays] at hwords
    exact ⟨⟨hvalid, hcount⟩, toDays_ofDays days, ofDays_succ days, ofDaysInWords_eq (by omega),
      ofDaysInWords_eq (by omega), hwords⟩
  · intro d hvalid hdays
    have hcount := toDays_eq_count ⟨hvalid.1, hvalid.2.1⟩
    obtain ⟨hlow, hhigh⟩ := hdays.bounds
    -- two dates that are counted to one day are one
    have hback : ofDays d.toDays = d :=
      (valid_ofDays d.toDays).eq_of_count_eq hvalid (by rw [count_ofDays, hcount])
    have hwords : ofDaysInWords d.toDays = some (ofDays d.toDays) := ofDaysInWords_eq (by omega)
    rw [hback] at hwords
    exact ⟨hcount, hback, toDaysInWords_eq hvalid (hvalid.year_bounds hdays), hwords⟩

/-- The conversions on the first day that a word can hold, and on a leap day before the year 0. -/
theorem conversions_inverse_early :
    (IsDayOfWord (-106751991168) ∧ ofDays (-106751991168) = ⟨-292275055, 5, 16⟩ ∧
      ofDays (-106751991167) = ⟨-292275055, 5, 17⟩ ∧
      toDaysInWords ⟨-292275055, 5, 16⟩ = some (-106751991168)) ∧
    Valid ⟨-4, 2, 29⟩ ∧ IsDayOfWord (count ⟨-4, 2, 29⟩) ∧ ofDaysInWords (-720930) = some ⟨-4, 2, 29⟩ := by
  have hfirst : IsDayOfWord (-106751991168) := ⟨Int64.minValue, by decide⟩
  have hdate : ofDays (-106751991168) = ⟨-292275055, 5, 16⟩ := by decide
  obtain ⟨-, -, hnext, -, -, hwords⟩ := conversions_inverse.1 (-106751991168) hfirst
  rw [hdate] at hnext hwords
  have hvalid : Valid ⟨-4, 2, 29⟩ := by decide
  have hdays : toDays ⟨-4, 2, 29⟩ = -720930 := by decide
  have hleap : IsDayOfWord (count ⟨-4, 2, 29⟩) := by
    rw [← toDays_eq_count ⟨hvalid.1, hvalid.2.1⟩, hdays]
    exact ⟨-62288352000000, by decide⟩
  obtain ⟨-, -, -, hback⟩ := conversions_inverse.2 ⟨-4, 2, 29⟩ hvalid hleap
  rw [hdays] at hback
  exact ⟨⟨hfirst, hdate, hnext, hwords⟩, hvalid, hleap, hback⟩

end Date

end PropertyGraph
