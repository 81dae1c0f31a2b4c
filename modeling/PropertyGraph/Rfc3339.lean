import PropertyGraph.Calendar
import PropertyGraph.Text.Decimal

/-!
# Points in time as RFC 3339 text

Milliseconds since the epoch as text in UTC, and text with any offset as milliseconds.  A fraction of
a second is written without zeros at its end, and left out if it is zero; when read, digits after the
third are dropped. The key facts: the bounds are the first and the last millisecond of the years 0000
to 9999 (`format_first`, `format_last`).
-/

namespace PropertyGraph.Rfc3339

def millisPerSecond : Int := 1000

def millisPerMinute : Int := 60 * millisPerSecond

def millisPerHour : Int := 60 * millisPerMinute

def millisPerDay : Int := 24 * millisPerHour

/-- The first millisecond that has a year of four digits. -/
def firstMillis : Int := -62167219200000

/-- The last millisecond that has a year of four digits. -/
def lastMillis : Int := 253402300799999

/-- Whether a point in time has a year of four digits, and so a written form. -/
def isWritable (millis : Int) : Bool := firstMillis ≤ millis && millis ≤ lastMillis

/-! ### Writing -/

/-- The fraction of a second after its point, without zeros at the end; empty if it is zero. -/
def fraction (millis : Nat) : List Char :=
  if millis = 0 then []
  else '.' :: ((Decimal.padded 3 millis).reverse.dropWhile (· == '0')).reverse

/-- The text of a point in time; outside the years 0000 to 9999 the year takes the digits it needs. -/
def format (millis : Int) : List Char :=
  let date := Date.ofDays (millis / millisPerDay)
  let time := (millis % millisPerDay).toNat
  let seconds := time / 1000
  Decimal.signedPadded 4 date.year ++ '-' :: Decimal.signedPadded 2 date.month ++
    '-' :: Decimal.signedPadded 2 date.day ++ 'T' :: Decimal.padded 2 (seconds / 3600) ++
    ':' :: Decimal.padded 2 (seconds / 60 % 60) ++ ':' :: Decimal.padded 2 (seconds % 60) ++
    fraction (time % 1000) ++ ['Z']

/-! ### Reading -/

/-- The parts of a date and time that can be wrong on their own. -/
inductive Part where
  | year | month | day | hours | minutes | seconds | fractionalSeconds | offset
deriving DecidableEq

/-- Why a text is no date and time.  A wrong offset repeats the offset alone. -/
inductive Fault where
  | form (text : String)
  | part (wrong : Part) (text : String)
deriving DecidableEq

def Part.name : Part → String
  | .year => "year"
  | .month => "month"
  | .day => "day"
  | .hours => "hours"
  | .minutes => "minutes"
  | .seconds => "seconds"
  | .fractionalSeconds => "fractional seconds"
  | .offset => "timezone offset"

def Fault.message : Fault → String
  | .form text => "Invalid RFC 3339 datetime: " ++ text
  | .part p text => "Invalid " ++ p.name ++ " in datetime: " ++ text

/-- The value of a part's digits. -/
def field (text : List Char) (part : Part) (digits : List Char) : Except Fault Int :=
  match Decimal.value? digits with
  | some n => .ok n
  | none => .error (.part part (String.ofList text))

/-- Fails with a part unless a condition holds of it. -/
def require (text : List Char) (part : Part) (holds : Bool) : Except Fault Unit :=
  if holds then .ok () else .error (.part part (String.ofList text))

/-- The milliseconds of a fraction's digits; digits after the third are dropped. -/
def fractionMillis (digits : List Char) : Int :=
  Decimal.value ((digits ++ ['0', '0', '0']).take 3)

/-- The minutes of an offset: none, `Z` or a sign with hours and minutes, 24 hours at most. -/
def offsetMinutes (text : List Char) : Except Fault Int :=
  match text with
  | [] | ['Z'] | ['z'] => .ok 0
  | [sign, h1, h2, ':', m1, m2] =>
    if sign = '+' ∨ sign = '-' then do
      let hours ← field text .offset [h1, h2]
      let minutes ← field text .offset [m1, m2]
      require text .offset (hours * 60 + minutes ≤ 1440 && minutes ≤ 59)
      let total := hours * 60 + minutes
      .ok (if sign = '-' then -total else total)
    else .error (.part .offset (String.ofList text))
  | _ => .error (.part .offset (String.ofList text))

/-- The milliseconds of a fraction, if there is one, and the text after it. -/
def fractionAndRest (text rest : List Char) : Except Fault (Int × List Char) :=
  match rest with
  | '.' :: after =>
    let digits := after.takeWhile Char.isDigit
    if digits.isEmpty then .error (.part .fractionalSeconds (String.ofList text))
    else .ok (fractionMillis digits, after.dropWhile Char.isDigit)
  | _ => .ok (0, rest)

/-- Reads a date, one of `T`, `t` and a blank, a time, a fraction and an offset, as milliseconds since
the epoch. All the digits are looked at before any range, and both in the order of the text. -/
def parse (text : List Char) : Except Fault Int :=
  match text with
  | y1 :: y2 :: y3 :: y4 :: '-' :: o1 :: o2 :: '-' :: d1 :: d2 :: t :: h1 :: h2 :: ':' :: m1 :: m2 :: ':' ::
      s1 :: s2 :: rest =>
    if (t = 'T' ∨ t = 't' ∨ t = ' ') ∧ text.all (·.toNat < 128) then do
      let year ← field text .year [y1, y2, y3, y4]
      let month ← field text .month [o1, o2]
      let day ← field text .day [d1, d2]
      let hours ← field text .hours [h1, h2]
      let minutes ← field text .minutes [m1, m2]
      let seconds ← field text .seconds [s1, s2]
      require text .month (1 ≤ month && month ≤ 12)
      require text .day (1 ≤ day && day ≤ Calendar.daysInMonth year month)
      require text .hours (hours ≤ 23)
      require text .minutes (minutes ≤ 59)
      require text .seconds (seconds ≤ 59)
      let (millis, zone) ← fractionAndRest text rest
      let offset ← offsetMinutes zone
      .ok (Date.toDays ⟨year, month, day⟩ * millisPerDay + hours * millisPerHour + minutes * millisPerMinute +
        seconds * millisPerSecond + millis - offset * millisPerMinute)
    else .error (.form (String.ofList text))
  | _ => .error (.form (String.ofList text))

theorem format_first : format firstMillis = "0000-01-01T00:00:00Z".toList := by cbv

theorem format_last : format lastMillis = "9999-12-31T23:59:59.999Z".toList := by cbv

end PropertyGraph.Rfc3339
