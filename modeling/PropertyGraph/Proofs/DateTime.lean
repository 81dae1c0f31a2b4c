import Mathlib.Data.Nat.Digits.Defs
import PropertyGraph.Proofs.Gregorian
import PropertyGraph.Proofs.Rfc3339

/-!
# The grammar of date and time texts

A date and time as it is written: digits for each of its parts, what stands between them, a fraction and an offset
that may be left out.  `DateTime` holds the parts with their ranges, `chars` is the text and `millis` the point in
time, its days counted by the rules of the calendar.  The key facts: the text of a date and time is read as its point
in time (`DateTime.parse_chars`), a text that is read is the text of one (`exists_dateTime_of_parse`), and so a text is
read exactly if it is in the grammar (`parse_eq_ok_iff`).
-/

namespace PropertyGraph.Rfc3339

/-! ### The parts -/

/-- The text of a run of decimal digits. -/
def charsOfDigits (digits : List (Fin 10)) : List Char := digits.map fun d => d.val.digitChar

/-- The number that a run of decimal digits stands for. -/
def numberOfDigits (digits : List (Fin 10)) : Nat := Nat.ofDigits 10 (digits.reverse.map Fin.val)

theorem isDigit_of_mem_charsOfDigits {digits : List (Fin 10)} {c : Char} (h : c ∈ charsOfDigits digits) :
    c.isDigit = true := by
  obtain ⟨d, -, rfl⟩ := List.mem_map.1 h
  exact Decimal.isDigit_digitChar d.isLt

/-- The value of a run as it is read is the number that it stands for. -/
theorem value_charsOfDigits (digits : List (Fin 10)) :
    Decimal.value (charsOfDigits digits) = numberOfDigits digits := by
  induction digits with
  | nil => rfl
  | cons d digits ih =>
    have hnumber : numberOfDigits (d :: digits) = numberOfDigits digits + 10 ^ digits.length * d := by
      rw [numberOfDigits, List.reverse_cons, List.map_append, List.map_singleton, Nat.ofDigits_append,
        Nat.ofDigits_singleton, List.length_map, List.length_reverse]
      rfl
    have hvalue : Decimal.value (charsOfDigits (d :: digits)) =
        d * tenPow digits.length + Decimal.value (charsOfDigits digits) := by
      rw [charsOfDigits, List.map_cons, Decimal.value_cons, Decimal.digitValue_digitChar d.isLt, List.length_map]
      rfl
    rw [hvalue, hnumber, ih, show tenPow digits.length = 10 ^ digits.length from rfl, Nat.mul_comm, Nat.add_comm]

theorem exists_charsOfDigits {s : List Char} (h : ∀ c ∈ s, c.isDigit = true) :
    ∃ digits, charsOfDigits digits = s := by
  induction s with
  | nil => exact ⟨[], rfl⟩
  | cons c s ih =>
    obtain ⟨digits, rfl⟩ := ih fun d hd => h d (List.mem_cons_of_mem _ hd)
    obtain ⟨d, rfl⟩ := Decimal.exists_digitChar (h c (List.mem_cons_self ..))
    exact ⟨d :: digits, rfl⟩

/-- A part of a date and time: a fixed number of decimal digits. -/
structure Digits (width : Nat) where
  digits : List (Fin 10)
  length_eq : digits.length = width

namespace Digits

variable {width : Nat}

def chars (d : Digits width) : List Char := charsOfDigits d.digits

def value (d : Digits width) : Nat := numberOfDigits d.digits

theorem length_chars (d : Digits width) : d.chars.length = width := by
  rw [chars, charsOfDigits, List.length_map, d.length_eq]

theorem isDigit (d : Digits width) : ∀ c ∈ d.chars, c.isDigit = true := fun _ h => isDigit_of_mem_charsOfDigits h

theorem value?_chars {n : Nat} (d : Digits (n + 1)) : Decimal.value? d.chars = some d.value := by
  have hall : d.chars.all Char.isDigit = true := List.all_eq_true.2 d.isDigit
  have hne : d.chars.isEmpty = false := by
    rw [List.isEmpty_eq_false_iff, ← List.length_pos_iff, d.length_chars]
    exact Nat.succ_pos n
  rw [Decimal.value?, hne, hall, value, ← value_charsOfDigits]
  rfl

theorem value_lt (d : Digits width) : d.value < tenPow width := by
  have := Decimal.value_lt d.isDigit
  rwa [d.length_chars, chars, value_charsOfDigits] at this

end Digits

/-- The digits after the point of a second. -/
structure Fraction where
  digits : List (Fin 10)
  ne_nil : digits ≠ []

namespace Fraction

/-- The digit at a place after the point; a digit that is left out is a zero. -/
def digitAt (f : Fraction) (place : Nat) : Nat := (f.digits[place]?.map Fin.val).getD 0

/-- The first three digits as milliseconds. -/
def millis (f : Fraction) : Nat := 100 * f.digitAt 0 + 10 * f.digitAt 1 + f.digitAt 2

/-- The text of a fraction with its point, or of none. -/
def charsOf : Option Fraction → List Char
  | some f => '.' :: charsOfDigits f.digits
  | none => []

/-- The milliseconds of a fraction, or of none. -/
def millisOf : Option Fraction → Nat
  | some f => f.millis
  | none => 0

theorem digitAt_le (f : Fraction) (place : Nat) : f.digitAt place ≤ 9 := by
  unfold digitAt
  cases h : f.digits[place]? with
  | none => decide
  | some d => exact Nat.le_of_lt_succ d.isLt

theorem millisOf_le (f : Option Fraction) : millisOf f ≤ 999 := by
  cases f with
  | none => decide
  | some f =>
    have h0 := f.digitAt_le 0
    have h1 := f.digitAt_le 1
    have h2 := f.digitAt_le 2
    show f.millis ≤ 999
    unfold millis
    omega

theorem fractionMillis_digits (f : Fraction) : fractionMillis (charsOfDigits f.digits) = f.millis := by
  have hzero : Decimal.digitValue '0' = 0 := rfl
  have hvalue (d : Fin 10) : Decimal.digitValue d.val.digitChar = d := Decimal.digitValue_digitChar d.isLt
  unfold millis digitAt fractionMillis charsOfDigits
  match f.digits with
  | [] => rfl
  | [a] => simp [Decimal.value, hzero, hvalue]; omega
  | [a, b] => simp [Decimal.value, hzero, hvalue]; omega
  | a :: b :: c :: rest => simp [Decimal.value, hvalue]; omega

end Fraction

/-- An offset from UTC: left out, the letter of UTC, or a sign with hours and minutes, 24 hours at most. -/
inductive Zone where
  | omitted
  | utc (letter : Char) (isUtc : letter = 'Z' ∨ letter = 'z')
  | offset (sign : Char) (isSign : sign = '+' ∨ sign = '-') (hours minutes : Digits 2)
      (range : hours.value * 60 + minutes.value ≤ 24 * 60) (minutes_le : minutes.value ≤ 59)

namespace Zone

def chars : Zone → List Char
  | omitted => []
  | utc letter _ => [letter]
  | offset sign _ hours minutes _ _ => sign :: (hours.chars ++ ':' :: minutes.chars)

/-- The minutes that local time is ahead of UTC. -/
def minutes : Zone → Int
  | omitted | utc .. => 0
  | offset sign _ hours minutes _ _ =>
    if sign = '-' then -((hours.value : Int) * 60 + minutes.value) else (hours.value : Int) * 60 + minutes.value

theorem minutes_bounds (z : Zone) : -1440 ≤ z.minutes ∧ z.minutes ≤ 1440 := by
  cases z with
  | omitted => decide
  | utc letter isUtc =>
    show (-1440 : Int) ≤ 0 ∧ (0 : Int) ≤ 1440
    decide
  | offset sign isSign hours minutes range minutes_le =>
    unfold Zone.minutes
    split <;> omega

end Zone

/-- The parts of a date and time, each in its range. -/
structure DateTime where
  year : Digits 4
  month : Digits 2
  day : Digits 2
  separator : Char
  hours : Digits 2
  minutes : Digits 2
  seconds : Digits 2
  fraction : Option Fraction
  zone : Zone
  isSeparator : separator = 'T' ∨ separator = 't' ∨ separator = ' '
  isDate : Gregorian.IsDate year.value month.value day.value
  hours_le : hours.value ≤ 23
  minutes_le : minutes.value ≤ 59
  seconds_le : seconds.value ≤ 59

namespace DateTime

def date (t : DateTime) : Date := ⟨t.year.value, t.month.value, t.day.value⟩

theorem valid_date (t : DateTime) : t.date.Valid := (Gregorian.isDate_iff ..).1 t.isDate

/-- The text of a date and time. -/
def chars (t : DateTime) : List Char :=
  t.year.chars ++ '-' :: (t.month.chars ++ '-' :: (t.day.chars ++ t.separator :: (t.hours.chars ++
    ':' :: (t.minutes.chars ++ ':' :: (t.seconds.chars ++ (Fraction.charsOf t.fraction ++ t.zone.chars))))))

/-- The milliseconds from 1970-01-01 on, in UTC. -/
def millis (t : DateTime) : Int :=
  86400000 * Gregorian.daysSinceEpoch t.year.value t.month.value t.day.value + 3600000 * t.hours.value +
    60000 * t.minutes.value + 1000 * t.seconds.value + Fraction.millisOf t.fraction - 60000 * t.zone.minutes

theorem daysSinceEpoch_eq (t : DateTime) :
    Gregorian.daysSinceEpoch t.year.value t.month.value t.day.value = t.date.count :=
  Gregorian.daysSinceEpoch_eq_count t.isDate

/-- The point in time is within a day of those that have a year of four digits. -/
theorem millis_bounds (t : DateTime) :
    firstMillis - 86400000 ≤ t.millis ∧ t.millis ≤ lastMillis + 86400000 := by
  have hyear := t.year.value_lt
  rw [show tenPow 4 = 10000 from rfl] at hyear
  have hdays : -719528 ≤ t.date.count ∧ t.date.count ≤ 2932896 := by
    refine t.valid_date.fallsIn.fourDigits_iff.1 ?_
    dsimp only [date]
    omega
  have hhours := t.hours_le
  have hminutes := t.minutes_le
  have hseconds := t.seconds_le
  have hfraction := Fraction.millisOf_le t.fraction
  have hzone := t.zone.minutes_bounds
  rw [millis, t.daysSinceEpoch_eq]
  unfold firstMillis lastMillis
  omega

end DateTime

/-! ### Texts of the grammar are read -/

theorem field_chars (text : List Char) (part : Part) {n : Nat} (d : Digits (n + 1)) :
    field text part d.chars = .ok (d.value : Int) := by
  rw [field, d.value?_chars]

private theorem exists_of_two (d : Digits 2) : ∃ a b, d.chars = [a, b] :=
  List.length_eq_two.1 d.length_chars

private theorem exists_of_four (d : Digits 4) : ∃ a b c e, d.chars = [a, b, c, e] := by
  match h : d.chars, d.length_chars with
  | [a, b, c, e], _ => exact ⟨a, b, c, e, rfl⟩

namespace Zone

theorem head?_chars (z : Zone) {c : Char} (h : c ∈ z.chars.head?) : c.isDigit = false ∧ c ≠ '.' := by
  cases z with
  | omitted => cases h
  | utc letter isUtc =>
    obtain rfl := Option.some.inj h
    rcases isUtc with rfl | rfl <;> decide
  | offset sign isSign hours minutes range minutes_le =>
    obtain rfl := Option.some.inj h
    rcases isSign with rfl | rfl <;> decide

theorem offsetMinutes_chars (z : Zone) : offsetMinutes z.chars = .ok z.minutes := by
  cases z with
  | omitted => rfl
  | utc letter isUtc => rcases isUtc with rfl | rfl <;> rfl
  | offset sign isSign hours minutes range minutes_le =>
    obtain ⟨h1, h2, hh⟩ := exists_of_two hours
    obtain ⟨m1, m2, hm⟩ := exists_of_two minutes
    have hchars : (offset sign isSign hours minutes range minutes_le).chars = [sign, h1, h2, ':', m1, m2] := by
      rw [chars, hh, hm]
      rfl
    have hhours : field [sign, h1, h2, ':', m1, m2] .offset [h1, h2] = .ok (hours.value : Int) :=
      hh ▸ field_chars _ .offset hours
    have hminutes : field [sign, h1, h2, ':', m1, m2] .offset [m1, m2] = .ok (minutes.value : Int) :=
      hm ▸ field_chars _ .offset minutes
    have hrange : require [sign, h1, h2, ':', m1, m2] .offset
        ((hours.value : Int) * 60 + minutes.value ≤ 1440 && (minutes.value : Int) ≤ 59) = .ok () :=
      if_pos (by simp only [Bool.and_eq_true, decide_eq_true_eq]; omega)
    rw [hchars]
    unfold offsetMinutes
    simp only [if_pos isSign, hhours, hminutes, hrange, bind, Except.bind]
    rfl

end Zone

namespace DateTime

theorem fractionAndRest_chars (text : List Char) (t : DateTime) :
    fractionAndRest text (Fraction.charsOf t.fraction ++ t.zone.chars) =
      .ok ((Fraction.millisOf t.fraction : Int), t.zone.chars) := by
  have hhead (c : Char) (hc : c ∈ t.zone.chars.head?) := t.zone.head?_chars hc
  cases t.fraction with
  | none =>
    show fractionAndRest text t.zone.chars = .ok (0, t.zone.chars)
    generalize t.zone.chars = rest at hhead
    unfold fractionAndRest
    split
    · exact absurd rfl (hhead '.' (by rfl)).2
    · rfl
  | some f =>
    have hne : ¬(charsOfDigits f.digits).isEmpty = true := by simpa [charsOfDigits] using f.ne_nil
    obtain ⟨htake, hdrop⟩ := Decimal.takeWhile_dropWhile_append
      (fun c => isDigit_of_mem_charsOfDigits) fun c hc => (hhead c hc).1
    show (if ((charsOfDigits f.digits ++ t.zone.chars).takeWhile Char.isDigit).isEmpty then _ else
      Except.ok (fractionMillis ((charsOfDigits f.digits ++ t.zone.chars).takeWhile Char.isDigit),
        (charsOfDigits f.digits ++ t.zone.chars).dropWhile Char.isDigit)) = _
    rw [htake, hdrop, if_neg hne, f.fractionMillis_digits]
    rfl

private theorem ascii_chars (t : DateTime) : t.chars.all (·.toNat < 128) = true := by
  have hseparator : t.separator.toNat < 128 := by
    rcases t.isSeparator with h | h | h <;> rw [h] <;> decide
  have hfraction : (Fraction.charsOf t.fraction).all (·.toNat < 128) = true := by
    cases t.fraction with
    | none => rfl
    | some f =>
      rw [Fraction.charsOf, List.all_cons, ascii_of_isDigit fun c => isDigit_of_mem_charsOfDigits]
      rfl
  have hzone : t.zone.chars.all (·.toNat < 128) = true := by
    cases t.zone with
    | omitted => rfl
    | utc letter isUtc => rcases isUtc with rfl | rfl <;> rfl
    | offset sign isSign hours minutes range minutes_le =>
      rw [Zone.chars, List.all_cons, List.all_append, List.all_cons, ascii_of_isDigit hours.isDigit,
        ascii_of_isDigit minutes.isDigit]
      rcases isSign with rfl | rfl <;> rfl
  simp only [chars, List.all_append, List.all_cons, ascii_of_isDigit t.year.isDigit,
    ascii_of_isDigit t.month.isDigit, ascii_of_isDigit t.day.isDigit, ascii_of_isDigit t.hours.isDigit,
    ascii_of_isDigit t.minutes.isDigit, ascii_of_isDigit t.seconds.isDigit, hseparator, hfraction, hzone]
  rfl

/-- The text of a date and time is read as its point in time. -/
theorem parse_chars (t : DateTime) : parse t.chars = .ok t.millis := by
  have hascii := t.ascii_chars
  generalize htext : t.chars = text at hascii ⊢
  obtain ⟨y1, y2, y3, y4, hy⟩ := exists_of_four t.year
  obtain ⟨o1, o2, ho⟩ := exists_of_two t.month
  obtain ⟨d1, d2, hd⟩ := exists_of_two t.day
  obtain ⟨h1, h2, hh⟩ := exists_of_two t.hours
  obtain ⟨m1, m2, hm⟩ := exists_of_two t.minutes
  obtain ⟨s1, s2, hs⟩ := exists_of_two t.seconds
  have hcons : text = y1 :: y2 :: y3 :: y4 :: '-' :: o1 :: o2 :: '-' :: d1 :: d2 :: t.separator :: h1 :: h2 ::
      ':' :: m1 :: m2 :: ':' :: s1 :: s2 :: (Fraction.charsOf t.fraction ++ t.zone.chars) := by
    rw [← htext, chars, hy, ho, hd, hh, hm, hs]
    rfl
  have htime : (t.hours.value : Int) ≤ 23 ∧ (t.minutes.value : Int) ≤ 59 ∧ (t.seconds.value : Int) ≤ 59 :=
    ⟨Int.ofNat_le.2 t.hours_le, Int.ofNat_le.2 t.minutes_le, Int.ofNat_le.2 t.seconds_le⟩
  rw [parse_of_fields hcons t.isSeparator hascii t.date (hy ▸ field_chars text .year t.year)
    (ho ▸ field_chars text .month t.month) (hd ▸ field_chars text .day t.day)
    (hh ▸ field_chars text .hours t.hours) (hm ▸ field_chars text .minutes t.minutes)
    (hs ▸ field_chars text .seconds t.seconds) t.valid_date htime (t.fractionAndRest_chars text)
    t.zone.offsetMinutes_chars, Date.toDays_eq_count ⟨t.valid_date.1, t.valid_date.2.1⟩]
  rw [millis, t.daysSinceEpoch_eq]
  rw [show millisPerDay = 86400000 from rfl, show millisPerHour = 3600000 from rfl,
    show millisPerMinute = 60000 from rfl, show millisPerSecond = 1000 from rfl]
  congr 1
  omega

end DateTime

/-! ### Texts that are read are in the grammar -/

theorem exists_of_bind_ok {ε α β : Type} {x : Except ε α} {f : α → Except ε β} {b : β} (h : (x >>= f) = .ok b) :
    ∃ a, x = .ok a ∧ f a = .ok b := by
  cases x with
  | error e => cases h
  | ok a => exact ⟨a, rfl, h⟩

theorem exists_digits_of_field {text s : List Char} {part : Part} {n : Int} (h : field text part s = .ok n) :
    ∃ d : Digits s.length, d.chars = s ∧ (d.value : Int) = n := by
  unfold field at h
  split at h
  · rename_i v hvalue
    obtain rfl := Except.ok.inj h
    unfold Decimal.value? at hvalue
    split at hvalue
    · cases hvalue
    · rename_i hdigits
      obtain rfl := Option.some.inj hvalue
      have hall : ∀ c ∈ s, c.isDigit = true := by simpa using (show s.all Char.isDigit = true by simp_all)
      obtain ⟨digits, rfl⟩ := exists_charsOfDigits hall
      exact ⟨⟨digits, (List.length_map ..).symm⟩, rfl, congrArg Nat.cast (value_charsOfDigits digits).symm⟩
  · cases h

theorem of_require {text : List Char} {part : Part} {holds : Bool} {u : Unit}
    (h : require text part holds = .ok u) : holds = true := by
  unfold require at h
  split at h
  · assumption
  · cases h

theorem exists_fraction {text rest zone : List Char} {millis : Int}
    (h : fractionAndRest text rest = .ok (millis, zone)) :
    ∃ f : Option Fraction, Fraction.charsOf f ++ zone = rest ∧ (Fraction.millisOf f : Int) = millis := by
  unfold fractionAndRest at h
  split at h
  · rename_i after
    dsimp only at h
    split at h
    · cases h
    · rename_i hne
      obtain ⟨rfl, rfl⟩ := Prod.mk.inj (Except.ok.inj h)
      have hdigits : ∀ c ∈ after.takeWhile Char.isDigit, c.isDigit = true :=
        List.all_eq_true.1 List.all_takeWhile
      obtain ⟨digits, htake⟩ := exists_charsOfDigits hdigits
      refine ⟨some ⟨digits, ?_⟩, ?_, ?_⟩
      · rintro rfl
        exact hne (by rw [← htake]; rfl)
      · rw [Fraction.charsOf, htake, List.cons_append, List.takeWhile_append_dropWhile]
      · rw [Fraction.millisOf, ← Fraction.fractionMillis_digits, htake]
  · obtain ⟨rfl, rfl⟩ := Prod.mk.inj (Except.ok.inj h)
    exact ⟨none, rfl, rfl⟩

theorem exists_zone {s : List Char} {offset : Int} (h : offsetMinutes s = .ok offset) :
    ∃ z : Zone, z.chars = s ∧ z.minutes = offset := by
  unfold offsetMinutes at h
  split at h
  · obtain rfl := Except.ok.inj h
    exact ⟨.omitted, rfl, rfl⟩
  · obtain rfl := Except.ok.inj h
    exact ⟨.utc 'Z' (.inl rfl), rfl, rfl⟩
  · obtain rfl := Except.ok.inj h
    exact ⟨.utc 'z' (.inr rfl), rfl, rfl⟩
  · rename_i sign h1 h2 m1 m2
    split at h
    · rename_i hsign
      obtain ⟨_, hhours, h⟩ := exists_of_bind_ok h
      obtain ⟨_, hminutes, h⟩ := exists_of_bind_ok h
      obtain ⟨_, hrange, h⟩ := exists_of_bind_ok h
      obtain ⟨hours, hh, rfl⟩ := exists_digits_of_field hhours
      obtain ⟨minutes, hm, rfl⟩ := exists_digits_of_field hminutes
      have hrange := of_require hrange
      simp only [Bool.and_eq_true, decide_eq_true_eq] at hrange
      obtain rfl := Except.ok.inj h
      exact ⟨.offset sign hsign hours minutes (by omega) (by omega), by rw [Zone.chars, hh, hm]; rfl, rfl⟩
    · cases h
  · cases h

/-- A text that is read is the text of a date and time. -/
theorem exists_dateTime_of_parse {text : List Char} {m : Int} (h : parse text = .ok m) :
    ∃ t : DateTime, t.chars = text ∧ t.millis = m := by
  have hparsed := h
  unfold parse at h
  split at h
  · rename_i y1 y2 y3 y4 o1 o2 d1 d2 separator h1 h2 m1 m2 s1 s2 rest
    split at h
    · rename_i hform
      generalize hall : y1 :: y2 :: y3 :: y4 :: '-' :: o1 :: o2 :: '-' :: d1 :: d2 :: separator :: h1 :: h2 ::
        ':' :: m1 :: m2 :: ':' :: s1 :: s2 :: rest = text at h hform hparsed ⊢
      obtain ⟨_, hyear, h⟩ := exists_of_bind_ok h
      obtain ⟨_, hmonth, h⟩ := exists_of_bind_ok h
      obtain ⟨_, hday, h⟩ := exists_of_bind_ok h
      obtain ⟨_, hhours, h⟩ := exists_of_bind_ok h
      obtain ⟨_, hminutes, h⟩ := exists_of_bind_ok h
      obtain ⟨_, hseconds, h⟩ := exists_of_bind_ok h
      obtain ⟨_, hmonths, h⟩ := exists_of_bind_ok h
      obtain ⟨_, hdays, h⟩ := exists_of_bind_ok h
      obtain ⟨_, hhour, h⟩ := exists_of_bind_ok h
      obtain ⟨_, hminute, h⟩ := exists_of_bind_ok h
      obtain ⟨_, hsecond, h⟩ := exists_of_bind_ok h
      obtain ⟨⟨millis, zone⟩, hfraction, h⟩ := exists_of_bind_ok h
      obtain ⟨offset, hzone, h⟩ := exists_of_bind_ok h
      obtain ⟨year, hy, rfl⟩ := exists_digits_of_field hyear
      obtain ⟨month, ho, rfl⟩ := exists_digits_of_field hmonth
      obtain ⟨day, hd, rfl⟩ := exists_digits_of_field hday
      obtain ⟨hours, hh, rfl⟩ := exists_digits_of_field hhours
      obtain ⟨minutes, hm, rfl⟩ := exists_digits_of_field hminutes
      obtain ⟨seconds, hs, rfl⟩ := exists_digits_of_field hseconds
      obtain ⟨fraction, hf, rfl⟩ := exists_fraction hfraction
      obtain ⟨z, rfl, rfl⟩ := exists_zone hzone
      have hmonths := of_require hmonths
      have hdays := of_require hdays
      have hhour := of_require hhour
      have hminute := of_require hminute
      have hsecond := of_require hsecond
      simp only [Bool.and_eq_true, decide_eq_true_eq] at hmonths hdays hhour hminute hsecond
      let t : DateTime :=
        { year, month, day, separator, hours, minutes, seconds, fraction, zone := z
          isSeparator := hform.1
          isDate := (Gregorian.isDate_iff ..).2 ⟨hmonths.1, hmonths.2, hdays⟩
          hours_le := Int.ofNat_le.1 hhour
          minutes_le := Int.ofNat_le.1 hminute
          seconds_le := Int.ofNat_le.1 hsecond }
      have hchars : t.chars = text := by
        rw [← hall, DateTime.chars, hy, ho, hd, hh, hm, hs, hf]
        rfl
      -- the text of these parts is read as their point in time, and it is the text that was read
      have hread := t.parse_chars
      rw [hchars, hparsed] at hread
      exact ⟨t, hchars, (Except.ok.inj hread).symm⟩
    · cases h
  · cases h

/-- A text is read as a point in time exactly if it is the text of a date and time that is this point. -/
theorem parse_eq_ok_iff (text : List Char) (m : Int) :
    parse text = .ok m ↔ ∃ t : DateTime, t.chars = text ∧ t.millis = m := by
  refine ⟨exists_dateTime_of_parse, ?_⟩
  rintro ⟨t, rfl, rfl⟩
  exact t.parse_chars

example : parse "2024-02-29 12:00:00.1239+05:30".toList = .ok 1709188200123 := by cbv

end PropertyGraph.Rfc3339
