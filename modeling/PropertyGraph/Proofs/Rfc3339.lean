import Mathlib.Data.List.Basic
import PropertyGraph.Proofs.DayCount
import PropertyGraph.Proofs.Text.Decimal
import PropertyGraph.Rfc3339

/-!
# Date and time texts read back

The text of a point in time in the years 0000 to 9999 is read as that point in time.  Every part of the text has
its fixed width, so the parts are found again; every part is in its range, since the date is valid and the time is
what is left of a day; and the zeros that a fraction lost are filled up again.  The key facts: a date and a time
of the day are read as their sum (`parse_dateTime`), and so a point in time is read back (`parse_format`).
-/

namespace PropertyGraph

namespace Decimal

theorem signedPadded_of_nonneg (width : Nat) {n : Int} (h : 0 ≤ n) : signedPadded width n = padded width n.natAbs :=
  if_neg (Int.not_lt.2 h)

end Decimal

namespace Rfc3339

/-! ### Parts -/

private theorem field_padded (text : List Char) (part : Part) (width n : Nat) :
    field text part (Decimal.padded width n) = .ok (n : Int) := by
  rw [field, Decimal.value?_padded]

private theorem field_signedPadded (text : List Char) (part : Part) (width : Nat) {n : Int} (h : 0 ≤ n) :
    field text part (Decimal.signedPadded width n) = .ok n := by
  rw [Decimal.signedPadded_of_nonneg width h, field_padded, Int.natAbs_of_nonneg h]

private theorem require_of {text : List Char} {part : Part} {holds : Bool} (h : holds = true) :
    require text part holds = .ok () := if_pos h

private theorem exists_padded_two {n : Nat} (h : n < 100) : ∃ a b, Decimal.padded 2 n = [a, b] :=
  List.length_eq_two.1 (Decimal.length_padded h (by decide))

private theorem exists_signedPadded_two {n : Int} (h : 0 ≤ n) (hlt : n < 100) :
    ∃ a b, Decimal.signedPadded 2 n = [a, b] := by
  rw [Decimal.signedPadded_of_nonneg 2 h]
  exact exists_padded_two (by omega)

private theorem exists_signedPadded_four {n : Int} (h : 0 ≤ n) (hlt : n < 10000) :
    ∃ a b c d, Decimal.signedPadded 4 n = [a, b, c, d] := by
  rw [Decimal.signedPadded_of_nonneg 4 h]
  have hlength : (Decimal.padded 4 n.natAbs).length = 4 :=
    Decimal.length_padded (by rw [show tenPow 4 = 10000 from rfl]; omega) (by decide)
  match Decimal.padded 4 n.natAbs, hlength with
  | [a, b, c, d], _ => exact ⟨a, b, c, d, rfl⟩

/-! ### Fractions -/

/-- The zeros that a fraction lost at its end are filled up when it is read. -/
theorem fractionMillis_of_append {s : List Char} {zeros : Nat} (h : s.length + zeros = 3) :
    fractionMillis s = Decimal.value (s ++ List.replicate zeros '0') := by
  have hfill : (s ++ ['0', '0', '0']).take 3 = s ++ List.replicate zeros '0' := by
    rw [List.take_append, List.take_of_length_le (by omega), show 3 - s.length = zeros by omega]
    rw [show ['0', '0', '0'] = List.replicate 3 '0' from rfl, List.take_replicate, Nat.min_eq_left (by omega)]
  rw [fractionMillis, hfill]

theorem fractionAndRest_fraction (text : List Char) {millis : Nat} (h : millis < 1000) :
    fractionAndRest text (fraction millis ++ ['Z']) = .ok ((millis : Int), ['Z']) := by
  unfold fraction
  by_cases hzero : millis = 0
  · rw [if_pos hzero, hzero]
    rfl
  · rw [if_neg hzero]
    -- what is kept of the three digits, and the zeros that are not
    obtain ⟨zeros, hsplit⟩ := Decimal.exists_append_zeros (Decimal.padded 3 millis)
    have hdigits := Decimal.forall_isDigit_padded 3 millis
    have hvalue := Decimal.value_padded 3 millis
    have hlength := Decimal.length_padded (show millis < tenPow 3 from h) (by decide)
    generalize ((Decimal.padded 3 millis).reverse.dropWhile (· == '0')).reverse = kept at hsplit ⊢
    rw [hsplit] at hdigits hvalue hlength
    rw [List.length_append, List.length_replicate] at hlength
    have hkept : ∀ c ∈ kept, c.isDigit = true := fun c hc => hdigits c (List.mem_append_left _ hc)
    have hnonempty : kept.isEmpty = false := by
      rw [List.isEmpty_eq_false_iff]
      intro hnil
      rw [hnil, List.nil_append, Decimal.value_replicate_zero] at hvalue
      exact hzero hvalue.symm
    have hstop : ∀ c ∈ (['Z'] : List Char).head?, c.isDigit = false := by
      intro c hc
      obtain rfl := Option.some.inj hc
      rfl
    obtain ⟨htake, hdrop⟩ := Decimal.takeWhile_dropWhile_append hkept hstop
    show (if ((kept ++ ['Z']).takeWhile Char.isDigit).isEmpty then _ else
      Except.ok (fractionMillis ((kept ++ ['Z']).takeWhile Char.isDigit), (kept ++ ['Z']).dropWhile Char.isDigit)) = _
    rw [htake, hdrop, if_neg (by rw [hnonempty]; decide), fractionMillis_of_append hlength, hvalue]

/-! ### The round trip -/

theorem ascii_of_isDigit {s : List Char} (h : ∀ c ∈ s, c.isDigit = true) : s.all (·.toNat < 128) = true := by
  refine List.all_eq_true.2 fun c hc => decide_eq_true ?_
  have hdigit : '0'.val ≤ c.val ∧ c.val ≤ '9'.val := by simpa [Char.isDigit] using h c hc
  have hle : c.toNat ≤ 57 := hdigit.2
  omega

private theorem ascii_padded (width n : Nat) : (Decimal.padded width n).all (·.toNat < 128) = true :=
  ascii_of_isDigit (Decimal.forall_isDigit_padded width n)

private theorem ascii_signedPadded (width : Nat) (n : Int) :
    (Decimal.signedPadded width n).all (·.toNat < 128) = true := by
  unfold Decimal.signedPadded
  split
  · rw [List.all_cons, ascii_padded]
    rfl
  · exact ascii_padded width n.natAbs

private theorem ascii_fraction (millis : Nat) : (fraction millis).all (·.toNat < 128) = true := by
  unfold fraction
  split
  · rfl
  · have hall := List.all_eq_true.1 (ascii_padded 3 millis)
    refine List.all_eq_true.2 fun c hc => ?_
    rcases List.mem_cons.1 hc with rfl | hc
    · rfl
    · exact hall c (List.mem_reverse.1 ((List.dropWhile_sublist _).mem (List.mem_reverse.1 hc)))

/-- The text of a date and a time of the day in milliseconds. -/
def dateTime (date : Date) (time : Nat) : List Char :=
  Decimal.signedPadded 4 date.year ++ '-' :: Decimal.signedPadded 2 date.month ++
    '-' :: Decimal.signedPadded 2 date.day ++ 'T' :: Decimal.padded 2 (time / 1000 / 3600) ++
    ':' :: Decimal.padded 2 (time / 1000 / 60 % 60) ++ ':' :: Decimal.padded 2 (time / 1000 % 60) ++
    fraction (time % 1000) ++ ['Z']

theorem format_eq (millis : Int) :
    format millis = dateTime (Date.ofDays (millis / millisPerDay)) (millis % millisPerDay).toNat := rfl

private theorem ascii_dateTime (date : Date) (time : Nat) : (dateTime date time).all (·.toNat < 128) = true := by
  simp only [dateTime, List.all_append, List.all_cons, List.all_nil, ascii_padded, ascii_signedPadded, ascii_fraction]
  rfl

/-- A text with a character for each place is read as the sum of its parts if they are in their ranges. -/
theorem parse_of_fields {y1 y2 y3 y4 o1 o2 d1 d2 separator h1 h2 m1 m2 s1 s2 : Char} {text rest zone : List Char}
    (htext : text = y1 :: y2 :: y3 :: y4 :: '-' :: o1 :: o2 :: '-' :: d1 :: d2 :: separator :: h1 :: h2 :: ':' ::
      m1 :: m2 :: ':' :: s1 :: s2 :: rest)
    (hseparator : separator = 'T' ∨ separator = 't' ∨ separator = ' ') (hascii : text.all (·.toNat < 128) = true)
    (date : Date) {hours minutes seconds millis offset : Int}
    (hyear : field text .year [y1, y2, y3, y4] = .ok date.year)
    (hmonth : field text .month [o1, o2] = .ok date.month) (hday : field text .day [d1, d2] = .ok date.day)
    (hhours : field text .hours [h1, h2] = .ok hours) (hminutes : field text .minutes [m1, m2] = .ok minutes)
    (hseconds : field text .seconds [s1, s2] = .ok seconds) (hvalid : date.Valid)
    (htime : hours ≤ 23 ∧ minutes ≤ 59 ∧ seconds ≤ 59)
    (hrest : fractionAndRest text rest = .ok (millis, zone)) (hzone : offsetMinutes zone = .ok offset) :
    parse text = .ok (date.toDays * millisPerDay + hours * millisPerHour + minutes * millisPerMinute +
      seconds * millisPerSecond + millis - offset * millisPerMinute) := by
  have hmonths : require text .month (1 ≤ date.month && date.month ≤ 12) = .ok () :=
    require_of (by rw [Bool.and_eq_true, decide_eq_true_eq, decide_eq_true_eq]; exact ⟨hvalid.1, hvalid.2.1⟩)
  have hdays : require text .day (1 ≤ date.day && date.day ≤ Calendar.daysInMonth date.year date.month) = .ok () :=
    require_of (by rw [Bool.and_eq_true, decide_eq_true_eq, decide_eq_true_eq]; exact hvalid.2.2)
  have hhour : require text .hours (hours ≤ 23) = .ok () := require_of (decide_eq_true htime.1)
  have hminute : require text .minutes (minutes ≤ 59) = .ok () := require_of (decide_eq_true htime.2.1)
  have hsecond : require text .seconds (seconds ≤ 59) = .ok () := require_of (decide_eq_true htime.2.2)
  subst htext
  rw [parse, if_pos ⟨hseparator, hascii⟩]
  simp only [hyear, hmonth, hday, hhours, hminutes, hseconds, hmonths, hdays, hhour, hminute, hsecond, hrest, hzone,
    bind, Except.bind]

theorem parse_dateTime {date : Date} (hvalid : date.Valid) (hyear : 0 ≤ date.year ∧ date.year ≤ 9999) {time : Nat}
    (htime : time < 86400000) : parse (dateTime date time) = .ok (date.toDays * millisPerDay + time) := by
  have hascii := ascii_dateTime date time
  generalize htext : dateTime date time = text at hascii ⊢
  -- a character for each place of the text
  obtain ⟨hmonth, hmonth', hday, hday'⟩ := hvalid
  have hdays := Calendar.daysInMonth_le date.year date.month
  obtain ⟨y1, y2, y3, y4, hy⟩ := exists_signedPadded_four (n := date.year) hyear.1 (by omega)
  obtain ⟨o1, o2, ho⟩ := exists_signedPadded_two (n := date.month) (by omega) (by omega)
  obtain ⟨d1, d2, hd⟩ := exists_signedPadded_two (n := date.day) (by omega) (by omega)
  obtain ⟨h1, h2, hh⟩ := exists_padded_two (n := time / 1000 / 3600) (by omega)
  obtain ⟨m1, m2, hm⟩ := exists_padded_two (n := time / 1000 / 60 % 60) (by omega)
  obtain ⟨s1, s2, hs⟩ := exists_padded_two (n := time / 1000 % 60) (by omega)
  have hcons : text = y1 :: y2 :: y3 :: y4 :: '-' :: o1 :: o2 :: '-' :: d1 :: d2 :: 'T' :: h1 :: h2 :: ':' ::
      m1 :: m2 :: ':' :: s1 :: s2 :: (fraction (time % 1000) ++ ['Z']) := by
    rw [← htext, dateTime, hy, ho, hd, hh, hm, hs]
    simp only [List.cons_append, List.nil_append]
  rw [parse_of_fields hcons (.inl rfl) hascii date (hy ▸ field_signedPadded text .year 4 hyear.1)
    (ho ▸ field_signedPadded text .month 2 (by omega)) (hd ▸ field_signedPadded text .day 2 (by omega))
    (hh ▸ field_padded text .hours 2 _) (hm ▸ field_padded text .minutes 2 _) (hs ▸ field_padded text .seconds 2 _)
    ⟨hmonth, hmonth', hday, hday'⟩ (by omega) (fractionAndRest_fraction text (by omega)) rfl]
  unfold millisPerHour millisPerMinute millisPerSecond
  congr 1
  omega

/-- A point in time with a year of four digits is read back from its text. -/
theorem parse_format {millis : Int} (h : isWritable millis = true) : parse (format millis) = .ok millis := by
  simp only [isWritable, Bool.and_eq_true, decide_eq_true_eq] at h
  unfold firstMillis lastMillis at h
  have hday : millisPerDay = 86400000 := rfl
  have hyear : 0 ≤ (Date.ofDays (millis / millisPerDay)).year ∧ (Date.ofDays (millis / millisPerDay)).year ≤ 9999 :=
    (Date.fallsIn_ofDays _).fourDigits_iff.2 (by rw [hday]; omega)
  rw [format_eq, parse_dateTime (Date.valid_ofDays _) hyear (by rw [hday]; omega), Date.toDays_ofDays]
  congr 1
  rw [hday]
  omega

end Rfc3339

end PropertyGraph
