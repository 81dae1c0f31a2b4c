import PropertyGraph.Proofs.CalendarWords
import PropertyGraph.Proofs.DateTime
import PropertyGraph.Proofs.Text.Bytes

/-!
# Date and time texts in bytes and words

A date and time is read at fixed places of the bytes of a text, from the slices between them, by operations on words
of 64 bits.  A step of this kind may have no result: a place is past the last byte, a slice begins or ends inside a
character, an operation leaves the words.  `Attempt` keeps that apart from a text that is refused with a fault.  The
key facts: on a text of single bytes that is long enough no step is without a result, and the reading is that of the
characters (`refines_readInBytes`); every other text is refused before (`refines_parseInBytes`); so no text is without
an answer, and the answer is a point in time exactly for the texts of the grammar (`parseInBytes_spec`).
-/

namespace PropertyGraph.Rfc3339

open Utf8

/-- What a step comes to: no result, a fault of the text, or a value. -/
abbrev Attempt (α : Type) := ExceptT Fault Option α

/-- A step that always has a result. -/
def Attempt.ofExcept {α : Type} (r : Except Fault α) : Attempt α := ExceptT.mk (some r)

/-! ### Steps -/

def byteAt? (text : List Char) (place : Nat) : Option UInt8 := (bytes text)[place]?

def isDigitByte (b : UInt8) : Bool := 48 ≤ b && b ≤ 57

/-- The word that a part's digits stand for. -/
def wordOfDigits? (digits : List Char) : Option Int :=
  if digits.isEmpty || !(bytes digits).all isDigitByte then none else Word.result (Decimal.value digits)

/-- The part between two places; one that is not made of digits, or is no word, is refused. -/
def fieldInWords (text : List Char) (part : Part) (first last : Nat) : Attempt Int := do
  let digits ← slice? first last text
  match wordOfDigits? digits with
  | some n => .ofExcept (.ok n)
  | none => .ofExcept (.error (.part part (String.ofList text)))

/-- Whether the bytes between the parts are those of a date and time. -/
def hasForm? (text : List Char) : Option Bool := do
  let afterYear ← byteAt? text 4
  let afterMonth ← byteAt? text 7
  let afterHours ← byteAt? text 13
  let afterMinutes ← byteAt? text 16
  let separator ← byteAt? text 10
  some (afterYear == '-'.toUInt8 && afterMonth == '-'.toUInt8 && afterHours == ':'.toUInt8 &&
    afterMinutes == ':'.toUInt8 &&
    (separator == 'T'.toUInt8 || separator == 't'.toUInt8 || separator == ' '.toUInt8))

/-- The number of bytes before the first character that is no digit. -/
def digitsEnd : List Char → Nat
  | [] => 0
  | c :: s => if c.isDigit then c.utf8Size + digitsEnd s else 0

/-- The value of a byte as a digit; a byte below that of zero has none. -/
def digitOfByte? (b : UInt8) : Option Int := if '0'.toUInt8 ≤ b then some (b - '0'.toUInt8).toNat else none

/-- The milliseconds of a digit at a place after the point; from the fourth on the exponent would be below zero. -/
def weightInWords (place : Nat) : Option Int := if place ≤ 2 then Word.result (10 ^ (2 - place)) else none

/-- The milliseconds of digits from a place after the point on, added to those before it. -/
def millisInWords (place : Nat) (millis : Int) : List UInt8 → Option Int
  | [] => some millis
  | b :: digits => do
    let sum ← Word.add millis (← Word.mul (← digitOfByte? b) (← weightInWords place))
    millisInWords (place + 1) sum digits

/-- The milliseconds of a fraction, if there is one, and the text after it. -/
def fractionInBytes (text rest : List Char) : Attempt (Int × List Char) :=
  match rest with
  | '.' :: after => do
    .ofExcept (require text .fractionalSeconds (digitsEnd after != 0))
    let digits ← takeBytes? (digitsEnd after) after
    let zone ← dropBytes? (digitsEnd after) after
    let millis ← millisInWords 0 0 ((bytes digits).take 3)
    .ofExcept (.ok (millis, zone))
  | _ => .ofExcept (.ok (0, rest))

/-- Whether a text has the length of an offset and its colon. -/
def hasOffsetForm? (text : List Char) : Option Bool :=
  if (bytes text).length = 6 then (byteAt? text 3).map (· == ':'.toUInt8) else some false

/-- The sign of an offset as a factor. -/
def signInBytes (text : List Char) : Attempt Int := do
  let sign ← byteAt? text 0
  .ofExcept (if sign = '+'.toUInt8 then .ok 1 else if sign = '-'.toUInt8 then .ok (-1)
    else .error (.part .offset (String.ofList text)))

/-- The minutes of an offset: none, `Z` or a sign with hours and minutes, 24 hours at most. -/
def offsetInWords (text : List Char) : Attempt Int :=
  if text = [] ∨ text = ['Z'] ∨ text = ['z'] then .ofExcept (.ok 0)
  else do
    .ofExcept (require text .offset (← hasOffsetForm? text))
    let sign ← signInBytes text
    let hours ← fieldInWords text .offset 1 3
    let minutes ← fieldInWords text .offset 4 6
    .ofExcept (require text .offset (!(24 < hours || hours == 24 && minutes != 0 || 59 < minutes)))
    Word.mul sign (← Word.add (← Word.mul hours 60) minutes)

/-- The milliseconds from 1970-01-01 on of a date, a time and an offset. -/
def pointInWords (date : Date) (hours minutes seconds millis offset : Int) : Option Int := do
  let day ← Word.mul (← date.toDaysInWords) 86400000
  let hour ← Word.add day (← Word.mul hours 3600000)
  let minute ← Word.add hour (← Word.mul minutes 60000)
  let second ← Word.add minute (← Word.mul seconds 1000)
  Word.sub (← Word.add second millis) (← Word.mul offset 60000)

/-- Reads the parts at their places.  All the digits are looked at before any range, and both in the order of the
text. -/
def readInBytes (text : List Char) : Attempt Int := do
  .ofExcept (if (← hasForm? text) then .ok () else .error (.form (String.ofList text)))
  let year ← fieldInWords text .year 0 4
  let month ← fieldInWords text .month 5 7
  let day ← fieldInWords text .day 8 10
  let hours ← fieldInWords text .hours 11 13
  let minutes ← fieldInWords text .minutes 14 16
  let seconds ← fieldInWords text .seconds 17 19
  .ofExcept (require text .month (1 ≤ month && month ≤ 12))
  .ofExcept (require text .day (1 ≤ day && day ≤ Calendar.daysInMonth year month))
  .ofExcept (require text .hours (hours ≤ 23))
  .ofExcept (require text .minutes (minutes ≤ 59))
  .ofExcept (require text .seconds (seconds ≤ 59))
  let rest ← dropBytes? 19 text
  let (millis, zone) ← fractionInBytes text rest
  let offset ← offsetInWords zone
  pointInWords ⟨year, month, day⟩ hours minutes seconds millis offset

/-- Reads a date and time; a text of less than 19 bytes, or with a byte that is no character by itself, is refused at
once. -/
def parseInBytes (text : List Char) : Attempt Int :=
  if (bytes text).length < 19 || !(bytes text).all (· < 128) then .ofExcept (.error (.form (String.ofList text)))
  else readInBytes text

/-! ### Steps that have a result -/

/-- A step has a result, which is that of reading characters. -/
def Refines {α : Type} (x : Attempt α) (r : Except Fault α) : Prop := x.run = some r

namespace Refines

variable {α β : Type} {f : α → Attempt β} {r : Except Fault β}

theorem ofExcept (r : Except Fault α) : Refines (.ofExcept r) r := rfl

theorem bind {x : Attempt α} {s : Except Fault α} {g : α → Except Fault β} (hx : Refines x s)
    (hf : ∀ a, s = .ok a → Refines (f a) (g a)) : Refines (x >>= f) (s >>= g) := by
  obtain rfl : x = Attempt.ofExcept s := hx
  cases s with
  | error fault => rfl
  | ok a => exact hf a rfl

theorem bind_ok {x : Attempt α} {a : α} (hx : Refines x (.ok a)) (hf : Refines (f a) r) : Refines (x >>= f) r := by
  obtain rfl : x = Attempt.ofExcept (.ok a) := hx
  exact hf

theorem bind_some {x : Option α} {a : α} (hx : x = some a) (hf : Refines (f a) r) :
    Refines (liftM x >>= f) r := by
  subst hx
  exact hf

theorem bind_error {x : Attempt α} {fault : Fault} (hx : Refines x (.error fault)) :
    Refines (x >>= f) (.error fault) := by
  obtain rfl : x = Attempt.ofExcept (.error fault) := hx
  rfl

theorem of_some {x : Option α} {a : α} (hx : x = some a) : Refines (liftM x) (.ok a) := by
  subst hx
  rfl

end Refines

/-! ### Bytes -/

theorem isDigitByte_iff (b : UInt8) : isDigitByte b = true ↔ 48 ≤ b.toNat ∧ b.toNat ≤ 57 := by
  simp only [isDigitByte, Bool.and_eq_true, decide_eq_true_eq, UInt8.le_iff_toNat_le]
  rfl

/-- The bytes of a text are digits if its characters are. -/
theorem all_isDigitByte (s : List Char) : (bytes s).all isDigitByte = s.all Char.isDigit := by
  have hlt (b : UInt8) (hb : isDigitByte b = true) : b < 128 :=
    UInt8.lt_iff_toNat_lt.2 (Nat.lt_of_le_of_lt ((isDigitByte_iff b).1 hb).2 (by decide))
  have hchar (c : Char) : (decide (c.toNat < 128) && isDigitByte c.toUInt8) = c.isDigit := by
    rw [Bool.eq_iff_iff, Bool.and_eq_true, decide_eq_true_eq, isDigitByte_iff, Char.isDigit_iff_toNat]
    show _ ↔ 48 ≤ c.toNat ∧ c.toNat ≤ 57
    constructor
    · rintro ⟨h, hdigit⟩
      rwa [toNat_toUInt8 h] at hdigit
    · intro hdigit
      have h : c.toNat < 128 := by omega
      rw [toNat_toUInt8 h]
      exact ⟨h, hdigit⟩
  rw [all_bytes hlt]
  exact congrArg s.all (funext hchar)

theorem isAscii_of_isDigit {s : List Char} (h : ∀ c ∈ s, c.isDigit = true) : IsAscii s := fun c hc =>
  of_decide_eq_true (List.all_eq_true.1 (ascii_of_isDigit h) c hc)

theorem byteAt?_of_getElem? {text : List Char} {place : Nat} {c : Char} (h : IsAscii text)
    (hplace : text[place]? = some c) : byteAt? text place = some c.toUInt8 := by
  rw [byteAt?, bytes_of_isAscii h, List.getElem?_map, hplace]
  rfl

/-! ### Parts -/

theorem field_bounds {text digits : List Char} {part : Part} {n : Int} (h : field text part digits = .ok n)
    {width : Nat} (hwidth : digits.length ≤ width) : 0 ≤ n ∧ n < tenPow width := by
  obtain ⟨d, -, rfl⟩ := exists_digits_of_field h
  exact ⟨Int.natCast_nonneg _, Int.ofNat_lt.2 (Nat.lt_of_lt_of_le d.value_lt (tenPow_le_tenPow hwidth))⟩

theorem wordOfDigits?_eq {digits : List Char} (h : digits.length ≤ 4) :
    wordOfDigits? digits = (Decimal.value? digits).map Int.ofNat := by
  rw [wordOfDigits?, Decimal.value?, all_isDigitByte]
  by_cases hdigits : (digits.isEmpty || !digits.all Char.isDigit) = true
  · rw [if_pos hdigits, if_pos hdigits]
    rfl
  · have hall : ∀ c ∈ digits, c.isDigit = true := by
      simpa using (show digits.all Char.isDigit = true by simp_all)
    have hlt := Decimal.value_lt hall
    have hle : tenPow digits.length ≤ 10000 := tenPow_le_tenPow h
    rw [if_neg hdigits, if_neg hdigits, Word.result_of (by omega)]
    rfl

/-- A part of a few digits is in the words. -/
theorem refines_fieldInWords {text : List Char} {first last : Nat} (h : IsAscii text) (part : Part)
    (hfirst : first ≤ last) (hlast : last ≤ text.length) (hwidth : last - first ≤ 4) :
    Refines (fieldInWords text part first last) (field text part ((text.drop first).take (last - first))) := by
  refine .bind_some (slice?_of_isAscii h hfirst hlast) ?_
  have hlength : ((text.drop first).take (last - first)).length ≤ 4 := by
    rw [List.length_take]
    omega
  rw [wordOfDigits?_eq hlength, field]
  cases Decimal.value? ((text.drop first).take (last - first)) <;> exact .ofExcept _

/-! ### Fractions -/

theorem digitsEnd_eq (s : List Char) : digitsEnd s = (bytes (s.takeWhile Char.isDigit)).length := by
  induction s with
  | nil => rfl
  | cons c s ih =>
    rw [digitsEnd, List.takeWhile_cons]
    split
    · rw [length_bytes_cons, ih]
    · rfl

theorem digitOfByte?_of_isDigit {c : Char} (h : c.isDigit = true) :
    digitOfByte? c.toUInt8 = some (Decimal.digitValue c : Int) := by
  have hdigit : 48 ≤ c.toNat ∧ c.toNat ≤ 57 := Char.isDigit_iff_toNat.1 h
  have hbyte := toNat_toUInt8 (show c.toNat < 128 by omega)
  have hle : '0'.toUInt8 ≤ c.toUInt8 := by
    rw [UInt8.le_iff_toNat_le, hbyte]
    exact hdigit.1
  rw [digitOfByte?, if_pos hle, UInt8.toNat_sub_of_le _ _ hle, hbyte]
  rfl

/-- One of the first three digits after the point is added with its weight. -/
theorem millisInWords_cons {place millis : Nat} {c : Char} (digits : List UInt8) (hplace : place ≤ 2)
    (hc : c.isDigit = true) (hmillis : millis ≤ 999) :
    millisInWords place millis (c.toUInt8 :: digits) =
      millisInWords (place + 1) (millis + Decimal.digitValue c * tenPow (2 - place) : Nat) digits := by
  have hdigit := Decimal.digitValue_le hc
  have hweight : weightInWords place = some (tenPow (2 - place) : Int) := by
    match place with
    | 0 | 1 | 2 => rfl
  have hle : tenPow (2 - place) ≤ 100 := tenPow_le_tenPow (Nat.sub_le 2 place)
  have hproduct : Decimal.digitValue c * tenPow (2 - place) ≤ 9 * 100 := Nat.mul_le_mul hdigit hle
  have hmul : Word.mul (Decimal.digitValue c) (tenPow (2 - place)) =
      some ((Decimal.digitValue c * tenPow (2 - place) : Nat) : Int) := Word.result_of (by omega)
  rw [millisInWords]
  dsimp only [bind]
  rw [digitOfByte?_of_isDigit hc, Option.bind_some, hweight, Option.bind_some, hmul, Option.bind_some,
    Word.add_of (by omega), Option.bind_some]
  rfl

/-- The digits up to the third place are added up, and no sum exceeds the milliseconds of a second. -/
theorem millisInWords_of_isDigit {digits : List Char} (h : ∀ c ∈ digits, c.isDigit = true) {place millis : Nat}
    (hplace : place + digits.length ≤ 3) (hmillis : millis + tenPow (3 - place) ≤ 1000) :
    millisInWords place millis (digits.map Char.toUInt8) =
      some ((millis + Decimal.value digits * tenPow (3 - place - digits.length) : Nat) : Int) := by
  induction digits generalizing place millis with
  | nil =>
    show some (millis : Int) = some ((millis + 0 * _ : Nat) : Int)
    rw [Nat.zero_mul, Nat.add_zero]
  | cons c digits ih =>
    have hc : c.isDigit = true := h c (List.mem_cons_self ..)
    have hrest : ∀ d ∈ digits, d.isDigit = true := fun d hd => h d (List.mem_cons_of_mem _ hd)
    rw [List.length_cons] at hplace
    have hweight : tenPow (3 - place) = tenPow (2 - place) * 10 := by
      rw [← tenPow_succ]
      congr 1
      omega
    have hproduct := Nat.mul_le_mul_right (tenPow (2 - place)) (Decimal.digitValue_le hc)
    have hpos : 0 < tenPow (2 - place) := tenPow_pos _
    have hsplit : tenPow (2 - place) = tenPow digits.length * tenPow (2 - place - digits.length) := by
      rw [← tenPow_add]
      congr 1
      omega
    rw [List.map_cons, millisInWords_cons _ (by omega) hc (by omega), ih hrest (by omega) (by
      rw [show 3 - (place + 1) = 2 - place by omega]; omega)]
    rw [Decimal.value_cons, List.length_cons, show 3 - place - (digits.length + 1) = 2 - place - digits.length by omega,
      show 3 - (place + 1) - digits.length = 2 - place - digits.length by omega, hsplit]
    congr 2
    ring

/-- The milliseconds of a fraction have a result, since no digit after the third is looked at. -/
theorem millisInWords_eq {digits : List Char} (h : ∀ c ∈ digits, c.isDigit = true) :
    millisInWords 0 0 ((bytes digits).take 3) = some (fractionMillis digits) := by
  have hfirst : ∀ c ∈ digits.take 3, c.isDigit = true := fun c hc => h c (List.mem_of_mem_take hc)
  have hlength : (digits.take 3).length + (3 - (digits.take 3).length) = 3 := by
    rw [List.length_take]
    omega
  have hcut : fractionMillis digits = fractionMillis (digits.take 3) := by
    unfold fractionMillis
    rw [List.take_append, List.take_append, List.take_take, List.length_take, Nat.min_self,
      show 3 - min 3 digits.length = 3 - digits.length by omega]
  rw [bytes_of_isAscii (isAscii_of_isDigit h), ← List.map_take, hcut, fractionMillis_of_append hlength,
    Decimal.value_append, Decimal.value_replicate_zero, List.length_replicate]
  exact (millisInWords_of_isDigit hfirst (by omega) (by decide)).trans (by simp)

theorem refines_fractionInBytes (text rest : List Char) :
    Refines (fractionInBytes text rest) (fractionAndRest text rest) := by
  unfold fractionInBytes
  split
  · rename_i after
    have hdigits : ∀ c ∈ after.takeWhile Char.isDigit, c.isDigit = true := List.all_eq_true.1 List.all_takeWhile
    have hsplit : splitBytes? (digitsEnd after) after =
        some (after.takeWhile Char.isDigit, after.dropWhile Char.isDigit) :=
      splitBytes?_eq_some_iff.2 ⟨List.takeWhile_append_dropWhile, (digitsEnd_eq after).symm⟩
    have hend : (digitsEnd after != 0) = !(after.takeWhile Char.isDigit).isEmpty := by
      rw [digitsEnd_eq, length_bytes_of_isAscii (isAscii_of_isDigit hdigits)]
      cases after.takeWhile Char.isDigit <;> rfl
    rw [hend, fractionAndRest]
    cases hempty : (after.takeWhile Char.isDigit).isEmpty with
    | true => exact .bind_error (.ofExcept _)
    | false =>
      refine .bind_ok (.ofExcept (.ok ())) ?_
      refine .bind_some (congrArg (Option.map Prod.fst) hsplit) ?_
      refine .bind_some (congrArg (Option.map Prod.snd) hsplit) ?_
      exact .bind_some (millisInWords_eq hdigits) (.ofExcept _)
  · rename_i hpoint
    unfold fractionAndRest
    split
    · exact absurd rfl (hpoint _)
    · exact .ofExcept _

/-! ### Offsets -/

/-- The place of the sign is there, and the sign of an offset is one of two. -/
theorem refines_signInBytes {text : List Char} {sign : Char} (h : IsAscii text) (hsign : text[0]? = some sign) :
    Refines (signInBytes text) (if sign = '+' ∨ sign = '-' then .ok (if sign = '-' then -1 else 1)
      else .error (.part .offset (String.ofList text))) := by
  have hlt : sign.toNat < 128 := h sign (List.mem_of_getElem? hsign)
  have heq {d : Char} (hd : d.toNat < 128) (hbyte : sign.toUInt8 = d.toUInt8) : sign = d := by
    rwa [← beq_iff_eq, toUInt8_beq hlt hd, decide_eq_true_eq] at hbyte
  refine .bind_some (byteAt?_of_getElem? h hsign) ?_
  by_cases hplus : sign = '+'
  · subst hplus
    exact .ofExcept _
  · by_cases hminus : sign = '-'
    · subst hminus
      exact .ofExcept _
    · rw [if_neg (mt (heq (by decide)) hplus), if_neg (mt (heq (by decide)) hminus),
        if_neg (not_or.2 ⟨hplus, hminus⟩)]
      exact .ofExcept _

/-- The length of a text is looked at before the place of the colon. -/
theorem hasOffsetForm?_eq {text : List Char} (h : IsAscii text) :
    hasOffsetForm? text = some (decide (text.length = 6 ∧ text[3]? = some ':')) := by
  rw [hasOffsetForm?, length_bytes_of_isAscii h]
  by_cases hlength : text.length = 6
  · obtain ⟨colon, hcolon⟩ : ∃ colon, text[3]? = some colon := ⟨text[3], List.getElem?_eq_getElem (by omega)⟩
    have hlt : colon.toNat < 128 := h colon (List.mem_of_getElem? hcolon)
    rw [if_pos hlength, byteAt?_of_getElem? h hcolon, Option.map_some, toUInt8_beq hlt (by decide), hcolon]
    simp [hlength]
  · rw [if_neg hlength]
    simp [hlength]

/-- Hours and minutes are in their ranges and no more than a day exactly if the minutes of both are no more than those
of a day. -/
private theorem inDay_eq {hours minutes : Int} (hhours : 0 ≤ hours) (hminutes : 0 ≤ minutes) :
    (!(24 < hours || hours == 24 && minutes != 0 || 59 < minutes)) =
      (hours * 60 + minutes ≤ 1440 && minutes ≤ 59) := by
  rw [Bool.eq_iff_iff]
  simp only [Bool.not_eq_true', Bool.or_eq_false_iff, Bool.and_eq_false_iff, Bool.and_eq_true, decide_eq_true_eq,
    decide_eq_false_iff_not, beq_eq_false_iff_ne, bne_eq_false_iff_eq]
  omega

/-- The minutes of an offset of a day at most are in the words. -/
theorem refines_minutesInWords {sign : Char} {hours minutes : Int} (hhours : 0 ≤ hours ∧ hours ≤ 99)
    (hminutes : 0 ≤ minutes ∧ minutes ≤ 99) :
    Refines (do Word.mul (if sign = '-' then -1 else 1) (← Word.add (← Word.mul hours 60) minutes))
      (.ok (if sign = '-' then -(hours * 60 + minutes) else hours * 60 + minutes)) := by
  refine .bind_some (Word.mul_of (by omega)) ?_
  refine .bind_some (Word.add_of (by omega)) ?_
  refine .of_some ?_
  by_cases hminus : sign = '-'
  · rw [if_pos hminus, if_pos hminus, Word.mul_of (by omega), Int.neg_one_mul]
  · rw [if_neg hminus, if_neg hminus, Word.mul_of (by omega), Int.one_mul]

/-- Apart from none and `Z` an offset has six characters, the fourth of them a colon. -/
theorem offsetMinutes_of_not_form {text : List Char} (hshort : ¬(text = [] ∨ text = ['Z'] ∨ text = ['z']))
    (hform : ¬(text.length = 6 ∧ text[3]? = some ':')) :
    offsetMinutes text = .error (.part .offset (String.ofList text)) := by
  unfold offsetMinutes
  split
  · exact absurd (.inl rfl) hshort
  · exact absurd (.inr (.inl rfl)) hshort
  · exact absurd (.inr (.inr rfl)) hshort
  · exact absurd ⟨rfl, rfl⟩ hform
  · rfl

theorem refines_offsetInWords {text : List Char} (h : IsAscii text) :
    Refines (offsetInWords text) (offsetMinutes text) := by
  by_cases hshort : text = [] ∨ text = ['Z'] ∨ text = ['z']
  · rcases hshort with rfl | rfl | rfl <;> rfl
  · unfold offsetInWords
    rw [if_neg hshort]
    refine .bind_some (hasOffsetForm?_eq h) ?_
    by_cases hform : text.length = 6 ∧ text[3]? = some ':'
    · obtain ⟨sign, h1, h2, m1, m2, rfl⟩ : ∃ sign h1 h2 m1 m2, text = [sign, h1, h2, ':', m1, m2] := by
        match text, hform with
        | [sign, h1, h2, colon, m1, m2], ⟨_, hcolon⟩ =>
          exact ⟨sign, h1, h2, m1, m2, by rw [Option.some.inj hcolon]⟩
      have hsign := refines_signInBytes h (show [sign, h1, h2, ':', m1, m2][0]? = some sign from rfl)
      refine .bind_ok (a := ()) (.ofExcept _) ?_
      rw [offsetMinutes]
      by_cases hplusMinus : sign = '+' ∨ sign = '-'
      · rw [if_pos hplusMinus] at hsign ⊢
        refine .bind_ok hsign ?_
        refine .bind (refines_fieldInWords h .offset (by decide) (by simp) (by decide)) fun hours hhours => ?_
        refine .bind (refines_fieldInWords h .offset (by decide) (by simp) (by decide)) fun minutes hminutes => ?_
        have hhours := field_bounds hhours (show _ ≤ 2 by simp)
        have hminutes := field_bounds hminutes (show _ ≤ 2 by simp)
        rw [show tenPow 2 = 100 from rfl] at hhours hminutes
        rw [inDay_eq hhours.1 hminutes.1]
        refine .bind (.ofExcept _) fun _ _ => ?_
        exact refines_minutesInWords (by omega) (by omega)
      · rw [if_neg hplusMinus] at hsign ⊢
        exact .bind_error hsign
    · rw [decide_eq_false hform, offsetMinutes_of_not_form hshort hform]
      exact .bind_error (.ofExcept _)

/-! ### The whole text -/

theorem pointInWords_eq {date : Date} {hours minutes seconds millis offset : Int} (hdate : date.Valid)
    (hyear : 0 ≤ date.year ∧ date.year ≤ 9999) (hhours : 0 ≤ hours ∧ hours ≤ 23)
    (hminutes : 0 ≤ minutes ∧ minutes ≤ 59) (hseconds : 0 ≤ seconds ∧ seconds ≤ 59)
    (hmillis : 0 ≤ millis ∧ millis ≤ 999) (hoffset : -1440 ≤ offset ∧ offset ≤ 1440) :
    pointInWords date hours minutes seconds millis offset =
      some (date.toDays * millisPerDay + hours * millisPerHour + minutes * millisPerMinute +
        seconds * millisPerSecond + millis - offset * millisPerMinute) := by
  have hdays : -719528 ≤ date.toDays ∧ date.toDays ≤ 2932896 := by
    rw [Date.toDays_eq_count ⟨hdate.1, hdate.2.1⟩]
    exact hdate.fallsIn.fourDigits_iff.1 hyear
  unfold pointInWords
  dsimp only [bind]
  rw [Date.toDaysInWords_eq hdate (by omega), Option.bind_some, Word.mul_of (by omega), Option.bind_some,
    Word.mul_of (by omega), Option.bind_some, Word.add_of (by omega), Option.bind_some, Word.mul_of (by omega),
    Option.bind_some, Word.add_of (by omega), Option.bind_some, Word.mul_of (by omega), Option.bind_some,
    Word.add_of (by omega), Option.bind_some, Word.add_of (by omega), Option.bind_some, Word.mul_of (by omega),
    Option.bind_some, Word.sub_of (by omega)]
  rfl

/-- The characters between the parts of a date and time. -/
def HasForm (text : List Char) : Prop :=
  (text[4]? = some '-' ∧ text[7]? = some '-' ∧ text[13]? = some ':' ∧ text[16]? = some ':') ∧
    (text[10]? = some 'T' ∨ text[10]? = some 't' ∨ text[10]? = some ' ')

instance (text : List Char) : Decidable (HasForm text) := inferInstanceAs (Decidable (_ ∧ _))

theorem hasForm?_eq {text : List Char} (h : IsAscii text) (hlength : 19 ≤ text.length) :
    hasForm? text = some (decide (HasForm text)) := by
  have hbyte (place : Nat) (hplace : place < 19) : ∃ b, byteAt? text place = some b ∧
      ∀ d : Char, d.toNat < 128 → (b == d.toUInt8) = decide (text[place]? = some d) := by
    have hget : text[place]? = some text[place] := List.getElem?_eq_getElem (by omega)
    refine ⟨_, byteAt?_of_getElem? h hget, fun d hd => ?_⟩
    rw [toUInt8_beq (h _ (List.mem_of_getElem? hget)) hd, hget, decide_eq_decide, Option.some.injEq]
  obtain ⟨afterYear, hyear, heqyear⟩ := hbyte 4 (by decide)
  obtain ⟨afterMonth, hmonth, heqmonth⟩ := hbyte 7 (by decide)
  obtain ⟨afterHours, hhours, heqhours⟩ := hbyte 13 (by decide)
  obtain ⟨afterMinutes, hminutes, heqminutes⟩ := hbyte 16 (by decide)
  obtain ⟨separator, hseparator, heqseparator⟩ := hbyte 10 (by decide)
  unfold hasForm? HasForm
  dsimp only [bind]
  rw [hyear, Option.bind_some, hmonth, Option.bind_some, hhours, Option.bind_some, hminutes, Option.bind_some,
    hseparator, Option.bind_some, heqyear _ (by decide), heqmonth _ (by decide), heqhours _ (by decide),
    heqminutes _ (by decide), heqseparator _ (by decide), heqseparator _ (by decide), heqseparator _ (by decide)]
  refine congrArg some (Bool.eq_iff_iff.2 ?_)
  simp only [Bool.and_eq_true, Bool.or_eq_true, decide_eq_true_eq, and_assoc, or_assoc]

theorem parse_of_not_hasForm {text : List Char} (h : ¬HasForm text) :
    parse text = .error (.form (String.ofList text)) := by
  unfold parse
  split
  · split
    · rename_i hseparator
      refine absurd ⟨⟨rfl, rfl, rfl, rfl⟩, ?_⟩ h
      rcases hseparator.1 with rfl | rfl | rfl
      · exact .inl rfl
      · exact .inr (.inl rfl)
      · exact .inr (.inr rfl)
    · rfl
  · rfl

/-- A text with these characters, with a name for each of the others up to the end of the seconds. -/
theorem HasForm.exists_eq {text : List Char} (hform : HasForm text) (hlength : 19 ≤ text.length) :
    ∃ y1 y2 y3 y4 o1 o2 d1 d2 separator h1 h2 m1 m2 s1 s2 rest, text = y1 :: y2 :: y3 :: y4 :: '-' :: o1 :: o2 ::
      '-' :: d1 :: d2 :: separator :: h1 :: h2 :: ':' :: m1 :: m2 :: ':' :: s1 :: s2 :: rest := by
  have hfirst : (text.take 19).length = 19 := by rw [List.length_take, Nat.min_eq_left hlength]
  rw [← List.take_append_drop 19 text] at hform ⊢
  match text.take 19, hfirst, hform with
  | [y1, y2, y3, y4, a, o1, o2, b, d1, d2, separator, h1, h2, c, m1, m2, d, s1, s2], _, ⟨⟨ha, hb, hc, hd⟩, _⟩ =>
    obtain rfl := Option.some.inj ha
    obtain rfl := Option.some.inj hb
    obtain rfl := Option.some.inj hc
    obtain rfl := Option.some.inj hd
    exact ⟨y1, y2, y3, y4, o1, o2, d1, d2, separator, h1, h2, m1, m2, s1, s2, text.drop 19, rfl⟩

theorem parse_of_not_isAscii {text : List Char} (h : ¬(IsAscii text ∧ 19 ≤ text.length)) :
    parse text = .error (.form (String.ofList text)) := by
  unfold parse
  split
  · split
    · rename_i hform
      exact absurd ⟨fun c hc => of_decide_eq_true (List.all_eq_true.1 hform.2 c hc), by simp⟩ h
    · rfl
  · rfl

/-- After a valid date and time of day, a fraction and an offset are read, and the point in time is in the words. -/
theorem refines_afterTime (text : List Char) {rest : List Char} (h : IsAscii rest) {date : Date} (hdate : date.Valid)
    (hyear : 0 ≤ date.year ∧ date.year ≤ 9999) {hours minutes seconds : Int} (hhours : 0 ≤ hours ∧ hours ≤ 23)
    (hminutes : 0 ≤ minutes ∧ minutes ≤ 59) (hseconds : 0 ≤ seconds ∧ seconds ≤ 59) :
    Refines (do
        let (millis, zone) ← fractionInBytes text rest
        let offset ← offsetInWords zone
        pointInWords date hours minutes seconds millis offset)
      (do
        let (millis, zone) ← fractionAndRest text rest
        let offset ← offsetMinutes zone
        .ok (date.toDays * millisPerDay + hours * millisPerHour + minutes * millisPerMinute +
          seconds * millisPerSecond + millis - offset * millisPerMinute)) := by
  refine .bind (refines_fractionInBytes text rest) fun fractionAndZone hfraction => ?_
  obtain ⟨millis, zone⟩ := fractionAndZone
  obtain ⟨fraction, rfl, rfl⟩ := exists_fraction hfraction
  have hascii : IsAscii zone := fun c hc => h c (List.mem_append_right _ hc)
  refine .bind (refines_offsetInWords hascii) fun offset hoffset => ?_
  obtain ⟨z, rfl, rfl⟩ := exists_zone hoffset
  have hmillis := Fraction.millisOf_le fraction
  exact .of_some (pointInWords_eq hdate hyear hhours hminutes hseconds (by omega) z.minutes_bounds)

/-- On a text of single bytes that is long enough every step has a result, and the reading is that of the
characters. -/
theorem refines_readInBytes {text : List Char} (h : IsAscii text) (hlength : 19 ≤ text.length) :
    Refines (readInBytes text) (parse text) := by
  refine .bind_some (hasForm?_eq h hlength) ?_
  by_cases hform : HasForm text
  · rw [decide_eq_true hform]
    refine .bind_ok (a := ()) (.ofExcept _) ?_
    obtain ⟨y1, y2, y3, y4, o1, o2, d1, d2, separator, h1, h2, m1, m2, s1, s2, rest, rfl⟩ := hform.exists_eq hlength
    have hseparator : separator = 'T' ∨ separator = 't' ∨ separator = ' ' := by simpa using hform.2
    have hall := List.all_eq_true.2 fun c hc => decide_eq_true (h c hc)
    rw [parse, if_pos ⟨hseparator, hall⟩]
    refine .bind (refines_fieldInWords h .year (by decide) (by simp) (by decide)) fun year hyear => ?_
    refine .bind (refines_fieldInWords h .month (by decide) (by simp) (by decide)) fun month hmonth => ?_
    refine .bind (refines_fieldInWords h .day (by decide) (by simp) (by decide)) fun day hday => ?_
    refine .bind (refines_fieldInWords h .hours (by decide) (by simp) (by decide)) fun hours hhours => ?_
    refine .bind (refines_fieldInWords h .minutes (by decide) (by simp) (by decide)) fun minutes hminutes => ?_
    refine .bind (refines_fieldInWords h .seconds (by decide) (by simp) (by decide)) fun seconds hseconds => ?_
    refine .bind (.ofExcept _) fun _ hmonths => ?_
    refine .bind (.ofExcept _) fun _ hdays => ?_
    refine .bind (.ofExcept _) fun _ hhour => ?_
    refine .bind (.ofExcept _) fun _ hminute => ?_
    refine .bind (.ofExcept _) fun _ hsecond => ?_
    refine .bind_some (dropBytes?_of_isAscii h (by simp)) ?_
    have hmonths := of_require hmonths
    have hdays := of_require hdays
    have hhour := of_require hhour
    have hminute := of_require hminute
    have hsecond := of_require hsecond
    simp only [Bool.and_eq_true, decide_eq_true_eq] at hmonths hdays hhour hminute hsecond
    have hyears := field_bounds hyear (show _ ≤ 4 by simp)
    have hhours := field_bounds hhours (show _ ≤ 2 by simp)
    have hminutes := field_bounds hminutes (show _ ≤ 2 by simp)
    have hseconds := field_bounds hseconds (show _ ≤ 2 by simp)
    rw [show tenPow 4 = 10000 from rfl] at hyears
    have hrest : IsAscii rest := fun c hc => h c (by simp [hc])
    have hdate : Date.Valid ⟨year, month, day⟩ := ⟨hmonths.1, hmonths.2, hdays⟩
    exact refines_afterTime _ hrest hdate (by dsimp only; omega) ⟨hhours.1, hhour⟩ ⟨hminutes.1, hminute⟩
      ⟨hseconds.1, hsecond⟩
  · rw [parse_of_not_hasForm hform, if_neg (by simpa using hform)]
    exact .bind_error (.ofExcept _)

/-- Every other text is refused before its bytes are read, as it is when its characters are read. -/
theorem refines_parseInBytes (text : List Char) : Refines (parseInBytes text) (parse text) := by
  have hguard : ((bytes text).length < 19 || !(bytes text).all (· < 128)) = true ↔
      ¬(IsAscii text ∧ 19 ≤ text.length) := by
    rw [Bool.or_eq_true, decide_eq_true_eq, Bool.not_eq_true', ← Bool.not_eq_true, all_bytes_lt_iff, not_and_or,
      or_comm]
    refine or_congr_right' fun hascii => ?_
    rw [length_bytes_of_isAscii (not_not.1 hascii), Nat.not_le]
  unfold parseInBytes
  by_cases h : IsAscii text ∧ 19 ≤ text.length
  · rw [if_neg fun hrefused => hguard.1 hrefused h]
    exact refines_readInBytes h.1 h.2
  · rw [if_pos (hguard.2 h), parse_of_not_isAscii h]
    exact .ofExcept _

/-- **The grammar of date and time texts.**  Reading a text in bytes and words never ends without an answer, and the
answer is that of reading its characters.  It is a point in time exactly if the text is that of a date and time which
is this point, and no point that is read is further than a day from the years of four digits. -/
theorem parseInBytes_spec (text : String) :
    (parseInBytes text.toList).run = some (parse text.toList) ∧
      ∀ m, ((parseInBytes text.toList).run = some (.ok m) ↔
          ∃ t : DateTime, t.chars = text.toList ∧ t.millis = m) ∧
        ((parseInBytes text.toList).run = some (.ok m) →
          firstMillis - 86400000 ≤ m ∧ m ≤ lastMillis + 86400000) := by
  have hrun : (parseInBytes text.toList).run = some (parse text.toList) := refines_parseInBytes text.toList
  refine ⟨hrun, fun m => ?_⟩
  rw [hrun, Option.some.injEq]
  refine ⟨parse_eq_ok_iff text.toList m, fun h => ?_⟩
  obtain ⟨t, -, rfl⟩ := exists_dateTime_of_parse h
  exact t.millis_bounds

/-- Noon of a leap day in local time, with a fraction of four digits. -/
def leapDay : DateTime where
  year := ⟨[2, 0, 2, 4], rfl⟩
  month := ⟨[0, 2], rfl⟩
  day := ⟨[2, 9], rfl⟩
  separator := ' '
  hours := ⟨[1, 2], rfl⟩
  minutes := ⟨[0, 0], rfl⟩
  seconds := ⟨[0, 0], rfl⟩
  fraction := some ⟨[1, 2, 3, 9], by decide⟩
  zone := .offset '+' (.inl rfl) ⟨[0, 5], rfl⟩ ⟨[3, 0], rfl⟩ (by decide) (by decide)
  isSeparator := .inr (.inr rfl)
  isDate := ⟨by decide, 29, rfl, by decide, by decide⟩
  hours_le := by decide
  minutes_le := by decide
  seconds_le := by decide

/-- The theorem on the text of a leap day, which is read, and on that of the same day in a year that does not have it,
which is the text of no date and time. -/
theorem parseInBytes_leapDay :
    (leapDay.chars = "2024-02-29 12:00:00.1239+05:30".toList ∧ leapDay.millis = 1709188200123 ∧
      (parseInBytes "2024-02-29 12:00:00.1239+05:30".toList).run = some (.ok 1709188200123)) ∧
      ¬∃ t : DateTime, t.chars = "2023-02-29 12:00:00.1239+05:30".toList := by
  have hchars : leapDay.chars = "2024-02-29 12:00:00.1239+05:30".toList := by decide
  have hmillis : leapDay.millis = 1709188200123 := by decide +kernel
  have hread := ((parseInBytes_spec "2024-02-29 12:00:00.1239+05:30").2 1709188200123).1.2
    ⟨leapDay, hchars, hmillis⟩
  refine ⟨⟨hchars, hmillis, hread⟩, ?_⟩
  rintro ⟨t, ht⟩
  obtain ⟨hrun, hiff⟩ := parseInBytes_spec "2023-02-29 12:00:00.1239+05:30"
  have haccepted := (hiff t.millis).1.2 ⟨t, ht, rfl⟩
  have hrefused : parse "2023-02-29 12:00:00.1239+05:30".toList =
      .error (.part .day "2023-02-29 12:00:00.1239+05:30") := by decide +kernel
  rw [hrun, hrefused] at haccepted
  cases haccepted

/-- Without the look at all bytes a character across the end of the seconds would leave the reading without an
answer. -/
example : (readInBytes "2024-02-29T12:00:0é".toList).run = none ∧
    (parseInBytes "2024-02-29T12:00:0é".toList).run = some (.error (.form "2024-02-29T12:00:0é")) := by
  decide +kernel

end PropertyGraph.Rfc3339
