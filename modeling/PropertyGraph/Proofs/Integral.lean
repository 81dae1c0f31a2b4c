import PropertyGraph.Proofs.Binary.Nearest
import PropertyGraph.Proofs.Json.Typed
import PropertyGraph.Proofs.Narrowing

/-!
# Integral numbers

A number of a text is an integer or a double, and a double may be a whole number too.  A timestamp is taken from a
number that stands in a value and from one that is read with the type, and a numeric identifier from one in a value
again.  All three take a number exactly if its value is an integer of 64 bits, and then that integer
(`ReadsWhole`): a fraction and an integer out of range are two different errors.  So a text is read as a timestamp,
as a list of timestamps or as a timestamp that may be null just where it is read with the shape
(`Registry.fromText_timestamps_iff_shape`).
-/

namespace PropertyGraph

open BinaryFormat Json Json.Reader

/-! ### The exact value of a number -/

/-- The value of a number is an integer. -/
def Json.Number.IsExactly : Json.Number → Int → Prop
  | .integer m _, i => m = i
  | .double x, i => x.signed = i * binary64.one

namespace Finite

variable {F : BinaryFormat}

theorem isIntegral_iff (x : Finite F) : x.isIntegral = true ↔ ∃ i : Int, x.signed = i * F.one := by
  have hdvd : x.isIntegral = true ↔ (F.one : Int) ∣ x.magnitude := by
    rw [isIntegral, beq_iff_eq, Int.natCast_dvd_natCast, Nat.dvd_iff_mod_eq_zero]
  rw [hdvd, signed]
  by_cases hneg : x.negative = true
  · rw [if_pos hneg]
    constructor
    · rintro ⟨i, hi⟩
      exact ⟨-i, by rw [hi]; ring⟩
    · rintro ⟨i, hi⟩
      exact ⟨-i, by linarith⟩
  · rw [if_neg hneg]
    constructor
    · rintro ⟨i, hi⟩
      exact ⟨i, by rw [hi]; ring⟩
    · rintro ⟨i, hi⟩
      exact ⟨i, by rw [hi]; ring⟩

end Finite

/-- The integer that a number is, if it is one. -/
def Json.Number.whole? : Json.Number → Option Int
  | .integer m _ => some m
  | .double x => if x.isIntegral then some x.truncated else none

theorem Json.Number.isExactly_iff {n : Json.Number} {i : Int} : n.IsExactly i ↔ n.whole? = some i := by
  cases n with
  | integer m hfits => exact Option.some_inj.symm
  | double x =>
    rw [whole?]
    constructor
    · intro h
      rw [if_pos (x.isIntegral_iff.2 ⟨i, h⟩), Finite.truncated_of_signed h]
    · intro h
      obtain ⟨hwhole, htruncated⟩ := Option.ite_none_right_eq_some.1 h
      obtain ⟨k, hk⟩ := x.isIntegral_iff.1 hwhole
      rw [Finite.truncated_of_signed hk] at htruncated
      obtain rfl := Option.some.inj htruncated
      exact hk

theorem Timestamp.fits_iff {i : Int} : fits i = true ↔ -2 ^ 63 ≤ i ∧ i < 2 ^ 63 := by
  rw [fits, Bool.and_eq_true, decide_eq_true_eq, decide_eq_true_eq]
  rfl

/-- The integers of 64 bits are those between their bounds. -/
theorem exists_int64_iff {i : Int} : (∃ n : Int64, n.toInt = i) ↔ -2 ^ 63 ≤ i ∧ i < 2 ^ 63 := by
  constructor
  · rintro ⟨n, rfl⟩
    exact ⟨n.le_toInt, n.toInt_lt⟩
  · rintro ⟨hlow, hhigh⟩
    exact ⟨.ofInt i, Int64.toInt_ofInt_of_le hlow (by omega)⟩

/-! ### Readers of integral numbers -/

variable {α : Type}

/-- A reader takes a number if its value is an integer of 64 bits, and gives what is made of that integer.  Any other
integer is out of range, and a number that is no integer is not integral. -/
structure ReadsWhole (read : Number → Except FormatError α) (make : Int64 → α) (target : RangeTarget) : Prop where
  accepts : ∀ n a, read n = .ok a ↔ ∃ i : Int64, n.IsExactly i.toInt ∧ a = make i
  far : ∀ n i, n.IsExactly i → ¬(-2 ^ 63 ≤ i ∧ i < 2 ^ 63) → ∃ text, read n = .error (.outOfRange text target)
  fraction : ∀ n, (∀ i, ¬n.IsExactly i) → read n = .error (.notIntegral n.toBinary)

/-- A reader that asks for the integer that a number is, and then for its range. -/
private theorem readsWhole_of_whole? {read : Number → Except FormatError α} {make : Int64 → α} {target : RangeTarget}
    (text : Number → String)
    (h : ∀ n, read n = match n.whole? with
      | none => .error (.notIntegral n.toBinary)
      | some i =>
        if Timestamp.fits i then .ok (make (.ofInt i)) else .error (.outOfRange (text n) target)) :
    ReadsWhole read make target := by
  refine ⟨fun n a => ?_, fun n i hi hfar => ?_, fun n hnone => ?_⟩
  · rw [h]
    constructor
    · intro hread
      split at hread
      · cases hread
      · rename_i i hi
        split at hread
        · rename_i hfits
          obtain ⟨k, rfl⟩ := exists_int64_iff.2 (Timestamp.fits_iff.1 hfits)
          rw [Int64.ofInt_toInt] at hread
          exact ⟨k, Number.isExactly_iff.2 hi, (Except.ok.inj hread).symm⟩
        · cases hread
    · rintro ⟨k, hk, rfl⟩
      have hfits : Timestamp.fits k.toInt = true := Timestamp.fits_iff.2 (exists_int64_iff.1 ⟨k, rfl⟩)
      rw [Number.isExactly_iff.1 hk]
      dsimp only
      rw [if_pos hfits, Int64.ofInt_toInt]
  · refine ⟨text n, ?_⟩
    rw [h, Number.isExactly_iff.1 hi]
    exact if_neg (mt Timestamp.fits_iff.1 hfar)
  · have hnothing : n.whole? = none :=
      Option.eq_none_iff_forall_ne_some.2 fun i hi => hnone i (Number.isExactly_iff.2 hi)
    rw [h, hnothing]

/-- A reader that tests integers for their range, and doubles for a fraction and then for their range. -/
private theorem readsWhole_of_tests {read : Number → Except FormatError α} {make : Int64 → α} {target : RangeTarget}
    (text : Number → String)
    (hinteger : ∀ m hfits, read (.integer m hfits) =
      if m < 9223372036854775808 then .ok (make (.ofInt m))
      else .error (.outOfRange (text (.integer m hfits)) target))
    (hdouble : ∀ x, read (.double x) =
      if !x.isIntegral then .error (.notIntegral (.finite x))
      else if Timestamp.fits x.truncated then .ok (make (.ofInt x.truncated))
      else .error (.outOfRange (text (.double x)) target)) :
    ReadsWhole read make target := by
  refine readsWhole_of_whole? text fun n => ?_
  cases n with
  | integer m hfits =>
    rw [hinteger, Number.whole?]
    by_cases hm : m < 9223372036854775808
    · exact (if_pos hm).trans (if_pos (Timestamp.fits_iff.2 ⟨hfits.1, hm⟩)).symm
    · exact (if_neg hm).trans (if_neg fun h => hm (Timestamp.fits_iff.1 h).2).symm
  | double x =>
    rw [hdouble, Number.whole?]
    cases x.isIntegral <;> rfl

namespace Timestamp

private theorem ofNumber_integer (m : Int) (hfits : -9223372036854775808 ≤ m ∧ m < 18446744073709551616) :
    ofNumber (.integer m hfits) = if m < 9223372036854775808 then .ok ⟨.ofInt m⟩
      else .error (.outOfRange (Number.integer m hfits).text .timestamp) := by
  have hsigned : (Number.integer m hfits).int64? = if m < 9223372036854775808 then some (.ofInt m) else none := rfl
  unfold ofNumber
  rw [hsigned]
  by_cases hm : m < 9223372036854775808
  · rw [if_pos hm, if_pos hm]
  · rw [if_neg hm, if_neg hm]

/-- The integers of a text are told apart by their sign and those in a value by their range, to the same effect. -/
theorem ofRead_eq_ofNumber (n : Number) : ofRead n = ofNumber n := by
  cases n with
  | double x => rfl
  | integer m hfits =>
    rw [ofNumber_integer, ofRead]
    by_cases hneg : m < 0
    · have hm : m < 9223372036854775808 := by omega
      rw [if_pos hneg, if_pos hm]
    · rw [if_neg hneg]
      rfl

/-- How an error shows a number that is out of range. -/
def rangeText : Number → String
  | .integer m hfits => (Number.integer m hfits).text
  | .double x => Layout.plain.text (.finite x)

theorem readsWhole_ofNumber : ReadsWhole ofNumber Timestamp.mk .timestamp :=
  readsWhole_of_tests rangeText ofNumber_integer fun _ => rfl

end Timestamp

/-- The first integer that a signed word has no room for is a double, so no larger one is rounded below it. -/
private theorem le_truncated_ofInt {m : Int} {x : Finite64} (hm : 2 ^ 63 ≤ m) (hx : Binary.ofInt m = .finite x) :
    2 ^ 63 ≤ x.truncated := by
  obtain ⟨hnegative, hordinal⟩ := Binary.eq_of_ofOrdinal hx
  have hkept : binary64.units (binary64.natOrdinal (2 ^ 63)) = 2 ^ 63 * binary64.one ∧
      binary64.natOrdinal (2 ^ 63) ≤ binary64.infinity := by
    decide +kernel
  have hle : binary64.natOrdinal (2 ^ 63) ≤ binary64.natOrdinal m.natAbs := by
    refine le_ordinalOf (by decide) hkept.2 ?_
    rw [hkept.1, Nat.mul_one]
    exact Nat.mul_le_mul_right _ (by omega)
  have hmagnitude : 2 ^ 63 * binary64.one ≤ x.magnitude := by
    rw [← hkept.1, Finite.magnitude, hordinal]
    exact units_le_units hle
  obtain ⟨i, hi⟩ := Binary.exists_signed_ofInt hx
  rw [Finite.truncated_of_signed hi]
  have hsigned : x.signed = x.magnitude := by
    rw [Finite.signed, hnegative, decide_eq_false (by omega)]
    rfl
  have hone : 0 < (binary64.one : Int) := Int.natCast_pos.2 binary64.one_pos
  have hproduct : 2 ^ 63 * (binary64.one : Int) ≤ i * binary64.one := by
    rw [← hi, hsigned]
    exact_mod_cast hmagnitude
  exact le_of_mul_le_mul_right hproduct hone

/-- An integer without a sign that has no room as an identifier has no room as a double either. -/
theorem Shape.readsWhole_numericId : ReadsWhole numericId (fun i => i) .numericId := by
  refine readsWhole_of_tests Number.text (fun m hfits => ?_) (fun x => rfl)
  unfold numericId
  by_cases hm : m < 9223372036854775808
  · rw [Number.int64?, if_pos hm, if_pos hm]
  · obtain ⟨x, hx⟩ := (Number.integer m hfits).exists_toBinary
    have hlarge : 2 ^ 63 ≤ x.truncated := le_truncated_ofInt (Int.not_lt.1 hm) hx
    have hwhole : x.isIntegral = true := x.isIntegral_iff.2 (Binary.exists_signed_ofInt hx)
    have hfar : Timestamp.fits x.truncated = false := by
      refine Bool.eq_false_iff.2 fun h => ?_
      have hbound := (Timestamp.fits_iff.1 h).2
      omega
    rw [Number.int64?, if_neg hm, if_neg hm, hx]
    dsimp only
    rw [hwhole, hfar]
    rfl

/-! ### Texts -/

namespace Shape

variable {r : Registry}

/-- A JSON value holds a timestamp: it is a number that one is taken from. -/
def HoldsTimestamp (j : Json) (t : Timestamp) : Prop := ∃ n, j = .number n ∧ Timestamp.ofRead n = .ok t

/-- With milliseconds alone a shape makes a timestamp of a number that one is taken from. -/
theorem ofJson_eq_ok_iff (hmillis : r.timestamps = .epochMillis) {j : Json} {t : Timestamp} :
    Timestamp.ofJson r.timestamps j = .ok t ↔ HoldsTimestamp j t := by
  rw [hmillis]
  constructor
  · intro h
    cases j with
    | number n => exact ⟨n, rfl, by rw [Timestamp.ofRead_eq_ofNumber]; exact h⟩
    | _ => cases h
  · rintro ⟨n, rfl, h⟩
    rw [Timestamp.ofRead_eq_ofNumber] at h
    exact h

theorem makes_timestamp_iff (hmillis : r.timestamps = .epochMillis) {j : Json} {o : Option Timestamp} :
    timestamp.Makes r j (o.map .timestamp) ↔
      (j = .null ∧ o = none) ∨ ∃ t, HoldsTimestamp j t ∧ o = some t := by
  constructor
  · intro h
    cases o with
    | none =>
      cases h
      exact .inl ⟨rfl, rfl⟩
    | some t =>
      cases h with
      | timestamp ht => exact .inr ⟨t, (ofJson_eq_ok_iff hmillis).1 ht, rfl⟩
  · rintro (⟨rfl, rfl⟩ | ⟨t, ht, rfl⟩)
    · exact .null _
    · exact .timestamp ((ofJson_eq_ok_iff hmillis).2 ht)

theorem makesEach_timestamp_iff (hmillis : r.timestamps = .epochMillis) {items : List Json} {ts : List Timestamp} :
    MakesEach r timestamp items (ts.map fun t => some (.timestamp t)) ↔ List.Forall₂ HoldsTimestamp items ts := by
  induction ts generalizing items with
  | nil =>
    constructor
    · intro h
      cases h
      exact .nil
    · intro h
      cases h
      exact .nil _
  | cons t ts ih =>
    constructor
    · intro h
      cases h with
      | cons first rest =>
        cases first with
        | timestamp ht => exact .cons ((ofJson_eq_ok_iff hmillis).1 ht) (ih.1 rest)
    · intro h
      cases h with
      | cons first rest => exact .cons (.timestamp ((ofJson_eq_ok_iff hmillis).2 first)) (ih.2 rest)

/-- A list that holds nothing but timestamps has no null item. -/
private theorem eq_map_of_getD_eq {values : List (Option PropertyValue)} {ts : List Timestamp}
    (h : values.map (·.getD (.nested .null)) = ts.map .timestamp) :
    values = ts.map fun t => some (.timestamp t) := by
  induction values generalizing ts with
  | nil =>
    cases ts with
    | nil => rfl
    | cons t ts => cases h
  | cons v values ih =>
    cases ts with
    | nil => cases h
    | cons t ts =>
      obtain ⟨hhead, htail⟩ := List.cons.inj h
      rw [List.map_cons, ih htail]
      cases v with
      | none => cases hhead
      | some v => exact congrArg (some · :: _) hhead

theorem makes_timestamps_iff (hmillis : r.timestamps = .epochMillis) {j : Json} {ts : List Timestamp} :
    (list timestamp).Makes r j (some (.list (ts.map .timestamp))) ↔
      ∃ items, j = .array items ∧ List.Forall₂ HoldsTimestamp items ts := by
  constructor
  · intro h
    generalize hv : some (PropertyValue.list (ts.map .timestamp)) = v at h
    cases h with
    | null => cases hv
    | list each =>
      have hvalues := eq_map_of_getD_eq (PropertyValue.list.inj (Option.some.inj hv)).symm
      rw [hvalues] at each
      exact ⟨_, rfl, (makesEach_timestamp_iff hmillis).1 each⟩
  · rintro ⟨items, rfl, hitems⟩
    have hmakes := Makes.list ((makesEach_timestamp_iff hmillis).2 hitems)
    rw [List.map_map] at hmakes
    exact hmakes

end Shape

namespace Registry

variable {r : Registry} {text : String}

/-- A text is read with a type if the value in it has the type. -/
theorem fromText_eq_ok_iff_of_agrees {read : Reader α} {holds : Json → α → Prop} (h : Agrees read maxDepth holds)
    (name : String) {a : α} :
    r.fromText ⟨name, read⟩ text = .ok a ↔ ∃ j, r.fromText Target.value text = .ok j ∧ holds j a := by
  rw [fromText_eq_ok_iff, h.ofText_eq_ok_iff]
  constructor
  · rintro ⟨hinput, j, hj, ha⟩
    exact ⟨j, fromText_eq_ok_iff.2 ⟨hinput, hj⟩, ha⟩
  · rintro ⟨j, hj, ha⟩
    obtain ⟨hinput, hj⟩ := fromText_eq_ok_iff.1 hj
    exact ⟨hinput, j, hj, ha⟩

/-- The error of a number that no timestamp can be taken from is told as a fault of the text. -/
theorem fromText_timestamp_error {n : Number} (h : r.fromText Target.value text = .ok (.number n)) {e : FormatError}
    (he : Timestamp.ofRead n = .error e) :
    ∃ unread, r.fromText Target.timestamp text =
      .error (.parse Target.timestamp.name (Fault.message ⟨.value (.format e), some unread⟩ text.toList)) := by
  obtain ⟨⟨hblank, hlength⟩, hread⟩ := fromText_eq_ok_iff.1 h
  obtain ⟨rest, hrun, -⟩ := ofText_eq_ok_iff.1 hread
  have htimestamp := run_timestamp_of_number (run_value_number_iff.1 hrun) maxDepth
  rw [he] at htimestamp
  refine ⟨byteLength rest, ?_⟩
  rw [fromText_eq_read r Target.timestamp hblank hlength, ofText,
    show Target.timestamp.read text.toList = _ from htimestamp]

theorem fromText_optionalTimestamp_iff (hmillis : r.timestamps = .epochMillis) {o : Option Timestamp} :
    r.fromText Target.optionalTimestamp text = .ok o ↔
      (r.fromTextShape .timestamp text).1 = .ok (o.map .timestamp) := by
  have hagrees := (agrees_timestamp maxDepth maxDepth).optional (by rintro t ⟨n, hn, -⟩; cases hn)
  refine (fromText_eq_ok_iff_of_agrees hagrees Target.optionalTimestamp.name).trans ?_
  rw [fromTextShape_eq_ok_iff]
  exact exists_congr fun j => and_congr_right fun _ => (Shape.makes_timestamp_iff hmillis).symm

theorem fromText_timestamps_iff (hmillis : r.timestamps = .epochMillis) {ts : List Timestamp} :
    r.fromText Target.timestamps text = .ok ts ↔
      (r.fromTextShape (.list .timestamp) text).1 = .ok (some (.list (ts.map .timestamp))) := by
  have hagrees : Agrees (list Reader.timestamp maxDepth) maxDepth fun j ts =>
      ∃ items, j = .array items ∧ List.Forall₂ Shape.HoldsTimestamp items ts :=
    Agrees.list (agrees_timestamp 126 126)
  refine (fromText_eq_ok_iff_of_agrees hagrees Target.timestamps.name).trans ?_
  rw [fromTextShape_eq_ok_iff]
  exact exists_congr fun j => and_congr_right fun _ => (Shape.makes_timestamps_iff hmillis).symm

/-- **The readers of integral numbers agree and are exact.**  A timestamp in a value, a timestamp that is read with
its type and a numeric identifier are taken from a number exactly if its value is an integer of 64 bits, and are that
integer; other integers are out of range and other numbers not integral.  The reader of the type finds the same error
as the one of values, and its text is refused for that error.  So under a registry that writes timestamps as
milliseconds a text is read as a timestamp that may be null with the type if and only if it is with the shape, and as
a list of timestamps if and only if the shape makes that list of it, without a null item. -/
theorem fromText_timestamps_iff_shape (hmillis : r.timestamps = .epochMillis) (text : String) :
    ReadsWhole (fun n => Timestamp.ofJson r.timestamps (.number n)) Timestamp.mk .timestamp ∧
      ReadsWhole Timestamp.ofRead Timestamp.mk .timestamp ∧
      ReadsWhole Shape.numericId (fun i => i) .numericId ∧
      (∀ n, Timestamp.ofRead n = Timestamp.ofJson r.timestamps (.number n)) ∧
      (∀ n e, r.fromText Target.value text = .ok (.number n) → Timestamp.ofRead n = .error e →
        ∃ unread, r.fromText Target.timestamp text =
          .error (.parse Target.timestamp.name (Fault.message ⟨.value (.format e), some unread⟩ text.toList))) ∧
      (∀ o, r.fromText Target.optionalTimestamp text = .ok o ↔
        (r.fromTextShape .timestamp text).1 = .ok (o.map .timestamp)) ∧
      ∀ ts, r.fromText Target.timestamps text = .ok ts ↔
        (r.fromTextShape (.list .timestamp) text).1 = .ok (some (.list (ts.map .timestamp))) := by
  have hread : Timestamp.ofRead = Timestamp.ofNumber := funext Timestamp.ofRead_eq_ofNumber
  have hvalue : (fun n => Timestamp.ofJson r.timestamps (.number n)) = Timestamp.ofNumber := by
    rw [hmillis]
    rfl
  refine ⟨?_, ?_, Shape.readsWhole_numericId, fun n => ?_, fun n e h he => fromText_timestamp_error h he,
    fun o => fromText_optionalTimestamp_iff hmillis, fun ts => fromText_timestamps_iff hmillis⟩
  · rw [hvalue]
    exact Timestamp.readsWhole_ofNumber
  · rw [hread]
    exact Timestamp.readsWhole_ofNumber
  · rw [hread]
    exact (congrFun hvalue n).symm

/-- The theorem on a list of a whole number with an exponent and of a negative integer. -/
theorem fromTextShape_wholeTimestamps :
    fromText {} Target.timestamps "[1e3,-2]" = .ok [⟨1000⟩, ⟨-2⟩] ∧
      (fromTextShape {} (.list .timestamp) "[1e3,-2]").1 =
        .ok (some (.list [.timestamp ⟨1000⟩, .timestamp ⟨-2⟩])) := by
  have hread : (fromText {} Target.timestamps "[1e3,-2]").toOption = some [⟨1000⟩, ⟨-2⟩] := by decide +kernel
  have htyped : fromText {} Target.timestamps "[1e3,-2]" = .ok [⟨1000⟩, ⟨-2⟩] := ok_of_toOption hread
  obtain ⟨-, -, -, -, -, -, hlist⟩ := fromText_timestamps_iff_shape (r := {}) rfl "[1e3,-2]"
  exact ⟨htyped, (hlist [⟨1000⟩, ⟨-2⟩]).1 htyped⟩

end Registry

end PropertyGraph
