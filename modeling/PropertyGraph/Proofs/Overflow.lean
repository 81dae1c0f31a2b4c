import PropertyGraph.Proofs.Faults
import PropertyGraph.Proofs.Narrowing

/-!
# Numbers that are too large for single precision

A value that was read with a shape can be written again unless a number became infinite on the way.  Every number
of a text is a finite double (`Json.Number.exists_toBinary`), so this happens in one place only, where a double is
brought to single precision: from the middle between the largest magnitude of single precision and the next power
of two on it is rounded to infinity, and below it is not (`Binary.convert_single_of_le`,
`Binary.isFinite_convert_single`).  So the faults in what a shape makes of a value are known
(`Shape.Makes.error?_eq`), and with them whether the value can be written (`Registry.toText_of_fromTextShape`).
-/

namespace PropertyGraph

open BinaryFormat

/-! ### Rounding to single precision -/

/-- The middle between the largest magnitude in single precision and the next power of two. -/
def singleLimit : Nat := twoPow 128 - twoPow 103

/-- The infinity that single precision has for a number, if the number is too large for it. -/
def Json.Number.overflow? (n : Json.Number) : Option Binary64 :=
  match n.toBinary with
  | .finite x => if singleLimit * binary64.one ≤ x.magnitude then some (.infinite x.negative) else none
  | x => some x

private theorem binary32_top : twoPow binary32.exponentBits = 253 + 3 := by decide

private theorem single_limit_iff (magnitude : Nat) :
    (4 * binary32.binade - 1) * (binary64.one * twoPow 253) ≤ 2 * (magnitude * binary32.one) ↔
      singleLimit * binary64.one ≤ magnitude := by
  have hlimit : singleLimit = (4 * binary32.binade - 1) * twoPow 103 := by decide
  have hone : 2 * binary32.one = twoPow 150 := by decide
  have hpow : twoPow 253 = twoPow 150 * twoPow 103 := by rw [← twoPow_add]
  have hleft : (4 * binary32.binade - 1) * (binary64.one * twoPow 253) =
      singleLimit * binary64.one * twoPow 150 := by
    rw [hlimit, hpow]
    ring
  have hright : 2 * (magnitude * binary32.one) = magnitude * twoPow 150 := by
    rw [← hone]
    ring
  rw [hleft, hright, Nat.mul_le_mul_right_iff (twoPow_pos _)]

/-- A double is rounded to infinity in single precision from a limit on. -/
theorem Binary.convert_single_of_le {x : Finite64} (h : singleLimit * binary64.one ≤ x.magnitude) :
    (Binary.finite x).convert .binary32 = .infinite x.negative := by
  have hinfinity := ordinalOf_eq_infinity binary32_top binary64.one_pos ((single_limit_iff x.magnitude).2 h)
  rw [convert, ofOrdinal, hinfinity, dif_neg (Nat.lt_irrefl _)]

theorem Binary.isFinite_convert_single {x : Finite64} (h : ¬ singleLimit * binary64.one ≤ x.magnitude) :
    ((Binary.finite x).convert .binary32).isFinite = true := by
  have hfinite := ordinalOf_lt_infinity binary32_top binary64.one_pos
    (Nat.lt_of_not_le (mt (single_limit_iff x.magnitude).1 h))
  rw [convert, ofOrdinal, dif_pos hfinite]
  rfl

/-! ### Faults in what was read -/

namespace PropertyValue

mutual

/-- A value of which nothing was known has no fault. -/
theorem error?_ofJson (r : Registry) (j : Json) : ((ofJson? j).getD (nested .null)).error? r = none := by
  cases j with
  | number n =>
    obtain ⟨x, hx⟩ := n.exists_toBinary
    rw [ofJson?, hx]
    rfl
  | array items => exact errorOf?_ofItems r items
  | _ => rfl

theorem errorOf?_ofItems (r : Registry) (items : List Json) : errorOf? r (ofItems items) = none := by
  cases items with
  | nil => rfl
  | cons j items => rw [ofItems, errorOf?_cons, error?_ofJson r j, errorOf?_ofItems r items, Option.or_none]

end

/-- Of the kinds of numbers only single precision has a fault for a number of a text. -/
theorem error?_narrow (r : Registry) (n : Json.Number) (kind : NumberKind) :
    ((float64 n.toBinary).narrow kind).error? r =
      if kind = .float32 then n.overflow?.map .nonFiniteFloat else none := by
  obtain ⟨x, hx⟩ := n.exists_toBinary
  rw [Json.Number.overflow?, hx]
  cases kind with
  | float32 =>
    have hnarrow : (float64 (.finite x)).narrow .float32 = float32 ((Binary.finite x).convert .binary32) := rfl
    rw [hnarrow, if_pos rfl, error?_of_isList rfl]
    dsimp only
    by_cases hlarge : singleLimit * binary64.one ≤ x.magnitude
    · rw [if_pos hlarge, Binary.convert_single_of_le hlarge]
      rfl
    · rw [if_neg hlarge, fault?, if_pos (Binary.isFinite_convert_single hlarge)]
      rfl
  | _ => rfl

end PropertyValue

namespace Shape

/-- The numbers that a shape takes as values in single precision, from left to right. -/
def singles : Shape → Json → List Json.Number
  | number .float32, .number n => [n]
  | list inner, .array items => items.flatMap (singles inner)
  | _, _ => []

/-- The error of the first number that a shape brings to single precision although it is too large. -/
def overflow? (s : Shape) (j : Json) : Option EncodeError :=
  ((s.singles j).findSome? Json.Number.overflow?).map .nonFiniteFloat

variable {r : Registry}

mutual

/-- What a shape makes of a JSON value has a fault exactly if a number was too large for single precision. -/
theorem Makes.error?_eq (hmillis : r.timestamps = .epochMillis) {s : Shape} {j : Json} {v : Option PropertyValue}
    (h : Makes r s j v) : (v.getD (.nested .null)).error? r = s.overflow? j := by
  cases h with
  | null s => cases s with
    | number kind => cases kind <;> rfl
    | _ => rfl
  | any j => exact PropertyValue.error?_ofJson r j
  | number hsafe =>
    rename_i kind n
    refine (PropertyValue.error?_narrow r n kind).trans ?_
    cases kind with
    | float32 => simp [overflow?, singles]
    | _ => rfl
  | timestamp ht =>
    rename_i t
    have hfault : (PropertyValue.timestamp t).error? r = none := by
      rw [PropertyValue.error?_of_isList rfl, PropertyValue.fault?, if_neg]
      simp [hmillis]
    exact hfault
  | list each => exact each.errorOf?_eq hmillis
  | _ => rfl

/-- The first item with a fault decides, and the numbers of the items come one after the other. -/
theorem MakesEach.errorOf?_eq (hmillis : r.timestamps = .epochMillis) {inner : Shape} {items : List Json}
    {values : List (Option PropertyValue)} (h : MakesEach r inner items values) :
    PropertyValue.errorOf? r (values.map (·.getD (.nested .null))) = (list inner).overflow? (.array items) := by
  cases h with
  | nil => rfl
  | cons first rest =>
    rw [List.map_cons, PropertyValue.errorOf?_cons, first.error?_eq hmillis, rest.errorOf?_eq hmillis, overflow?,
      overflow?, overflow?, singles, singles, List.flatMap_cons, List.findSome?_append, Option.map_or]

end

theorem ensures_apply (hmillis : r.timestamps = .epochMillis) (s : Shape) (j : Json) :
    Ensures (s.apply r j) fun v => (v.getD (.nested .null)).error? r = s.overflow? j :=
  fun log after v hrun => (s.ensures_makes r j log after v hrun).error?_eq hmillis

end Shape

namespace Registry

/-- **What was read with a shape can be written, unless it overflowed.**  Under a registry that writes timestamps as
milliseconds, a value that a text was read as with a shape can be written if and only if none of the numbers that
the shape brings to single precision is too large for it.  Otherwise the error is for the infinity that the first of
them became. -/
theorem toText_of_fromTextShape {r : Registry} (hmillis : r.timestamps = .epochMillis) {s : Shape} {text : String}
    {v : PropertyValue} (h : (r.fromTextShape s text).1 = .ok (some v)) :
    ∃ j, r.fromText ⟨s.name, Json.Reader.value Json.maxDepth⟩ text = .ok j ∧
      ((∃ written, r.toText v = .ok written) ↔ ∀ n ∈ s.singles j, n.overflow? = none) ∧
      ∀ e, r.toText v = .error e ↔
        ∃ before n after x, s.singles j = before ++ n :: after ∧ (∀ m ∈ before, m.overflow? = none) ∧
          n.overflow? = some x ∧ e = .nonFiniteFloat x := by
  cases hj : r.fromText ⟨s.name, Json.Reader.value Json.maxDepth⟩ text with
  | error e =>
    rw [fromTextShape_of_error hj] at h
    cases h
  | ok j =>
    have herror : v.error? r = s.overflow? j := by
      rw [fromTextShape_of_ok hj] at h
      rcases hrun : (s.apply r j).run [] with ⟨e | v', after⟩
      · rw [hrun] at h
        cases h
      · rw [hrun] at h
        obtain rfl : v' = some v := Except.ok.inj h
        exact s.ensures_apply hmillis j [] after _ hrun
    refine ⟨j, rfl, ?_, fun e => ?_⟩
    · rw [PropertyValue.exists_toText_iff, herror, Shape.overflow?, Option.map_eq_none_iff, List.findSome?_eq_none_iff]
    · rw [PropertyValue.toText_eq_error_iff, herror, Shape.overflow?, Option.map_eq_some_iff]
      constructor
      · rintro ⟨x, hx, rfl⟩
        obtain ⟨before, n, after, hsingles, hn, hbefore⟩ := List.findSome?_eq_some_iff.1 hx
        exact ⟨before, n, after, x, hsingles, hbefore, hn, rfl⟩
      · rintro ⟨before, n, after, x, hsingles, hbefore, hn, rfl⟩
        exact ⟨x, List.findSome?_eq_some_iff.2 ⟨before, n, after, hsingles, hn, hbefore⟩, rfl⟩

/-- The theorem on a list of a number that single precision still holds and of nothing. -/
theorem toText_of_fromTextShape_held : ∃ v,
    (fromTextShape {} (.list (.number .float32)) "[3e38,null]").1 = .ok (some v) ∧
      ∃ written, toText {} v = .ok written := by
  have hread : (fromTextShape {} (.list (.number .float32)) "[3e38,null]").1.toOption.join.isSome = true := by
    decide +kernel
  have hheld : (fromText {} ⟨"list<f32>", Json.Reader.value Json.maxDepth⟩ "[3e38,null]").toOption.all
      (fun j => ((Shape.list (.number .float32)).singles j).all (·.overflow?.isNone)) = true := by
    decide +kernel
  obtain ⟨v, hjoin⟩ := Option.isSome_iff_exists.1 hread
  have hv := eq_ok_of_toOption hjoin
  obtain ⟨j, hj, hwritten, -⟩ := toText_of_fromTextShape rfl hv
  rw [show fromText {} ⟨"list<f32>", _⟩ _ = .ok j from hj] at hheld
  refine ⟨v, hv, hwritten.2 fun n hn => ?_⟩
  exact Option.isNone_iff_eq_none.1 (List.all_eq_true.1 hheld n hn)

/-- A larger number is read as infinity, which has no written form. -/
theorem exists_fromTextShape_not_written : ∃ v, (fromTextShape {} (.number .float32) "1e39").1 = .ok (some v) ∧
    toText {} v = .error (.nonFiniteFloat (.infinite false)) := by
  have hread : (fromTextShape {} (.number .float32) "1e39").1.toOption.join.map (toText {}) =
      some (.error (.nonFiniteFloat (.infinite false))) := by
    decide +kernel
  obtain ⟨v, hv, herror⟩ := Option.map_eq_some_iff.1 hread
  exact ⟨v, eq_ok_of_toOption hv, herror⟩

end Registry

end PropertyGraph
