import PropertyGraph.Proofs.Binary.Rounding
import PropertyGraph.Proofs.Timestamp
import PropertyGraph.Shape

/-!
# Values of a known shape

A value that has a shape is read back from its text with that shape.  Its text says of an integer only what number
it is, of a timestamp only its milliseconds or its date and time, and of a null item nothing more, so this depends
on the shape.  The key facts: a value of a shape has a tree and so a text (`Holds.exists_tree`), what the text is
read as is brought back to the value without a warning (`Holds.apply_raw`), and so the value is read back
(`Registry.fromTextShape_toText`).
-/

namespace PropertyGraph

open Json Json.Reader

/-! ### Integers through doubles -/

namespace Binary

/-- An integer that is a double and within the bounds comes back from the double. -/
theorem clamped_ofInt {n low high : Int} (hn : n.natAbs ≤ 9007199254740992) (hlow : low ≤ n) (hhigh : n ≤ high) :
    (ofInt n : Binary64).clamped low high = n := by
  obtain ⟨x, hx, hmagnitude, hnegative⟩ := ofInt_eq_finite hn
  rw [hx, clamped, Finite.truncated_eq hmagnitude hnegative]
  omega

theorem exceeds_ofInt {n : Int} {bound : Nat} (hn : n.natAbs ≤ bound) (hbound : bound ≤ 9007199254740992) :
    (ofInt n : Binary64).exceeds bound = false := by
  obtain ⟨x, hx, hmagnitude, -⟩ := ofInt_eq_finite (Nat.le_trans hn hbound)
  rw [hx, exceeds, hmagnitude, decide_eq_false_iff_not, Nat.not_lt]
  exact Nat.mul_le_mul_right _ hn

end Binary

namespace PropertyValue

theorem doubtful?_float64 (x : Binary64) :
    (float64 x).doubtful? .int64 = if x.exceeds maxSafeInteger then some x else none := rfl

/-- An integer of 8 bits is written as one of 64 bits. -/
theorem toInt_wide8 (n : Int8) : (Int64.ofInt n.toInt).toInt = n.toInt := by
  have hlow : -128 ≤ n.toInt := n.le_toInt
  have hhigh : n.toInt < 128 := n.toInt_lt
  exact Int64.toInt_ofInt_of_le (by omega) (by omega)

theorem toInt_wide32 (n : Int32) : (Int64.ofInt n.toInt).toInt = n.toInt := by
  have hlow : -2147483648 ≤ n.toInt := n.le_toInt
  have hhigh : n.toInt < 2147483648 := n.toInt_lt
  exact Int64.toInt_ofInt_of_le (by omega) (by omega)

theorem narrow_ofInt8 (n : Int8) : (float64 (.ofInt n.toInt)).narrow .int8 = int8 n := by
  have hlow : -128 ≤ n.toInt := n.le_toInt
  have hhigh : n.toInt < 128 := n.toInt_lt
  have hclamped : (Binary.ofInt n.toInt : Binary64).clamped (-2147483648) 2147483647 = n.toInt :=
    Binary.clamped_ofInt (by omega) (by omega) (by omega)
  show int8 (.ofInt ((Binary.ofInt n.toInt : Binary64).clamped (-2147483648) 2147483647)) = int8 n
  rw [hclamped, Int8.ofInt_toInt]

theorem narrow_ofInt32 (n : Int32) : (float64 (.ofInt n.toInt)).narrow .int32 = int32 n := by
  have hlow : -2147483648 ≤ n.toInt := n.le_toInt
  have hhigh : n.toInt < 2147483648 := n.toInt_lt
  have hclamped : (Binary.ofInt n.toInt : Binary64).clamped (-2147483648) 2147483647 = n.toInt :=
    Binary.clamped_ofInt (by omega) hlow (by omega)
  show int32 (.ofInt ((Binary.ofInt n.toInt : Binary64).clamped (-2147483648) 2147483647)) = int32 n
  rw [hclamped, Int32.ofInt_toInt]

/-- An integer of 64 bits comes back from its nearest double if it is a double itself. -/
theorem narrow_ofInt64 {n : Int64} (h : n.toInt.natAbs ≤ 9007199254740992) :
    (float64 (.ofInt n.toInt)).narrow .int64 = int64 n := by
  have hlow : -9223372036854775808 ≤ n.toInt := n.le_toInt
  have hhigh : n.toInt < 9223372036854775808 := n.toInt_lt
  have hclamped : (Binary.ofInt n.toInt : Binary64).clamped (-9223372036854775808) 9223372036854775807 = n.toInt :=
    Binary.clamped_ofInt h hlow (by omega)
  show int64 (.ofInt ((Binary.ofInt n.toInt : Binary64).clamped (-9223372036854775808) 9223372036854775807)) = int64 n
  rw [hclamped, Int64.ofInt_toInt]

end PropertyValue

namespace Shape

variable {r : Registry}

/-! ### Values of a shape -/

mutual

/-- A value has a shape under a registry.  An integer of 64 bits has to be safe as a double, and a timestamp has
to have a written form. -/
inductive Holds (r : Registry) : Shape → PropertyValue → Prop
  | int8 (n : Int8) : Holds r (number .int8) (.int8 n)
  | int32 (n : Int32) : Holds r (number .int32) (.int32 n)
  | int64 {n : Int64} (safe : n.toInt.natAbs ≤ maxSafeInteger) : Holds r (number .int64) (.int64 n)
  | timestamp {t : Timestamp} (writable : r.timestamps = .rfc3339 → Rfc3339.isWritable t.millis.toInt = true) :
      Holds r timestamp (.timestamp t)
  | text (s : String) : Holds r text (.text s)
  | bool (b : Bool) : Holds r bool (.bool b)
  | id (i : Identifier) : Holds r id (.id i)
  | list {inner : Shape} {items : List PropertyValue} (each : HoldsEach r inner items) :
      Holds r (list inner) (.list items)

/-- The items of a list have a shape or are null. -/
inductive HoldsEach (r : Registry) : Shape → List PropertyValue → Prop
  | nil (inner : Shape) : HoldsEach r inner []
  | null {inner : Shape} {items : List PropertyValue} (rest : HoldsEach r inner items) :
      HoldsEach r inner (.nested .null :: items)
  | cons {inner : Shape} {v : PropertyValue} {items : List PropertyValue} (first : Holds r inner v)
      (rest : HoldsEach r inner items) : HoldsEach r inner (v :: items)

end

/-! ### Writing -/

mutual

theorem Holds.exists_tree {s : Shape} {v : PropertyValue} (h : Holds r s v) : ∃ t, v.tree? r = some t := by
  cases h with
  | timestamp hwritable =>
    rename_i t
    cases hformat : r.timestamps with
    | epochMillis => exact ⟨_, by rw [PropertyValue.tree?, hformat]; rfl⟩
    | rfc3339 =>
      refine ⟨.leaf (.string (String.ofList (Rfc3339.format t.millis.toInt))), ?_⟩
      rw [PropertyValue.tree?, hformat, Timestamp.leaf?, if_pos (hwritable hformat)]
      rfl
  | list each =>
    obtain ⟨ts, hts⟩ := each.exists_trees
    exact ⟨.array ts, by rw [PropertyValue.tree?, hts]; rfl⟩
  | _ => exact ⟨_, rfl⟩

theorem HoldsEach.exists_trees {inner : Shape} {items : List PropertyValue} (h : HoldsEach r inner items) :
    ∃ ts, PropertyValue.trees? r items = some ts := by
  cases h with
  | nil => exact ⟨[], rfl⟩
  | null rest =>
    obtain ⟨ts, hts⟩ := rest.exists_trees
    exact ⟨.leaf (.json .null) :: ts, by rw [PropertyValue.trees?, hts]; rfl⟩
  | cons first rest =>
    obtain ⟨t, ht⟩ := first.exists_tree
    obtain ⟨ts, hts⟩ := rest.exists_trees
    exact ⟨t :: ts, by rw [PropertyValue.trees?, ht, hts]; rfl⟩

end

/-! ### Reading -/

theorem narrow_eq_pure (policy : PrecisionPolicy) {v : PropertyValue} {kind : NumberKind}
    (h : v.doubtful? kind = none) : narrow policy v kind = pure (v.narrow kind) := by
  unfold narrow
  rw [h]

/-- An integer is what its double is narrowed to, if no digits may have been lost. -/
private theorem apply_number {kind : NumberKind} {n : Int64} {v : PropertyValue}
    (hdoubtful : (PropertyValue.float64 (.ofInt n.toInt)).doubtful? kind = none)
    (hnarrow : (PropertyValue.float64 (.ofInt n.toInt)).narrow kind = v) :
    apply r (number kind) (.ofInt64 n) = pure (some v) := by
  rw [ofInt64, apply, Number.toBinary, narrow_eq_pure r.precision hdoubtful, hnarrow]
  rfl

theorem apply_int8 (n : Int8) : apply r (number .int8) (.ofInt64 (.ofInt n.toInt)) = pure (some (.int8 n)) := by
  refine apply_number rfl ?_
  rw [PropertyValue.toInt_wide8]
  exact PropertyValue.narrow_ofInt8 n

theorem apply_int32 (n : Int32) : apply r (number .int32) (.ofInt64 (.ofInt n.toInt)) = pure (some (.int32 n)) := by
  refine apply_number rfl ?_
  rw [PropertyValue.toInt_wide32]
  exact PropertyValue.narrow_ofInt32 n

theorem apply_int64 {n : Int64} (hsafe : n.toInt.natAbs ≤ maxSafeInteger) :
    apply r (number .int64) (.ofInt64 n) = pure (some (.int64 n)) := by
  have hdoubtful : (PropertyValue.float64 (.ofInt n.toInt)).doubtful? .int64 = none := by
    rw [PropertyValue.doubtful?_float64, Binary.exceeds_ofInt hsafe (by decide), if_neg Bool.false_ne_true]
  exact apply_number hdoubtful (PropertyValue.narrow_ofInt64 (Nat.le_trans hsafe (by decide)))

/-- What is read as a timestamp is no null value. -/
theorem apply_of_ofJson {t : Timestamp} {j : Json} (h : Timestamp.ofJson r.timestamps j = .ok t) :
    apply r timestamp j = pure (some (.timestamp t)) := by
  cases j with
  | null => cases hformat : r.timestamps <;> rw [hformat] at h <;> cases h
  | _ =>
    rw [apply, h]
    · rfl
    · intro hnull
      cases hnull

theorem apply_timestamp {t : Timestamp}
    (hwritable : r.timestamps = .rfc3339 → Rfc3339.isWritable t.millis.toInt = true) :
    apply r timestamp (t.raw r.timestamps) = pure (some (.timestamp t)) :=
  apply_of_ofJson (Timestamp.ofJson_raw hwritable)

theorem apply_id (i : Identifier) : apply r id i.toJson = pure (some (.id i)) := by
  cases i with
  | numeric n =>
    have hwhole : numericId (.integer n.toInt ⟨n.le_toInt, Int.lt_trans n.toInt_lt (by decide)⟩) = .ok n := by
      unfold numericId
      rw [Number.int64?_toInt]
    rw [Identifier.toJson, ofInt64, apply, hwhole]
    rfl
  | textual s => rfl

mutual

/-- A value of a shape is brought back from what its text is read as, without a warning. -/
theorem Holds.apply_raw (hplain : r.identifiers = .plain) {s : Shape} {v : PropertyValue} (h : Holds r s v) :
    apply r s (v.raw r) = pure (some v) := by
  cases h with
  | int8 n => exact apply_int8 n
  | int32 n => exact apply_int32 n
  | int64 hsafe => exact apply_int64 hsafe
  | timestamp hwritable => exact apply_timestamp hwritable
  | text s => rfl
  | bool b => rfl
  | id i =>
    rw [PropertyValue.raw, hplain]
    exact apply_id i
  | list each =>
    obtain ⟨values, hvalues, hitems⟩ := each.mapM_apply_raw hplain
    rw [PropertyValue.raw, apply, hvalues, pure_bind, hitems]

/-- Null items are no values on their own, and stand for themselves again in the list. -/
theorem HoldsEach.mapM_apply_raw (hplain : r.identifiers = .plain) {inner : Shape} {items : List PropertyValue}
    (h : HoldsEach r inner items) :
    ∃ values, (PropertyValue.rawItems r items).mapM (apply r inner) = pure values ∧
      values.map (·.getD (.nested .null)) = items := by
  cases h with
  | nil => exact ⟨[], rfl, rfl⟩
  | null rest =>
    obtain ⟨values, hvalues, hitems⟩ := rest.mapM_apply_raw hplain
    refine ⟨none :: values, ?_, by rw [List.map_cons, hitems]; rfl⟩
    rw [PropertyValue.rawItems, List.mapM_cons, hvalues]
    exact congrArg (· >>= _) (apply_null r inner)
  | cons first rest =>
    obtain ⟨values, hvalues, hitems⟩ := rest.mapM_apply_raw hplain
    refine ⟨some _ :: values, ?_, by rw [List.map_cons, hitems]; rfl⟩
    rw [PropertyValue.rawItems, List.mapM_cons, first.apply_raw hplain, hvalues]
    rfl

end

end Shape

namespace Registry

/-- **Round trip of a value of a shape.**  Under a registry with plain identifiers a value of a shape has a text,
and the text, if it is not too long and does not nest too deep, is read back with the shape as the value, without
a warning. -/
theorem fromTextShape_toText {r : Registry} (hplain : r.identifiers = .plain) {s : Shape} {v : PropertyValue}
    (h : s.Holds r v) :
    ∃ text, r.toText v = .ok text ∧
      (text.utf8ByteSize ≤ r.maxTextLength → nesting text.toList ≤ maxDepth →
        r.fromTextShape s text = (.ok (some v), [])) := by
  obtain ⟨t, ht⟩ := h.exists_tree
  refine ⟨String.ofList t.compact, toText_value_eq_ok_iff.2 ⟨t, ht, rfl⟩, fun hlength hnesting => ?_⟩
  rw [String.toList_ofList, t.spells_compact.balanced.nesting_eq] at hnesting
  have happly : (s.apply r (v.raw r)).run [] = (.ok (some v), []) := by
    rw [h.apply_raw hplain]
    rfl
  rw [fromTextShape, fromText_toText s.name ht hlength hnesting]
  dsimp only
  rw [happly]

/-- A list of the first timestamp that has a date and of nothing. -/
def sampleTimes : PropertyValue := .list [.timestamp ⟨.ofInt Rfc3339.firstMillis⟩, .nested .null]

/-- The theorem on this list and a registry that writes timestamps as dates and times. -/
theorem fromTextShape_first :
    ∃ text, toText { timestamps := .rfc3339 } sampleTimes = .ok text ∧
      fromTextShape { timestamps := .rfc3339 } (.list .timestamp) text = (.ok (some sampleTimes), []) := by
  have hmillis : (Int64.ofInt Rfc3339.firstMillis).toInt = Rfc3339.firstMillis := by decide
  have hholds : (Shape.list .timestamp).Holds { timestamps := .rfc3339 } sampleTimes :=
    .list (.cons (.timestamp fun _ => by rw [hmillis]; decide) (.null (.nil .timestamp)))
  obtain ⟨text, htext, hread⟩ := fromTextShape_toText rfl hholds
  let tree : JsonTree := .array [.leaf (.string "0000-01-01T00:00:00Z"), .leaf (.json .null)]
  have hleaf : Timestamp.leaf? .rfc3339 ⟨.ofInt Rfc3339.firstMillis⟩ = some (.string "0000-01-01T00:00:00Z") := by
    rw [Timestamp.leaf?, hmillis, if_pos (by decide), Rfc3339.format_first, String.ofList_toList]
  have htree : sampleTimes.tree? { timestamps := .rfc3339 } = some tree := by
    rw [sampleTimes, PropertyValue.tree?, PropertyValue.trees?, PropertyValue.tree?, hleaf]
    rfl
  have hcompact : toText { timestamps := .rfc3339 } sampleTimes = .ok (String.ofList tree.compact) :=
    toText_value_eq_ok_iff.2 ⟨tree, htree, rfl⟩
  obtain rfl := Except.ok.inj (htext.symm.trans hcompact)
  refine ⟨_, htext, hread (by decide +kernel) ?_⟩
  rw [String.toList_ofList, tree.spells_compact.balanced.nesting_eq]
  decide +kernel

end Registry

end PropertyGraph
