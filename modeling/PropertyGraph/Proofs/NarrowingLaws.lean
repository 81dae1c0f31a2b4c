import PropertyGraph.Proofs.Binary.Exact
import PropertyGraph.Proofs.Shape

/-!
# Narrowing more than once

A number of a kind is kept when it is narrowed to that kind (`PropertyValue.narrow_of_numberKind?`), so narrowing
twice to one kind is narrowing once.  Through an integer of 32 bits a number becomes the same byte as without it, and
through a double an integer of at most 32 bits becomes the same number of any kind (`Widened.narrow_float64_narrow`).
-/

namespace PropertyGraph

open BinaryFormat

/-! ### Integers cut to fewer bits -/

/-- Cutting to 32 bits leaves the lowest eight alone. -/
theorem ofInt8_toInt_ofInt32 (n : Int) : Int8.ofInt (Int32.ofInt n).toInt = Int8.ofInt n := by
  refine Int8.toInt_inj.1 ?_
  rw [Int8.toInt_ofInt, Int8.toInt_ofInt, Int32.toInt_ofInt]
  exact Int.bmod_bmod_of_dvd (by decide)

/-! ### Integers through doubles -/

namespace Binary

/-- An integer that is a double is rounded to another format as the double is. -/
theorem convert_ofInt {n : Int} (hn : n.natAbs ≤ 9007199254740992) (G : BinaryFormat) :
    (ofInt n : Binary64).convert G = ofInt n := by
  obtain ⟨x, hx, hmagnitude, hnegative⟩ := ofInt_eq_finite hn
  have hquot : x.magnitude * G.one = n.natAbs * G.one * binary64.one := by
    rw [hmagnitude]
    ring
  have hsame : G.ordinalOf (n.natAbs * G.one * binary64.one) (1 * binary64.one) = G.ordinalOf (n.natAbs * G.one) 1 :=
    ordinalOf_mul_right binary64.one_pos
  rw [Nat.one_mul] at hsame
  rw [hx, convert, hquot, hsame, hnegative]
  rfl

end Binary

/-- An integer of at most 32 bits becomes the same number of a kind through a double as without one. -/
theorem Widened.narrow_float64_narrow {n : Int64} (hlow : -2147483648 ≤ n.toInt) (hhigh : n.toInt ≤ 2147483647)
    (kind : NumberKind) : ((int n).narrow .float64).narrow kind = (int n).narrow kind := by
  have hclamped (low high : Int) (hlow : low ≤ n.toInt) (hhigh : n.toInt ≤ high) :
      (Binary.ofInt n.toInt : Binary64).clamped low high = n.toInt :=
    Binary.clamped_ofInt (by omega) hlow hhigh
  cases kind with
  | int8 => exact congrArg (fun m => PropertyValue.int8 (.ofInt m)) (hclamped _ _ hlow hhigh)
  | int32 => exact congrArg (fun m => PropertyValue.int32 (.ofInt m)) (hclamped _ _ hlow hhigh)
  | int64 =>
    refine (congrArg (fun m => PropertyValue.int64 (.ofInt m)) (hclamped _ _ (by omega) (by omega))).trans ?_
    rw [Int64.ofInt_toInt]
    rfl
  | float32 => exact congrArg PropertyValue.float32 (Binary.convert_ofInt (by omega) _)
  | float64 => rfl

namespace PropertyValue

/-- A number is kept when it is narrowed to the kind that it has. -/
theorem narrow_of_numberKind? {v : PropertyValue} {kind : NumberKind} (h : v.numberKind? = some kind) :
    v.narrow kind = v := by
  cases v with
  | int8 n =>
    obtain rfl := Option.some.inj h
    show int8 (.ofInt (Int64.ofInt n.toInt).toInt) = int8 n
    rw [toInt_wide8, Int8.ofInt_toInt]
  | int32 n =>
    obtain rfl := Option.some.inj h
    show int32 (.ofInt (Int64.ofInt n.toInt).toInt) = int32 n
    rw [toInt_wide32, Int32.ofInt_toInt]
  | int64 n =>
    obtain rfl := Option.some.inj h
    rfl
  | float32 x =>
    obtain rfl := Option.some.inj h
    exact congrArg float32 (Binary.convert_convert binary64_widens x)
  | float64 x =>
    obtain rfl := Option.some.inj h
    rfl
  | _ => cases h

theorem narrow_narrow (v : PropertyValue) (kind : NumberKind) : (v.narrow kind).narrow kind = v.narrow kind := by
  cases hv : v.isNumber with
  | true => exact narrow_of_numberKind? (numberKind?_narrow hv kind)
  | false => rw [narrow_of_not_isNumber hv, narrow_of_not_isNumber hv]

/-- A number becomes the same byte through an integer of 32 bits as without one. -/
theorem narrow_int32_narrow_int8 (v : PropertyValue) : (v.narrow .int32).narrow .int8 = v.narrow .int8 := by
  have hbyte (n : Int) : (int32 (.ofInt n)).narrow .int8 = int8 (.ofInt n) := by
    show int8 (.ofInt (Int64.ofInt (Int32.ofInt n).toInt).toInt) = int8 (.ofInt n)
    rw [toInt_wide32, ofInt8_toInt_ofInt32]
  unfold narrow
  cases hv : v.widened? with
  | none =>
    dsimp only
    rw [hv]
  | some n => cases n with
    | int i => exact hbyte i.toInt
    | float x => exact hbyte (x.clamped (-2147483648) 2147483647)

theorem narrow_float64_int8 (n : Int8) (kind : NumberKind) :
    ((int8 n).narrow .float64).narrow kind = (int8 n).narrow kind := by
  have hlow : -128 ≤ n.toInt := n.le_toInt
  have hhigh : n.toInt < 128 := n.toInt_lt
  have hwide := toInt_wide8 n
  exact Widened.narrow_float64_narrow (by omega) (by omega) kind

theorem narrow_float64_int32 (n : Int32) (kind : NumberKind) :
    ((int32 n).narrow .float64).narrow kind = (int32 n).narrow kind := by
  have hlow : -2147483648 ≤ n.toInt := n.le_toInt
  have hhigh : n.toInt < 2147483648 := n.toInt_lt
  have hwide := toInt_wide32 n
  exact Widened.narrow_float64_narrow (by omega) (by omega) kind

/-- **The algebra of narrowing.**  Narrowing twice to a kind is narrowing once; what comes out has the kind if a number
went in, and is what went in otherwise; narrowing to 32 bits and then to a byte is narrowing to a byte; and so is
narrowing an integer of at most 32 bits to a double and then to a kind narrowing it to the kind. -/
theorem narrow_laws (v : PropertyValue) (kind : NumberKind) :
    (v.narrow kind).narrow kind = v.narrow kind ∧
      (v.narrow kind).numberKind? = (if v.isNumber then some kind else none) ∧
      (v.isNumber = true ∨ v.narrow kind = v) ∧
      (v.narrow .int32).narrow .int8 = v.narrow .int8 ∧
      (∀ n, ((int8 n).narrow .float64).narrow kind = (int8 n).narrow kind) ∧
      ∀ n, ((int32 n).narrow .float64).narrow kind = (int32 n).narrow kind := by
  refine ⟨v.narrow_narrow kind, ?_, ?_, v.narrow_int32_narrow_int8, fun n => narrow_float64_int8 n kind,
    fun n => narrow_float64_int32 n kind⟩
  · cases hv : v.isNumber with
    | true => exact numberKind?_narrow hv kind
    | false =>
      rw [narrow_of_not_isNumber hv]
      exact Option.isNone_iff_eq_none.1 (Option.isSome_eq_false_iff.1 hv)
  · cases hv : v.isNumber with
    | true => exact .inl rfl
    | false => exact .inr (narrow_of_not_isNumber hv kind)

end PropertyValue

end PropertyGraph
