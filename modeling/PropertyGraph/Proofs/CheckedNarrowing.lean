import PropertyGraph.Proofs.Binary.Exact
import PropertyGraph.Proofs.Shape

/-!
# Narrowing that refuses lost digits

A double is brought to an integer of 64 bits only if its magnitude is at most `2 ^ 53 - 1`, and this comparison with a
double tells the same as one of the integer that is left without the fraction (`Binary.exceeds_finite`).  So a finite
value is narrowed exactly if it stands for an integer, and to this integer.  A value that is no number passes the
comparison as well, and becomes zero (`PropertyValue.narrowExact_int64`).
-/

namespace PropertyGraph

open BinaryFormat

/-- A floating-point value stands for an integer: it is finite, the integer is what is left without its fraction, and
the magnitude of the integer is at most `2 ^ 53 - 1`. -/
def Binary.StandsFor {F : BinaryFormat} (x : Binary F) (n : Int) : Prop :=
  ∃ y, x = .finite y ∧ y.truncated = n ∧ n.natAbs ≤ maxSafeInteger

/-! ### The bound -/

theorem Finite.natAbs_truncated {F : BinaryFormat} (x : Finite F) : x.truncated.natAbs = x.magnitude / F.one := by
  have hsigned : x.signed.natAbs = x.magnitude := by
    unfold signed
    split
    · rw [Int.natAbs_neg, Int.natAbs_natCast]
    · rw [Int.natAbs_natCast]
  rw [truncated, Int.natAbs_tdiv, hsigned, Int.natAbs_natCast]
  rfl

/-- No value is between an integer and the next one, where the format has both and no magnitude between them. -/
theorem BinaryFormat.le_units_of_lt {F : BinaryFormat} (hF : F.HoldsWholeSteps) {n k : Nat} (hn : n + 1 ≤ 2 * F.binade)
    (hnext : F.natOrdinal (n + 1) = F.natOrdinal n + 1) (h : n * F.one < F.units k) : (n + 1) * F.one ≤ F.units k := by
  obtain ⟨hlast, -⟩ := units_natOrdinal hF (Nat.le_of_succ_le hn)
  obtain ⟨hfirst, -⟩ := units_natOrdinal hF hn
  have hbehind : F.natOrdinal n < k := by
    by_contra hle
    have hbelow := units_le_units (F := F) (Nat.le_of_not_lt hle)
    rw [hlast] at hbelow
    exact Nat.not_lt_of_le hbelow h
  rw [← hfirst, hnext]
  exact units_le_units hbehind

/-- Whether a value is above such an integer is seen from what is left of it without its fraction. -/
theorem Binary.exceeds_finite {F : BinaryFormat} (hF : F.HoldsWholeSteps) {n : Nat} (hn : n + 1 ≤ 2 * F.binade)
    (hnext : F.natOrdinal (n + 1) = F.natOrdinal n + 1) (x : Finite F) :
    (finite x).exceeds n = true ↔ n < x.truncated.natAbs := by
  rw [x.natAbs_truncated, exceeds, decide_eq_true_eq]
  constructor
  · intro h
    exact (Nat.le_div_iff_mul_le F.one_pos).2 (le_units_of_lt hF hn hnext h)
  · intro h
    have hwhole := (Nat.le_div_iff_mul_le F.one_pos).1 h
    exact Nat.lt_of_lt_of_le (Nat.mul_lt_mul_of_pos_right (Nat.lt_succ_self n) F.one_pos) hwhole

theorem Binary.exceeds_maxSafeInteger (x : Finite64) :
    (finite x).exceeds maxSafeInteger = true ↔ maxSafeInteger < x.truncated.natAbs :=
  exceeds_finite binary64_holdsWholeSteps (by decide) (by decide +kernel) x

/-- A value stands for the same integers in double precision as in single precision. -/
theorem Binary.standsFor_convert {x : Binary32} {n : Int} : (x.convert .binary64).StandsFor n ↔ x.StandsFor n := by
  cases x with
  | nan => exact ⟨fun ⟨_, h, _⟩ => (nomatch h), fun ⟨_, h, _⟩ => (nomatch h)⟩
  | infinite negative => exact ⟨fun ⟨_, h, _⟩ => (nomatch h), fun ⟨_, h, _⟩ => (nomatch h)⟩
  | finite x =>
    obtain ⟨y, hy, hsame⟩ := exists_convert binary64_widens x
    rw [hy]
    constructor
    · rintro ⟨z, hz, hz', hn⟩
      obtain rfl := Binary.finite.inj hz
      exact ⟨x, rfl, hsame.truncated_eq.symm.trans hz', hn⟩
    · rintro ⟨z, hz, hz', hn⟩
      obtain rfl := Binary.finite.inj hz
      exact ⟨y, rfl, hsame.truncated_eq.trans hz', hn⟩

namespace PropertyValue

/-- A floating-point number of either precision stands for an integer. -/
def StandsFor : PropertyValue → Int → Prop
  | float32 x, n => x.StandsFor n
  | float64 x, n => x.StandsFor n
  | _, _ => False

/-- Whether a value is of a floating-point kind and no number. -/
def isNaN : PropertyValue → Bool
  | float32 .nan => true
  | float64 .nan => true
  | _ => false

variable {v : PropertyValue} {x : Binary64}

theorem standsFor_iff (hx : v.widened? = some (.float x)) {n : Int} : v.StandsFor n ↔ x.StandsFor n := by
  cases v with
  | float32 y =>
    obtain rfl := Widened.float.inj (Option.some.inj hx)
    exact Binary.standsFor_convert.symm
  | float64 y =>
    obtain rfl := Widened.float.inj (Option.some.inj hx)
    exact Iff.rfl
  | _ => cases hx

theorem isNaN_iff (hx : v.widened? = some (.float x)) : v.isNaN = true ↔ x = .nan := by
  cases v with
  | float32 y =>
    obtain rfl := Widened.float.inj (Option.some.inj hx)
    cases y with
    | nan => exact iff_of_true rfl rfl
    | infinite negative => exact iff_of_false Bool.false_ne_true nofun
    | finite y =>
      obtain ⟨z, hz, -⟩ := Binary.exists_convert binary64_widens y
      rw [hz]
      exact iff_of_false Bool.false_ne_true nofun
  | float64 y =>
    obtain rfl := Widened.float.inj (Option.some.inj hx)
    cases y with
    | nan => exact iff_of_true rfl rfl
    | infinite negative => exact iff_of_false Bool.false_ne_true nofun
    | finite y => exact iff_of_false Bool.false_ne_true nofun
  | _ => cases hx

theorem narrowExact_of_widened (hx : v.widened? = some (.float x)) :
    v.narrowExact .int64 = if x.exceeds maxSafeInteger then .error (.precisionLoss x .int64)
      else .ok (int64 (.ofInt (x.clamped (-9223372036854775808) 9223372036854775807))) := by
  have hdoubtful : v.doubtful? .int64 = if x.exceeds maxSafeInteger then some x else none := by
    rw [doubtful?, hx]
    rfl
  rw [narrowExact, hdoubtful, narrow, hx]
  by_cases hlarge : x.exceeds maxSafeInteger = true
  · rw [if_pos hlarge, if_pos hlarge]
  · rw [if_neg hlarge, if_neg hlarge]
    rfl

/-- **Narrowing to 64 bits unless digits may have been lost.**  A floating-point number is narrowed to an integer of 64
bits if and only if it stands for the integer, or it is no number and the integer is zero.  Every other one is refused,
with the number as a double in the error. -/
theorem narrowExact_int64 (hx : v.widened? = some (.float x)) :
    (∀ n : Int64, v.narrowExact .int64 = .ok (int64 n) ↔ v.StandsFor n.toInt ∨ v.isNaN = true ∧ n = 0) ∧
      ((∃ n, v.narrowExact .int64 = .ok (int64 n)) ∨ v.narrowExact .int64 = .error (.precisionLoss x .int64)) := by
  have hresult := narrowExact_of_widened hx
  constructor
  · intro n
    rw [standsFor_iff hx, isNaN_iff hx, hresult]
    cases x with
    | nan =>
      constructor
      · intro h
        exact .inr ⟨rfl, (int64.inj (Except.ok.inj h)).symm⟩
      · rintro (⟨y, hy, -⟩ | ⟨-, rfl⟩)
        · cases hy
        · rfl
    | infinite negative =>
      constructor
      · intro h
        cases h
      · rintro (⟨y, hy, -⟩ | ⟨hnan, -⟩)
        · cases hy
        · cases hnan
    | finite y =>
      by_cases hlarge : maxSafeInteger < y.truncated.natAbs
      · rw [if_pos ((Binary.exceeds_maxSafeInteger y).2 hlarge)]
        constructor
        · intro h
          cases h
        · rintro (⟨z, hz, htruncated, hsafe⟩ | ⟨hnan, -⟩)
          · obtain rfl := Binary.finite.inj hz
            omega
          · cases hnan
      · rw [if_neg (mt (Binary.exceeds_maxSafeInteger y).1 hlarge)]
        have hbound : y.truncated.natAbs ≤ 9007199254740991 := Nat.le_of_not_lt hlarge
        have hclamped : (Binary.finite y).clamped (-9223372036854775808) 9223372036854775807 = y.truncated := by
          rw [Binary.clamped]
          omega
        rw [hclamped]
        constructor
        · intro h
          obtain rfl := int64.inj (Except.ok.inj h)
          have hexact : (Int64.ofInt y.truncated).toInt = y.truncated :=
            Int64.toInt_ofInt_of_le (by omega) (by omega)
          exact .inl ⟨y, rfl, hexact.symm, by rw [hexact]; exact hbound⟩
        · rintro (⟨z, hz, htruncated, -⟩ | ⟨hnan, -⟩)
          · obtain rfl := Binary.finite.inj hz
            rw [htruncated, Int64.ofInt_toInt]
          · cases hnan
  · rw [hresult]
    split
    · exact .inr rfl
    · exact .inl ⟨_, rfl⟩

theorem narrowExact_one_and_a_half :
    (float64 (.finite ⟨false, 0x3ff8000000000000, by decide⟩)).narrowExact .int64 = .ok (int64 1) :=
  ((narrowExact_int64 rfl).1 1).2 (.inl ⟨_, rfl, by decide +kernel, by decide⟩)

/-- What is no number stands for no integer, and is not refused. -/
theorem narrowExact_nan :
    (float64 .nan).narrowExact .int64 = .ok (int64 0) ∧ ∀ n, ¬ (float64 .nan).StandsFor n :=
  ⟨rfl, fun _ ⟨_, h, _⟩ => nomatch h⟩

end PropertyValue

end PropertyGraph
