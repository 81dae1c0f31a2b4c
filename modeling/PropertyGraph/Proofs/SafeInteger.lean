import PropertyGraph.Proofs.Document
import PropertyGraph.Proofs.Json.Runs
import PropertyGraph.Proofs.Shape

/-!
# Integers of any length under a policy that refuses lost digits

The text of an integer may have any number of digits.  What is read from it is an integer of 64 bits, signed or not,
a double whose digits past a limit count as zeros, or nothing if it is too large for a double; and then it is
rounded to a double in any case.  None of these steps brings an integer above `2 ^ 53 - 1` back to the bound or
below it (`exceeds_of_run_number`), so the bound tells the integers that are kept from all others
(`Binary.exceeds_ofInt_iff`), and a registry that refuses lost digits returns the integer that was written or an error
(`Registry.fromTextShape_integer`).
-/

namespace PropertyGraph

open BinaryFormat Json Json.Reader

/-! ### Magnitudes above the bound -/

/-- A magnitude is above a whole number also if it has become infinite. -/
theorem Binary.exceeds_ofOrdinal (negative : Bool) {ordinal n : Nat}
    (h : n * binary64.one < binary64.units ordinal) :
    (ofOrdinal negative ordinal : Binary64).exceeds n = true := by
  unfold ofOrdinal
  by_cases hfinite : ordinal < binary64.infinity
  · rw [dif_pos hfinite]
    exact decide_eq_true h
  · rw [dif_neg hfinite]
    rfl

/-- A whole number above the bound is no double at or below it. -/
private theorem lt_units_natOrdinal {n : Nat} (h : maxSafeInteger < n) :
    maxSafeInteger * binary64.one < binary64.units (binary64.natOrdinal n) := by
  have hnext : (maxSafeInteger + 1) * binary64.one ≤ binary64.units (binary64.natOrdinal n) :=
    le_units_natOrdinal (by decide) h
  have hone := binary64.one_pos
  rw [Nat.add_mul, Nat.one_mul] at hnext
  omega

/-- The bound is the same for an integer and for its nearest double. -/
theorem Binary.exceeds_ofInt_iff (n : Int) :
    (ofInt n : Binary64).exceeds maxSafeInteger = true ↔ maxSafeInteger < n.natAbs := by
  constructor
  · intro h
    by_contra hle
    rw [exceeds_ofInt (Nat.le_of_not_lt hle) (by decide)] at h
    cases h
  · intro h
    exact exceeds_ofOrdinal _ (lt_units_natOrdinal h)

namespace Json.Reader

/-! ### What is read from many digits -/

theorem exceeds_of_double {negative : Bool} {significand exponent : Nat} (hlarge : maxSafeInteger < significand)
    {n : Number} {s rest : List Char} (h : (double negative significand exponent).run s = .ok n rest) :
    n.toBinary.exceeds maxSafeInteger = true := by
  have hpos : 0 < significand := by omega
  have hunits : maxSafeInteger * binary64.one < binary64.units (scaledOrdinal significand exponent) := by
    have hmore := units_le_units (F := binary64) (le_scaledOrdinal hpos exponent)
    have hwhole := lt_units_natOrdinal hlarge
    omega
  have hexceeds := Binary.exceeds_ofOrdinal negative hunits
  unfold double at h
  split at h
  · rename_i x hx
    rw [hx] at hexceeds
    cases h
    exact hexceeds
  · cases h

/-- Digits that make up more than the bound are read as a number above the bound, if they are read at all. -/
theorem exceeds_of_run_number {negative : Bool} {ds : List Char} (hds : IsWhole ds)
    (hlarge : maxSafeInteger < Decimal.value ds) {n : Number} {rest t : List Char} (hrest : Ends rest)
    (h : (number negative).run (ds ++ rest) = .ok n t) : n.toBinary.exceeds maxSafeInteger = true := by
  have habsorb : maxSafeInteger < (absorb significandLimit 0 ds).1 :=
    lt_absorb (by decide) hds.isDigit (by omega)
  rw [run_number hds negative hrest.noDigit] at h
  unfold afterInteger at h
  rcases absorb significandLimit 0 ds with ⟨m, left⟩
  dsimp only at h habsorb
  have hpoint : ¬rest.head? = some '.' := fun hc => (hrest _ hc).2.1 rfl
  have hletter : ¬(rest.head? = some 'e' ∨ rest.head? = some 'E') := by
    rintro (hc | hc)
    · exact (hrest _ hc).2.2.1 rfl
    · exact (hrest _ hc).2.2.2 rfl
  rw [run_bind_of_ok (run_peek _), if_neg hpoint, if_neg hletter] at h
  rcases of_dite h with ⟨hwhole, h⟩ | h
  · -- all digits were taken, and the number is kept as an integer
    cases h
    refine (Binary.exceeds_ofInt_iff _).2 ?_
    by_cases hneg : negative = true
    · rw [if_pos hneg]
      omega
    · rw [if_neg hneg]
      omega
  · exact exceeds_of_double habsorb h

/-- The text of an integer above the bound is read as a number above the bound, if it is read at all. -/
theorem exceeds_of_run_value {n : Int} (hlarge : maxSafeInteger < n.natAbs) {depth : Nat} {v : Json}
    {rest t : List Char} (hrest : Ends rest) (h : (value depth).run (Decimal.signed n ++ rest) = .ok v t) :
    ∃ m : Number, v = .number m ∧ m.toBinary.exceeds maxSafeInteger = true := by
  obtain ⟨found, u, hlead, -, hreads⟩ := readsAs_of_run h
  have hhead := head?_append_isDigit (head?_digits n.natAbs) rest
  rw [signed_eq, List.append_assoc, run_lead_number _ hhead] at hlead
  obtain ⟨m, hnumber, rfl⟩ := exists_of_map hlead
  cases hreads
  have hvalue : maxSafeInteger < Decimal.value (Decimal.digits n.natAbs) := by
    rw [Decimal.value_digits]
    exact hlarge
  exact ⟨m, rfl, exceeds_of_run_number (isWhole_digits n.natAbs) hvalue hrest hnumber⟩

end Json.Reader

/-! ### Refusing lost digits -/

/-- A number above the bound is refused. -/
theorem Shape.run_apply_of_exceeds {r : Registry} (hpolicy : r.precision = .reject) {n : Number}
    (h : n.toBinary.exceeds maxSafeInteger = true) (log : List Warning) :
    ((number .int64).apply r (.number n)).run log = (.error (.precisionLoss n.toBinary .int64), log) := by
  have hdoubtful : (PropertyValue.float64 n.toBinary).doubtful? .int64 = some n.toBinary := by
    rw [PropertyValue.doubtful?_float64, if_pos h]
  rw [apply, hpolicy]
  unfold narrow
  rw [hdoubtful]
  rfl

namespace Registry

/-- The text of an integer, without a sign unless it is negative. -/
def integerText (n : Int) : String := String.ofList (Decimal.signed n)

variable {r : Registry}

theorem fromTextShape_integer_of_le {n : Int} (hlength : (integerText n).utf8ByteSize ≤ r.maxTextLength)
    (h : n.natAbs ≤ maxSafeInteger) :
    ∃ m : Int64, m.toInt = n ∧
      r.fromTextShape (.number .int64) (integerText n) = (.ok (some (.int64 m)), []) := by
  have hbound : n.natAbs ≤ 9007199254740991 := h
  obtain ⟨m, rfl⟩ : ∃ m : Int64, m.toInt = n := ⟨.ofInt n, Int64.toInt_ofInt_of_le (by omega) (by omega)⟩
  refine ⟨m, rfl, ?_⟩
  have hspells := spells_int64 m
  have hread : r.fromText ⟨(Shape.number .int64).name, value maxDepth⟩ (integerText m.toInt) =
      .ok (.ofInt64 m) :=
    fromText_of_reads hspells.starts hlength (hspells.reads maxDepth (Nat.zero_le _))
  rw [fromTextShape_of_ok hread, Shape.apply_int64 h]
  rfl

theorem fromTextShape_integer_of_lt (hpolicy : r.precision = .reject) {n : Int}
    (hlength : (integerText n).utf8ByteSize ≤ r.maxTextLength) (h : maxSafeInteger < n.natAbs) :
    ∃ e, r.fromTextShape (.number .int64) (integerText n) = (.error e, []) ∧
      ((∃ x, e = .format (.precisionLoss x .int64)) ∨ ∃ message, e = .parse NumberKind.int64.name message) := by
  have hblank : isBlankText (integerText n).toList = false := by
    rw [integerText, String.toList_ofList]
    exact (starts_integer n).not_isBlankText
  have hread := r.fromText_eq_read ⟨(Shape.number .int64).name, value maxDepth⟩ hblank hlength
  dsimp only at hread
  split at hread
  · rename_i v hv
    obtain ⟨t, hrun, -⟩ := ofText_eq_ok_iff.1 hv
    rw [integerText, String.toList_ofList, ← List.append_nil (Decimal.signed n)] at hrun
    obtain ⟨m, rfl, hexceeds⟩ := exceeds_of_run_value h ends_nil hrun
    refine ⟨.format (.precisionLoss m.toBinary .int64), ?_, .inl ⟨_, rfl⟩⟩
    rw [fromTextShape_of_ok hread, Shape.run_apply_of_exceeds hpolicy hexceeds]
    rfl
  · rename_i fault hfault
    exact ⟨_, fromTextShape_of_error hread, .inr ⟨_, rfl⟩⟩

/-- **Refusing lost digits keeps integers.**  A registry that refuses lost digits reads the text of an integer of any
length, if it is not too long, as that integer up to `2 ^ 53 - 1` on either side of zero.  Beyond it stops with an
error, because digits may have been lost or because the number is too large.  So it never returns an integer other
than the one that was written. -/
theorem fromTextShape_integer (hpolicy : r.precision = .reject) (n : Int)
    (hlength : (integerText n).utf8ByteSize ≤ r.maxTextLength) :
    (n.natAbs ≤ maxSafeInteger → ∃ m : Int64, m.toInt = n ∧
        r.fromTextShape (.number .int64) (integerText n) = (.ok (some (.int64 m)), [])) ∧
      (maxSafeInteger < n.natAbs → ∃ e, r.fromTextShape (.number .int64) (integerText n) = (.error e, []) ∧
        ((∃ x, e = .format (.precisionLoss x .int64)) ∨ ∃ message, e = .parse NumberKind.int64.name message)) ∧
      ∀ v, (r.fromTextShape (.number .int64) (integerText n)).1 = .ok v →
        ∃ m : Int64, m.toInt = n ∧ v = some (.int64 m) := by
  refine ⟨fromTextShape_integer_of_le hlength, fromTextShape_integer_of_lt hpolicy hlength, fun v hv => ?_⟩
  by_cases hsafe : n.natAbs ≤ maxSafeInteger
  · obtain ⟨m, hm, hread⟩ := fromTextShape_integer_of_le hlength hsafe
    rw [hread] at hv
    exact ⟨m, hm, (Except.ok.inj hv).symm⟩
  · obtain ⟨e, herror, -⟩ := fromTextShape_integer_of_lt hpolicy hlength (Nat.lt_of_not_le hsafe)
    rw [herror] at hv
    cases hv

/-- The theorem at the last integer that is kept and at the first one beyond. -/
theorem fromTextShape_integer_bound :
    (∃ m : Int64, m.toInt = 9007199254740991 ∧
        fromTextShape { precision := .reject } (.number .int64) "9007199254740991" =
          (.ok (some (.int64 m)), [])) ∧
      ∃ e, fromTextShape { precision := .reject } (.number .int64) "9007199254740992" = (.error e, []) := by
  have hlast : integerText 9007199254740991 = "9007199254740991" := by decide +kernel
  have hnext : integerText 9007199254740992 = "9007199254740992" := by decide +kernel
  constructor
  · have hkept := (fromTextShape_integer (r := { precision := .reject }) rfl 9007199254740991
      (by rw [hlast]; decide +kernel)).1 (by decide)
    rwa [hlast] at hkept
  · obtain ⟨e, herror, -⟩ := (fromTextShape_integer (r := { precision := .reject }) rfl 9007199254740992
      (by rw [hnext]; decide +kernel)).2.1 (by decide)
    rw [hnext] at herror
    exact ⟨e, herror⟩

end Registry

end PropertyGraph
