import PropertyGraph.Proofs.Binary.Nearest
import PropertyGraph.Proofs.Json.Scaling
import PropertyGraph.Proofs.Shape

/-!
# Doubles through their text

A double is written with the fewest digits that tell it from other doubles, and these digits are read with more than one
rounding.  So not every double comes back: what comes back has the sign of the double and is at most two places away from
it among the magnitudes, and is the double itself if neither the digits nor the power of ten behind them have to be
rounded (`Registry.fromTextShape_toText_float64`).  Two places away is where some do come back
(`Finite.reread_two_places`).  Of the largest safe integers some do not come back, since their text has a zero behind the
point that is one digit too many (`Registry.fromTextShape_toText_maxSafeInteger`).
-/

namespace PropertyGraph

open BinaryFormat Json Json.Reader Layout

/-! ### The double that comes back -/

/-- The decimal that the text of a double is read as, before anything is rounded. -/
def Finite.decimal (x : Finite64) : Nat × Int := json64.parts (binary64.shortest .even x.ordinal)

/-- Neither the significand nor the power of ten in the text of a double has to be rounded when it is read. -/
structure Finite.ReadsExactly (x : Finite64) : Prop where
  significand : ∃ y : Finite64, y.magnitude = x.decimal.1 * binary64.one
  exponent : x.decimal.2.natAbs ≤ 22

/-- A double is near another one: it has the same sign, and it is at most two places before or behind it. -/
structure Finite.IsNear (y x : Finite64) : Prop where
  negative_eq : y.negative = x.negative
  le : y.ordinal ≤ x.ordinal + 2
  ge : x.ordinal ≤ y.ordinal + 2

/-- The text of a double stands for a decimal between the middles to the neighbours of the double. -/
theorem Finite.decimalBetween {x : Finite64} (hpos : 0 < x.ordinal) :
    binary64.DecimalBetween x.ordinal x.decimal.1 x.decimal.2 := by
  have hbetween := decimalBetween_shortest (F := binary64) (by decide) .even hpos
  unfold decimal parts
  split
  · rename_i hwhole
    rw [decimalBetween_mul_tenPow]
    have hlast : (-1 : Int) + ((binary64.shortest .even x.ordinal).exponent + 2 -
        (binary64.shortest .even x.ordinal).digits.length).toNat = (binary64.shortest .even x.ordinal).lastExponent := by
      have hlength := hwhole.2
      unfold Significant.lastExponent
      omega
    rwa [hlast]
  · exact hbetween

theorem Finite.scaledOrdinal_zero {x : Finite64} (hzero : x.ordinal = 0) :
    scaledOrdinal x.decimal.1 x.decimal.2 = 0 := by
  rw [decimal, hzero]
  decide +kernel

/-- What the text of a double is read as. -/
theorem Finite.reread_near (x : Finite64) :
    ∃ y, json64.reread x = .finite y ∧ y.IsNear x ∧ (x.ReadsExactly → y = x) := by
  obtain ⟨y, hy⟩ := exists_reread_json64 x
  obtain ⟨hnegative, hordinal⟩ := Binary.eq_of_ofOrdinal (show Binary.ofOrdinal x.negative
    (scaledOrdinal x.decimal.1 x.decimal.2) = .finite y from hy)
  refine ⟨y, hy, ?_⟩
  rcases Nat.eq_zero_or_pos x.ordinal with hzero | hpos
  · have hsame : y.ordinal = x.ordinal := by rw [hordinal, scaledOrdinal_zero hzero, hzero]
    exact ⟨⟨hnegative, by omega, by omega⟩, fun _ => Finite.ext hnegative hsame⟩
  · have hbetween := decimalBetween hpos
    have hdigits : x.decimal.1 < tenPow 19 := parts_fst_lt isJson_json64 (readable_shortest .even x.ordinal)
    obtain ⟨hle, hge⟩ := near_scaledOrdinal hbetween hpos x.ordinal_lt
      ((Nat.le_of_lt hdigits).trans (tenPow_le_tenPow (by decide)))
    refine ⟨⟨hnegative, hordinal ▸ hle, hordinal ▸ hge⟩, fun hexact => Finite.ext hnegative ?_⟩
    obtain ⟨z, hz⟩ := hexact.significand
    have hkept : binary64.units (binary64.natOrdinal x.decimal.1) = x.decimal.1 * binary64.one := by
      rw [natOrdinal, ← hz, magnitude, ← Nat.mul_one (binary64.units z.ordinal),
        ordinalOf_units Nat.zero_lt_one (Nat.le_of_lt z.ordinal_lt), Nat.mul_one]
    rw [hordinal, scaledOrdinal_eq hbetween x.ordinal_lt hkept hexact.exponent]

/-- A double that is read two places behind itself. -/
theorem Finite.reread_two_places :
    json64.reread (F := binary64) ⟨false, 0x16cda791d8a50636, by decide⟩ =
      .finite ⟨false, 0x16cda791d8a50638, by decide⟩ := by
  decide +kernel

/-! ### The length of the text -/

namespace Layout

variable {s : Significant}

theorem length_positional_le (hlength : s.digits.length ≤ 17) (hpos : json64.isPositional s.exponent = true) :
    (positional true s).length ≤ 23 := by
  have hbounds : -5 ≤ s.exponent ∧ s.exponent ≤ 15 := by simpa [isPositional, json64] using hpos
  unfold positional
  split
  · simp only [List.length_cons, List.length_append, List.length_replicate]
    omega
  · dsimp only
    split
    · simp only [List.length_append, List.length_replicate, if_true, List.length_cons, List.length_nil]
      omega
    · simp only [List.length_append, List.length_cons, List.length_take, List.length_drop]
      omega

theorem length_scientific_le (hlength : s.digits.length ≤ 17) (hexponent : s.exponent.natAbs < tenPow 3) :
    (scientific true s).length ≤ 23 := by
  have hwritten := Decimal.length_digits_le hexponent (by decide)
  have hsign : ((if true && decide (0 ≤ s.exponent) then ['+'] else []) ++ Decimal.signed s.exponent).length ≤ 4 := by
    unfold Decimal.signed
    by_cases hneg : s.exponent < 0
    · rw [if_pos hneg, if_neg (by simp; omega)]
      simp only [List.nil_append, List.length_cons]
      omega
    · rw [if_neg hneg, if_pos (by simp; omega)]
      simp only [List.length_append, List.length_cons, List.length_nil]
      omega
  unfold scientific
  dsimp only
  rw [List.append_assoc, List.length_append, List.length_append, List.cons_append, List.length_cons]
  have hrest : (if (s.digits.drop 1).isEmpty then [] else '.' :: s.digits.drop 1).length ≤ 17 := by
    split
    · exact Nat.zero_le _
    · simp only [List.length_cons, List.length_drop]
      omega
  have hfirst : (s.digits.take 1).length ≤ 1 := List.length_take_le ..
  omega

theorem length_finite_le (x : Finite64) : (json64.finite x).length ≤ 24 := by
  have hspelled := (readable_shortest (F := binary64) .even x.ordinal).length_le
  have hexponent : (binary64.shortest .even x.ordinal).exponent.natAbs < tenPow 3 := by
    rcases Nat.eq_zero_or_pos x.ordinal with hzero | hpos
    · rw [hzero]
      decide
    · have hlast : binary64.units binary64.infinity ≤ tenPow 632 := by decide +kernel
      have hfar := natAbs_exponent_le (F := binary64) .even hpos (by decide +kernel)
        ((Nat.le_of_lt (units_lt_units x.ordinal_lt)).trans hlast)
      exact Nat.lt_of_le_of_lt hfar (by decide)
  have hsign : (if x.negative then ['-'] else []).length ≤ 1 := by
    split
    · exact Nat.le_refl _
    · exact Nat.zero_le _
  have hbody : (if json64.isPositional (binary64.shortest .even x.ordinal).exponent
      then positional true (binary64.shortest .even x.ordinal)
      else scientific true (binary64.shortest .even x.ordinal)).length ≤ 23 := by
    split
    · rename_i hpositional
      exact length_positional_le hspelled hpositional
    · exact length_scientific_le hspelled hexponent
  show ((if x.negative then ['-'] else []) ++ (if json64.isPositional (binary64.shortest .even x.ordinal).exponent
    then positional true (binary64.shortest .even x.ordinal)
    else scientific true (binary64.shortest .even x.ordinal))).length ≤ 24
  rw [List.length_append]
  omega

/-- Characters of numbers take up one byte each. -/
theorem utf8ByteSize_ofList {text : List Char} (h : ∀ c ∈ text, IsNumeric c) :
    (String.ofList text).utf8ByteSize = text.length := by
  induction text with
  | nil => rfl
  | cons c text ih =>
    have hrest := ih fun d hd => h d (List.mem_cons_of_mem _ hd)
    have hfirst := (h c (List.mem_cons_self ..)).utf8Size_eq
    rw [String.ofList_cons, String.utf8ByteSize_append, String.utf8ByteSize_singleton, hfirst, hrest, List.length_cons,
      Nat.add_comm]

end Layout

/-! ### Round trips -/

namespace Registry

variable {r : Registry}

theorem toText_float64 (x : Finite64) :
    r.toText (PropertyValue.float64 (.finite x)) = .ok (String.ofList (json64.finite x)) := by
  have htree : (PropertyValue.float64 (.finite x)).tree? r = some (.leaf (.float64 x)) := rfl
  refine toText_value_eq_ok_iff.2 ⟨_, htree, ?_⟩
  rw [JsonTree.compact]
  rfl

theorem fromTextShape_float64 (hlength : 24 ≤ r.maxTextLength) {x y : Finite64} (hy : json64.reread x = .finite y) :
    r.fromTextShape (.number .float64) (String.ofList (json64.finite x)) = (.ok (some (.float64 (.finite y))), []) := by
  have hspells := spells_double x
  have hsize : (String.ofList (json64.finite x)).utf8ByteSize ≤ r.maxTextLength := by
    rw [utf8ByteSize_ofList fun c hc => isNumeric_finite hc]
    exact (length_finite_le x).trans hlength
  have hread : r.fromText ⟨(Shape.number .float64).name, value maxDepth⟩ (String.ofList (json64.finite x)) =
      .ok (.ofBinary (json64.reread x)) :=
    fromText_of_reads hspells.starts hsize (hspells.reads maxDepth (Nat.zero_le _))
  rw [fromTextShape_of_ok hread, hy]
  rfl

/-- **Doubles come back near.**  Under any registry that takes texts of 24 characters a finite double is written, and read
back with a shape for doubles, as a double with the same sign that is at most two places away from it, and without a
warning.  It is the same double if neither the significand in its text nor the power of ten has to be rounded.  No
smaller bound holds, since some double comes back two places away. -/
theorem fromTextShape_toText_float64 (hlength : 24 ≤ r.maxTextLength) :
    (∀ x : Finite64, ∃ text y, r.toText (PropertyValue.float64 (.finite x)) = .ok text ∧
      r.fromTextShape (.number .float64) text = (.ok (some (.float64 (.finite y))), []) ∧
      y.IsNear x ∧ (x.ReadsExactly → y = x)) ∧
    ∃ (x : Finite64) (text : String) (y : Finite64), r.toText (PropertyValue.float64 (.finite x)) = .ok text ∧
      r.fromTextShape (.number .float64) text = (.ok (some (.float64 (.finite y))), []) ∧
      y.ordinal = x.ordinal + 2 := by
  constructor
  · intro x
    obtain ⟨y, hy, hnear, hexact⟩ := x.reread_near
    exact ⟨_, y, toText_float64 x, fromTextShape_float64 hlength hy, hnear, hexact⟩
  · exact ⟨_, _, _, toText_float64 _, fromTextShape_float64 hlength Finite.reread_two_places, rfl⟩

/-- The theorem at one and a half, which is read as fifteen tenths, and at the double that comes back two places away. -/
theorem fromTextShape_toText_one_and_a_half :
    (∃ text, toText {} (PropertyValue.float64 (.finite ⟨false, 0x3ff8000000000000, by decide⟩)) = .ok text ∧
      fromTextShape {} (.number .float64) text =
        (.ok (some (.float64 (.finite ⟨false, 0x3ff8000000000000, by decide⟩))), [])) ∧
    ∃ (x : Finite64) (text : String) (y : Finite64), toText {} (PropertyValue.float64 (.finite x)) = .ok text ∧
      fromTextShape {} (.number .float64) text = (.ok (some (.float64 (.finite y))), []) ∧
      y.ordinal = x.ordinal + 2 := by
  let x : Finite64 := ⟨false, 0x3ff8000000000000, by decide⟩
  have hdecimal : x.decimal = (15, -1) := by decide +kernel
  have hexact : x.ReadsExactly := by
    refine ⟨⟨⟨false, 0x402e000000000000, by decide⟩, ?_⟩, ?_⟩
    · rw [hdecimal]
      decide +kernel
    · rw [hdecimal]
      decide
  obtain ⟨hback, hfar⟩ := fromTextShape_toText_float64 (r := {}) (by decide)
  obtain ⟨text, y, htext, hread, -, hsame⟩ := hback x
  obtain rfl := hsame hexact
  exact ⟨⟨text, htext, hread⟩, hfar⟩

/-- The largest safe integer does not come back as a double: its text has 17 digits, since a zero stands behind the point,
and they are read as the double before. -/
theorem fromTextShape_toText_maxSafeInteger :
    toText {} (PropertyValue.float64 (.finite ⟨false, 0x433fffffffffffff, by decide⟩)) = .ok "9007199254740991.0" ∧
      fromTextShape {} (.number .float64) "9007199254740991.0" =
        (.ok (some (.float64 (.finite ⟨false, 0x433ffffffffffffe, by decide⟩))), []) := by
  have htext : String.ofList (json64.finite (F := binary64) ⟨false, 0x433fffffffffffff, by decide⟩) =
      "9007199254740991.0" := by decide +kernel
  rw [← htext]
  exact ⟨toText_float64 _, fromTextShape_float64 (by decide) (by decide +kernel)⟩

end Registry

end PropertyGraph
