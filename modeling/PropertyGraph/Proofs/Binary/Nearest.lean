import PropertyGraph.Proofs.Binary.Rounding

/-!
# The value nearest to an integer

Of the finite values of a format none is nearer to an integer than the one that the integer is rounded to, and if
another one is as near the ordinal of that one is even (`Binary.isNearest_ofInt`).  Distances are counted in the
smallest steps of the format, so they are whole numbers.  There is no other such value
(`Finite.IsNearest.signed_eq`), and it is a whole number again (`Binary.exists_signed_ofInt`).
-/

namespace PropertyGraph

open BinaryFormat

variable {F : BinaryFormat}

private theorem units_zero : F.units 0 = 0 := by
  rw [units, if_pos F.binade_pos]

namespace Finite

/-- How far a value is from an integer, in steps of the format. -/
def distance (x : Finite F) (n : Int) : Nat := (x.signed - n * F.one).natAbs

/-- No finite value is nearer to an integer, and if another one is as near this one is even. -/
structure IsNearest (x : Finite F) (n : Int) : Prop where
  le : ∀ y : Finite F, x.distance n ≤ y.distance n
  even : ∀ y : Finite F, y.distance n = x.distance n → y.signed ≠ x.signed → x.ordinal % 2 = 0

/-! ### Distances of magnitudes -/

private theorem mul_one_eq (n : Int) :
    n * F.one = if n < 0 then -((n.natAbs * F.one : Nat) : Int) else ((n.natAbs * F.one : Nat) : Int) := by
  by_cases hneg : n < 0
  · have habs : n = -(n.natAbs : Int) := by omega
    rw [if_pos hneg, Nat.cast_mul, ← Int.neg_mul, ← habs]
  · have habs : n = (n.natAbs : Int) := by omega
    rw [if_neg hneg, Nat.cast_mul, ← habs]

/-- On its side of zero a value is as far from an integer as the magnitudes are from each other. -/
theorem distance_of_sign {x : Finite F} {n : Int} (h : x.negative = decide (n < 0)) :
    x.distance n = ((x.magnitude : Int) - (n.natAbs * F.one : Nat)).natAbs := by
  rw [distance, mul_one_eq, signed, h]
  by_cases hneg : n < 0
  · simp only [hneg, decide_true, if_true]
    omega
  · simp only [hneg, decide_false, if_false, Bool.false_eq_true]

/-- Across zero the magnitudes add up. -/
theorem distance_of_other_sign {x : Finite F} {n : Int} (h : x.negative ≠ decide (n < 0)) :
    x.distance n = x.magnitude + n.natAbs * F.one := by
  have hother : x.negative = !decide (n < 0) := by
    cases hx : x.negative <;> cases hn : decide (n < 0) <;> simp_all
  rw [distance, mul_one_eq, signed, hother]
  by_cases hneg : n < 0
  · simp only [hneg, decide_true, Bool.not_true, Bool.false_eq_true, if_false, if_true]
    omega
  · simp only [hneg, decide_false, Bool.not_false, if_true, if_false]
    omega

theorem signed_ne_of_sign {x y : Finite F} (hsign : y.negative = x.negative) (h : y.signed ≠ x.signed) :
    y.ordinal ≠ x.ordinal := by
  intro hordinal
  refine h ?_
  rw [signed, signed, magnitude, magnitude, hsign, hordinal]

/-! ### Uniqueness -/

private theorem signed_eq_or (x : Finite F) : x.signed = x.magnitude ∨ x.signed = -(x.magnitude : Int) := by
  unfold signed
  by_cases h : x.negative = true
  · exact .inr (if_pos h)
  · exact .inl (if_neg h)

private theorem ordinal_lt_of_magnitude {x y : Finite F} (h : x.magnitude < y.magnitude) : x.ordinal < y.ordinal := by
  by_contra hge
  have hle : y.magnitude ≤ x.magnitude := units_le_units (Nat.le_of_not_lt hge)
  omega

/-- The magnitude behind that of a value with an even ordinal is below any larger one that has an even ordinal too. -/
private theorem exists_magnitude_between {x y : Finite F} (hx : x.ordinal % 2 = 0) (hy : y.ordinal % 2 = 0)
    (h : x.magnitude < y.magnitude) (negative : Bool) :
    ∃ z : Finite F, z.negative = negative ∧ x.magnitude < z.magnitude ∧ z.magnitude < y.magnitude := by
  have hordinal := ordinal_lt_of_magnitude h
  have hylt := y.ordinal_lt
  refine ⟨⟨negative, x.ordinal + 1, by omega⟩, rfl, ?_, ?_⟩
  · exact units_lt_units (Nat.lt_succ_self _)
  · exact units_lt_units (show x.ordinal + 1 < y.ordinal by omega)

/-- Between two different values with even ordinals there is another value. -/
private theorem exists_between {x y : Finite F} (hx : x.ordinal % 2 = 0) (hy : y.ordinal % 2 = 0)
    (h : x.signed < y.signed) : ∃ z : Finite F, x.signed < z.signed ∧ z.signed < y.signed := by
  have hxs := signed_eq_or x
  have hys := signed_eq_or y
  by_cases hpos : 0 ≤ x.signed
  · obtain ⟨z, hz, hlow, hhigh⟩ := exists_magnitude_between hx hy (by omega) false
    have hsigned : z.signed = z.magnitude := by rw [signed, hz]; rfl
    exact ⟨z, by omega, by omega⟩
  · by_cases hneg : y.signed ≤ 0
    · obtain ⟨z, hz, hlow, hhigh⟩ := exists_magnitude_between hy hx (by omega) true
      have hsigned : z.signed = -(z.magnitude : Int) := by rw [signed, hz]; rfl
      exact ⟨z, by omega, by omega⟩
    · -- zero is between a value below it and one above it
      have hfinite := x.ordinal_lt
      let zero : Finite F := ⟨false, 0, by omega⟩
      have hsigned : zero.signed = 0 := by
        show ((F.units 0 : Nat) : Int) = 0
        rw [units_zero]
        rfl
      exact ⟨zero, by omega, by omega⟩

/-- An integer has only one nearest value. -/
theorem IsNearest.signed_eq {x y : Finite F} {n : Int} (hx : x.IsNearest n) (hy : y.IsNearest n) :
    x.signed = y.signed := by
  have hsame : x.distance n = y.distance n := Nat.le_antisymm (hx.le y) (hy.le x)
  by_contra hne
  have hxeven : x.ordinal % 2 = 0 := hx.even y hsame.symm (Ne.symm hne)
  have hyeven : y.ordinal % 2 = 0 := hy.even x hsame hne
  -- a value between two that are as far away on either side is nearer than both
  have hcloser (z : Finite F) : ¬(min x.signed y.signed < z.signed ∧ z.signed < max x.signed y.signed) := by
    intro hz
    have hle := hx.le z
    unfold distance at hle hsame
    omega
  rcases Int.lt_or_gt_of_ne hne with hlt | hgt
  · obtain ⟨z, hlow, hhigh⟩ := exists_between hxeven hyeven hlt
    exact hcloser z (by omega)
  · obtain ⟨z, hlow, hhigh⟩ := exists_between hyeven hxeven hgt
    exact hcloser z (by omega)

end Finite

/-! ### Rounding an integer -/

namespace Binary

theorem eq_of_ofOrdinal {negative : Bool} {ordinal : Nat} {x : Finite F} (h : ofOrdinal negative ordinal = .finite x) :
    x.negative = negative ∧ x.ordinal = ordinal := by
  unfold ofOrdinal at h
  split at h
  · obtain rfl := Binary.finite.inj h
    exact ⟨rfl, rfl⟩
  · cases h

/-- An integer is rounded to the finite value nearest to it, of two to the even one. -/
theorem isNearest_ofInt (hbinade : F.binade % 2 = 0) {n : Int} {x : Finite F} (h : ofInt n = .finite x) :
    x.IsNearest n := by
  obtain ⟨hnegative, hordinal⟩ := eq_of_ofOrdinal h
  obtain ⟨ordinal, hrounded, hrounds⟩ := F.exists_roundsTo (n.natAbs * F.one) (d := 1) (by decide)
  obtain rfl : x.ordinal = ordinal := by
    have hfinite := x.ordinal_lt
    rw [natOrdinal, hrounded] at hordinal
    omega
  have hself := Finite.distance_of_sign hnegative
  -- the other magnitudes, one by one
  have hnearer (k : Nat) : ((F.units x.ordinal : Int) - (n.natAbs * F.one : Nat)).natAbs ≤
      ((F.units k : Int) - (n.natAbs * F.one : Nat)).natAbs := by
    rcases Nat.lt_trichotomy k x.ordinal with hk | rfl | hk
    · have hless := units_lt_units (F := F) hk
      have hmiddle := hrounds.below k hk
      omega
    · exact Nat.le_refl _
    · have hless := units_lt_units (F := F) hk
      have hmiddle := hrounds.above k hk
      omega
  have htie (k : Nat) (hk : k ≠ x.ordinal) (heq : ((F.units k : Int) - (n.natAbs * F.one : Nat)).natAbs =
      ((F.units x.ordinal : Int) - (n.natAbs * F.one : Nat)).natAbs) : x.ordinal % 2 = 0 := by
    refine hrounds.even hbinade k hk ?_
    have hne : F.units k ≠ F.units x.ordinal := by
      rcases Nat.lt_or_gt_of_ne hk with hk | hk
      · exact Nat.ne_of_lt (units_lt_units hk)
      · exact Nat.ne_of_gt (units_lt_units hk)
    omega
  have hzero := hnearer 0
  rw [units_zero] at hzero
  rw [Finite.magnitude] at hself
  refine ⟨fun y => ?_, fun y heq hne => ?_⟩
  · by_cases hsign : y.negative = decide (n < 0)
    · rw [hself, Finite.distance_of_sign hsign]
      exact hnearer y.ordinal
    · rw [hself, Finite.distance_of_other_sign hsign]
      omega
  · by_cases hsign : y.negative = decide (n < 0)
    · rw [hself, Finite.distance_of_sign hsign] at heq
      exact htie y.ordinal (Finite.signed_ne_of_sign (hsign.trans hnegative.symm) hne) heq
    · -- a value across zero is as near only if it is zero
      rw [hself, Finite.distance_of_other_sign hsign] at heq
      have hnone : y.magnitude = 0 := by omega
      have hsigned : y.signed = 0 := by simp [Finite.signed, hnone]
      refine htie 0 ?_ (by rw [units_zero]; omega)
      intro hx
      refine hne ?_
      rw [hsigned, Finite.signed, Finite.magnitude, ← hx, units_zero]
      simp

/-- What an integer is rounded to is a whole number. -/
theorem one_dvd_units_natOrdinal {n : Nat} (h : F.natOrdinal n < F.infinity) :
    F.one ∣ F.units (F.natOrdinal n) := by
  obtain ⟨shift, steps, hordinal, hunits, hsteps, -⟩ := F.exists_ordinalOf (n * F.one) (d := 1) (by decide)
  rw [← natOrdinal] at hordinal
  have hkept : F.natOrdinal n = shift * F.binade + steps := by omega
  rw [hkept, hunits]
  by_cases hfine : shift ≤ F.scale
  · -- the grid is no coarser than the whole numbers, and the integer is on it
    have hgrid : twoPow shift ∣ n * F.one := Dvd.dvd.mul_left (Nat.pow_dvd_pow 2 hfine) n
    obtain ⟨count, hcount⟩ := hgrid
    have hexact : steps = count := by
      rw [hsteps, Nat.one_mul, hcount, divEven_mul_left _ _ (twoPow_pos _)]
    rw [hexact, Nat.mul_comm count, ← hcount]
    exact Dvd.intro_left n rfl
  · have hcoarse : F.one ∣ twoPow shift := Nat.pow_dvd_pow 2 (by omega)
    exact Dvd.dvd.mul_left hcoarse steps

theorem exists_signed_ofInt {n : Int} {x : Finite F} (h : ofInt n = .finite x) : ∃ m : Int, x.signed = m * F.one := by
  obtain ⟨-, hordinal⟩ := eq_of_ofOrdinal h
  have hfinite : F.natOrdinal n.natAbs < F.infinity := hordinal ▸ x.ordinal_lt
  obtain ⟨m, hm⟩ := one_dvd_units_natOrdinal hfinite
  rw [Finite.signed, Finite.magnitude, hordinal, hm]
  by_cases hnegative : x.negative = true
  · refine ⟨-m, ?_⟩
    rw [if_pos hnegative]
    push_cast
    ring
  · refine ⟨m, ?_⟩
    rw [if_neg hnegative]
    push_cast
    ring

end Binary

end PropertyGraph
