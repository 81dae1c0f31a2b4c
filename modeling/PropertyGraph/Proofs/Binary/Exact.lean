import PropertyGraph.Proofs.Binary.Rounding

/-!
# Magnitudes that rounding keeps

The magnitudes of a format are the products of a short whole number and a power of two (`exists_steps`,
`exists_units_eq`), rounding keeps them whatever quotient they are written as (`ordinalOf_units`,
`ordinalOf_mul_right`), and so a value that is brought to a wider format is the same number there and comes back as
the value that it was (`Binary.exists_convert`, `Binary.convert_convert`).
-/

namespace PropertyGraph

namespace BinaryFormat

variable {F : BinaryFormat}

/-! ### Steps on a grid -/

/-- An ordinal is put together from a binade and a number of steps on its grid. -/
theorem exists_steps (F : BinaryFormat) (k : Nat) :
    ∃ shift steps, k = shift * F.binade + steps ∧ steps < 2 * F.binade ∧ (shift = 0 ∨ F.binade ≤ steps) := by
  have hpos := F.binade_pos
  by_cases hk : k < F.binade
  · exact ⟨0, k, by omega, by omega, .inl rfl⟩
  · have hsplit := Nat.div_add_mod k F.binade
    have hmod := Nat.mod_lt k hpos
    have hquot : 0 < k / F.binade := Nat.div_pos (by omega) hpos
    refine ⟨k / F.binade - 1, F.binade + k % F.binade, ?_, by omega, .inr (by omega)⟩
    have hrow : (k / F.binade - 1) * F.binade + F.binade = F.binade * (k / F.binade) := by
      rw [← Nat.succ_mul, Nat.succ_eq_add_one, Nat.sub_add_cancel hquot, Nat.mul_comm]
    omega

/-- A magnitude is a number of steps of at most one bit more than the fraction has, and the next one is a step more. -/
theorem exists_units_steps (F : BinaryFormat) (k : Nat) :
    ∃ shift steps, steps < 2 * F.binade ∧ steps ≤ k ∧ F.units k = steps * twoPow shift ∧
      F.units (k + 1) = (steps + 1) * twoPow shift := by
  obtain ⟨shift, steps, rfl, hsteps, hshift⟩ := F.exists_steps k
  refine ⟨shift, steps, hsteps, Nat.le_add_left .., F.units_binade_add (by omega) hshift, ?_⟩
  rw [Nat.add_assoc]
  exact F.units_binade_add (by omega) (by omega)

theorem le_units (F : BinaryFormat) (k : Nat) : k ≤ F.units k := by
  induction k with
  | zero => exact Nat.zero_le _
  | succ k ih => exact Nat.lt_of_le_of_lt ih (F.units_lt_units_succ k)

/-- The steps do not become smaller. -/
theorem two_mul_units_succ_le (F : BinaryFormat) (k : Nat) : 2 * F.units (k + 1) ≤ F.units k + F.units (k + 2) := by
  obtain ⟨shift, steps, rfl, hsteps, hshift⟩ := F.exists_steps k
  have hpos := F.binade_pos
  rw [Nat.add_assoc, Nat.add_assoc, F.units_binade_add (by omega) hshift, F.units_binade_add (by omega) (by omega)]
  by_cases hfull : steps + 1 < 2 * F.binade
  · rw [F.units_binade_add (by omega) (by omega)]
    exact Nat.le_of_eq (by ring)
  · -- the last step fills the binade, and the next one is twice as large
    have hnext : shift * F.binade + (steps + 2) = (shift + 1) * F.binade + (F.binade + 1) := by
      rw [Nat.add_mul]
      omega
    rw [hnext, F.units_binade_add (by omega) (by omega), twoPow_succ]
    have hlast : steps + 1 = 2 * F.binade := by omega
    calc 2 * ((steps + 1) * twoPow shift) ≤ (steps + 2 * (F.binade + 1)) * twoPow shift := by
          rw [← Nat.mul_assoc]
          exact Nat.mul_le_mul_right _ (by omega)
      _ = steps * twoPow shift + (F.binade + 1) * (2 * twoPow shift) := by ring

/-- Every whole number of at most one bit more than the fraction has, times a power of two, is a magnitude. -/
theorem exists_units_eq {steps : Nat} (hsteps : steps ≤ 2 * F.binade) (shift : Nat) :
    ∃ k, F.units k = steps * twoPow shift := by
  induction shift generalizing steps with
  | zero => exact ⟨0 * F.binade + steps, F.units_binade_add hsteps (.inl rfl)⟩
  | succ shift ih =>
    -- a number that is too short for its grid is twice as large on the next finer one
    by_cases hshort : steps ≤ F.binade
    · obtain ⟨k, hk⟩ := ih (show 2 * steps ≤ 2 * F.binade by omega)
      refine ⟨k, ?_⟩
      rw [hk, twoPow_succ]
      ring
    · exact ⟨(shift + 1) * F.binade + steps, F.units_binade_add hsteps (.inr (by omega))⟩

/-! ### Rounding what is no quotient -/

/-- A magnitude is rounded to itself. -/
theorem ordinalOf_units {k d : Nat} (hd : 0 < d) (hk : k ≤ F.infinity) : F.ordinalOf (F.units k * d) d = k :=
  Nat.le_antisymm (ordinalOf_le hd (Nat.le_refl _)) (le_ordinalOf hd hk (Nat.le_refl _))

theorem divEven_mul_right {n d c : Nat} (hc : 0 < c) : divEven (n * c) (d * c) = divEven n d := by
  have hcancel : 2 * (n % d * c) = 2 * (n % d) * c := (Nat.mul_assoc 2 _ c).symm
  have hmore : (d * c < 2 * (n % d) * c) = (d < 2 * (n % d)) := propext (Nat.mul_lt_mul_right hc)
  have hsame : (2 * (n % d) * c == d * c) = (2 * (n % d) == d) := by
    rw [Bool.eq_iff_iff, beq_iff_eq, beq_iff_eq]
    exact Nat.mul_left_inj (Nat.ne_of_gt hc)
  unfold divEven
  simp only [Nat.mul_div_mul_right _ _ hc, Nat.mul_mod_mul_right, hcancel, hmore, hsame]

/-- What a quotient is rounded to does not depend on how it is written. -/
theorem ordinalOf_mul_right {n d c : Nat} (hc : 0 < c) : F.ordinalOf (n * c) (d * c) = F.ordinalOf n d := by
  unfold ordinalOf
  dsimp only
  rw [Nat.mul_div_mul_right _ _ hc, Nat.mul_right_comm, divEven_mul_right hc]

/-! ### Wider formats -/

/-- A format has the magnitudes of another one: its fraction has as many bits at least, its steps are as fine, and
it reaches as far. -/
structure Widens (F G : BinaryFormat) : Prop where
  binade_le : F.binade ≤ G.binade
  scale_le : F.scale ≤ G.scale
  units_infinity_le : F.units F.infinity * twoPow (G.scale - F.scale) ≤ G.units G.infinity

theorem binary64_widens : binary32.Widens binary64 where
  binade_le := by decide
  scale_le := by decide
  units_infinity_le := by decide +kernel

end BinaryFormat

open BinaryFormat

variable {F G : BinaryFormat}

@[ext]
theorem Finite.ext {x y : Finite F} (negative : x.negative = y.negative) (ordinal : x.ordinal = y.ordinal) : x = y := by
  cases x
  cases y
  cases negative
  cases ordinal
  rfl

/-- A value of a wider format that is the same number. -/
structure Finite.SameAs (y : Finite G) (x : Finite F) : Prop where
  magnitude_eq : y.magnitude * F.one = x.magnitude * G.one
  negative_eq : y.negative = x.negative

namespace Binary

/-- A value is the same number in a wider format. -/
theorem exists_convert (h : F.Widens G) (x : Finite F) :
    ∃ y : Finite G, (finite x).convert G = .finite y ∧ y.SameAs x := by
  have hone : G.one = twoPow (G.scale - F.scale) * F.one := by
    have := h.scale_le
    rw [one, one, ← twoPow_add, Nat.sub_add_cancel this]
  obtain ⟨shift, steps, hsteps, -, hunits, -⟩ := F.exists_units_steps x.ordinal
  have hshort := h.binade_le
  obtain ⟨k, hk⟩ := exists_units_eq (show steps ≤ 2 * G.binade by omega) (shift + (G.scale - F.scale))
  have hsame : G.units k = F.units x.ordinal * twoPow (G.scale - F.scale) := by
    rw [hk, hunits, twoPow_add]
    ring
  have hfinite : k < G.infinity := by
    have hless := Nat.mul_lt_mul_of_pos_right (units_lt_units (F := F) x.ordinal_lt) (twoPow_pos (G.scale - F.scale))
    have hreach := h.units_infinity_le
    by_contra hge
    have := units_le_units (F := G) (Nat.le_of_not_lt hge)
    omega
  have hmagnitude : G.units k * F.one = x.magnitude * G.one := by
    rw [hsame, hone, Finite.magnitude]
    ring
  refine ⟨⟨x.negative, k, hfinite⟩, ?_, hmagnitude, rfl⟩
  rw [convert, ← hmagnitude, ordinalOf_units F.one_pos (Nat.le_of_lt hfinite), ofOrdinal, dif_pos hfinite]

/-- A value that is the same number as one of a narrower format is that one there. -/
theorem convert_of_sameAs {x : Finite F} {y : Finite G} (h : y.SameAs x) : (finite y).convert F = .finite x := by
  have hlt := x.ordinal_lt
  rw [convert, h.magnitude_eq, h.negative_eq, Finite.magnitude, ordinalOf_units G.one_pos (Nat.le_of_lt hlt),
    ofOrdinal, dif_pos hlt]

/-- A value comes back from a wider format. -/
theorem convert_convert (h : F.Widens G) (x : Binary F) : (x.convert G).convert F = x := by
  cases x with
  | nan => rfl
  | infinite negative => rfl
  | finite x =>
    obtain ⟨y, hy, hsame⟩ := exists_convert h x
    rw [hy, convert_of_sameAs hsame]

end Binary

namespace Finite

theorem SameAs.signed_eq {x : Finite F} {y : Finite G} (h : y.SameAs x) : y.signed * F.one = x.signed * G.one := by
  have hmagnitude : (y.magnitude : Int) * F.one = x.magnitude * G.one := by exact_mod_cast h.magnitude_eq
  rw [signed, signed, h.negative_eq]
  split
  · rw [Int.neg_mul, Int.neg_mul, hmagnitude]
  · exact hmagnitude

/-- The same number is the same integer without its fraction. -/
theorem SameAs.truncated_eq {x : Finite F} {y : Finite G} (h : y.SameAs x) : y.truncated = x.truncated := by
  have hF : (0 : Int) < F.one := Int.natCast_pos.2 F.one_pos
  have hG : (0 : Int) < G.one := Int.natCast_pos.2 G.one_pos
  calc y.truncated = (y.signed * F.one).tdiv (G.one * F.one) := (Int.mul_tdiv_mul_of_pos_left _ _ hF).symm
    _ = (x.signed * G.one).tdiv (F.one * G.one) := by rw [h.signed_eq, Int.mul_comm (G.one : Int)]
    _ = x.truncated := Int.mul_tdiv_mul_of_pos_left _ _ hG

end Finite

end PropertyGraph
