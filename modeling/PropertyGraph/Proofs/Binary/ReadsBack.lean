import PropertyGraph.Proofs.Binary.Roundings
import PropertyGraph.Proofs.Binary.Shortest

/-!
# Shortest decimals read back

The decimal that is written for a magnitude lies between the middles to the magnitude's neighbours
(`decimalBetween_shortest`), so it is rounded to the magnitude if nothing is rounded before.  On the grids that are tried
the decimal that is taken has been tested for that, and after the last try the grid is so fine that the nearer one of its
two points cannot be beyond a middle.
-/

namespace PropertyGraph

open BinaryFormat Shortest

variable {F : BinaryFormat} {ordinal : Nat}

/-- The decimal `m * 10 ^ exponent` lies between the middles to the neighbours of a magnitude. -/
def BinaryFormat.DecimalBetween (F : BinaryFormat) (ordinal m : Nat) (exponent : Int) : Prop :=
  F.Between ordinal (m * tenPow exponent.toNat * F.one) (tenPow (-exponent).toNat)

/-- Zeros at the end of a decimal may be taken into its exponent. -/
theorem decimalBetween_mul_tenPow {m zeros : Nat} {exponent : Int} :
    F.DecimalBetween ordinal (m * tenPow zeros) exponent ↔ F.DecimalBetween ordinal m (exponent + zeros) := by
  have hpowers : zeros + exponent.toNat + (-(exponent + zeros)).toNat = (exponent + zeros).toNat + (-exponent).toNat := by
    omega
  have hsame : m * tenPow zeros * tenPow exponent.toNat * F.one * tenPow (-(exponent + zeros)).toNat =
      m * tenPow (exponent + zeros).toNat * F.one * tenPow (-exponent).toNat := by
    calc m * tenPow zeros * tenPow exponent.toNat * F.one * tenPow (-(exponent + zeros)).toNat
        = m * F.one * tenPow (zeros + exponent.toNat + (-(exponent + zeros)).toNat) := by
          rw [tenPow_add, tenPow_add]; ring
      _ = m * F.one * tenPow ((exponent + zeros).toNat + (-exponent).toNat) := by rw [hpowers]
      _ = m * tenPow (exponent + zeros).toNat * F.one * tenPow (-exponent).toNat := by
          rw [tenPow_add]; ring
  exact ⟨fun h => h.congr (tenPow_pos _) (tenPow_pos _) hsame, fun h => h.congr (tenPow_pos _) (tenPow_pos _) hsame.symm⟩

namespace Shortest

/-- What reads back lies between the middles. -/
theorem decimalBetween_of_readsBack {m : Nat} {exponent : Int}
    (h : readsBack F ordinal (grid F exponent) m = true) : F.DecimalBetween ordinal m exponent := by
  have hdecimal : m * (tenPow exponent.toNat * (2 * F.one)) = 2 * (m * tenPow exponent.toNat * F.one) := by ring
  unfold readsBack grid at h
  dsimp only at h
  rw [hdecimal] at h
  by_cases heven : ordinal % 2 = 0
  · rw [if_pos (beq_iff_eq.2 heven), Bool.and_eq_true, decide_eq_true_eq, decide_eq_true_eq] at h
    exact ⟨h.1, h.2, fun hodd => by omega⟩
  · rw [if_neg (fun hzero => heven (beq_iff_eq.1 hzero)), Bool.and_eq_true, decide_eq_true_eq, decide_eq_true_eq] at h
    exact ⟨Nat.le_of_lt h.1, Nat.le_of_lt h.2, fun _ => h⟩

/-- The nearer one of the two points is at most half a step of the grid below the magnitude. -/
theorem le_nearest_mul (tie : Tie) (ordinal : Nat) {g : Grid} (hpoint : 0 < g.point) :
    2 * (2 * F.units ordinal * g.half) ≤ 2 * (nearest F tie ordinal g * g.point) + g.point := by
  have hdiv := Nat.div_add_mod (2 * F.units ordinal * g.half) g.point
  have hmod := Nat.mod_lt (2 * F.units ordinal * g.half) hpoint
  rw [Nat.mul_comm g.point] at hdiv
  unfold nearest
  dsimp only
  split
  · rw [Nat.add_mul, Nat.one_mul]
    omega
  · rename_i hup
    simp only [Bool.or_eq_true, decide_eq_true_eq, Bool.and_eq_true, beq_iff_eq] at hup
    omega

/-- On a grid that has a number of points below the magnitude, which is larger than any number of steps, a step of the
grid is smaller than the gap to either neighbour. -/
theorem point_lt_gap {few : Nat} (hfew : 2 * F.binade < few) (hpos : 0 < ordinal) {g : Grid}
    (hbelow : few ≤ pointBelow F ordinal g) (hpoint : 0 < g.point) :
    2 * (F.units (ordinal - 1) * g.half) + g.point < 2 * (F.units ordinal * g.half) ∧
      2 * (F.units ordinal * g.half) + g.point < 2 * (F.units (ordinal + 1) * g.half) := by
  have hmany : few * g.point ≤ 2 * F.units ordinal * g.half := (Nat.le_div_iff_mul_le hpoint).1 hbelow
  -- a magnitude of so few steps that a step is larger than one of the grid
  have hgap {steps shift : Nat} (hsteps : steps ≤ 2 * F.binade) (hunits : F.units ordinal = steps * twoPow shift) :
      g.point < 2 * (twoPow shift * g.half) := by
    refine Nat.lt_of_mul_lt_mul_left (a := few) ?_
    have hstep : 0 < 2 * (twoPow shift * g.half) := by
      refine Nat.pos_of_ne_zero fun hzero => ?_
      have hnone : 2 * F.units ordinal * g.half = steps * (2 * (twoPow shift * g.half)) := by rw [hunits]; ring
      rw [hzero, Nat.mul_zero] at hnone
      have := Nat.mul_pos (show 0 < few by omega) hpoint
      omega
    calc few * g.point ≤ 2 * F.units ordinal * g.half := hmany
      _ = steps * (2 * (twoPow shift * g.half)) := by rw [hunits]; ring
      _ < few * (2 * (twoPow shift * g.half)) := Nat.mul_lt_mul_of_pos_right (by omega) hstep
  constructor
  · obtain ⟨k, rfl⟩ : ∃ k, ordinal = k + 1 := ⟨ordinal - 1, by omega⟩
    obtain ⟨shift, steps, hsteps, -, hunits, hnext⟩ := F.exists_units_steps k
    have hsmall := hgap (show steps + 1 ≤ 2 * F.binade by omega) hnext
    rw [Nat.add_sub_cancel, hunits, hnext]
    calc 2 * (steps * twoPow shift * g.half) + g.point
        < 2 * (steps * twoPow shift * g.half) + 2 * (twoPow shift * g.half) := Nat.add_lt_add_left hsmall _
      _ = 2 * ((steps + 1) * twoPow shift * g.half) := by ring
  · obtain ⟨shift, steps, hsteps, -, hunits, hnext⟩ := F.exists_units_steps ordinal
    have hsmall := hgap (Nat.le_of_lt hsteps) hunits
    rw [hunits, hnext]
    calc 2 * (steps * twoPow shift * g.half) + g.point
        < 2 * (steps * twoPow shift * g.half) + 2 * (twoPow shift * g.half) := Nat.add_lt_add_left hsmall _
      _ = 2 * ((steps + 1) * twoPow shift * g.half) := by ring

/-- On such a grid the nearer one of the two points lies between the middles. -/
theorem decimalBetween_nearest {few : Nat} (hfew : 2 * F.binade < few) (hpos : 0 < ordinal) (tie : Tie)
    {exponent : Int} (hbelow : few ≤ pointBelow F ordinal (grid F exponent)) :
    F.DecimalBetween ordinal (nearest F tie ordinal (grid F exponent)) exponent := by
  have hpoint : 0 < (grid F exponent).point := Nat.mul_pos (tenPow_pos _) (Nat.mul_pos (by decide) F.one_pos)
  obtain ⟨hdown, hup⟩ := point_lt_gap hfew hpos hbelow hpoint
  have hhigh := nearest_mul_le (F := F) tie ordinal (grid F exponent)
  have hlow := le_nearest_mul (F := F) tie ordinal hpoint
  have hdecimal : nearest F tie ordinal (grid F exponent) * (grid F exponent).point =
      2 * (nearest F tie ordinal (grid F exponent) * tenPow exponent.toNat * F.one) := by
    rw [grid]
    ring
  have hmagnitude : 2 * F.units ordinal * (grid F exponent).half = 2 * (F.units ordinal * (grid F exponent).half) :=
    Nat.mul_assoc ..
  rw [hdecimal, hmagnitude] at hhigh hlow
  have hstrict : (F.units (ordinal - 1) + F.units ordinal) * tenPow (-exponent).toNat <
        2 * (nearest F tie ordinal (grid F exponent) * tenPow exponent.toNat * F.one) ∧
      2 * (nearest F tie ordinal (grid F exponent) * tenPow exponent.toNat * F.one) <
        (F.units ordinal + F.units (ordinal + 1)) * tenPow (-exponent).toNat := by
    have hhalf : (grid F exponent).half = tenPow (-exponent).toNat := rfl
    rw [hhalf] at hdown hup hhigh hlow
    rw [Nat.add_mul, Nat.add_mul]
    omega
  exact ⟨Nat.le_of_lt hstrict.1, Nat.le_of_lt hstrict.2, fun _ => hstrict⟩

end Shortest

/-- The decimal that is written for a magnitude lies between the middles to its neighbours. -/
theorem decimalBetween_shortest (hfine : 2 * F.binade < tenPow 16) (tie : Tie) (hpos : 0 < ordinal) :
    F.DecimalBetween ordinal (Decimal.value (F.shortest tie ordinal).digits) (F.shortest tie ordinal).lastExponent := by
  obtain ⟨-, zeros, hvalue, hexponent⟩ := shortest_spec (F := F) tie hpos
  rw [hexponent, ← decimalBetween_mul_tenPow, hvalue]
  obtain ⟨finer, -, hfiner, hend⟩ := search_spec (F := F) tie ordinal 16 (leadingExponent F (F.units ordinal))
  rw [hfiner]
  rcases hend with hhit | ⟨rfl, hnearest⟩
  · exact decimalBetween_of_readsBack (hit_spec hhit).2
  · rw [hnearest]
    exact decimalBetween_nearest hfine hpos tie
      (pointBelow_mem (leadsAt_leadingExponent (F := F) (units_pos hpos)) 16).1

end PropertyGraph
