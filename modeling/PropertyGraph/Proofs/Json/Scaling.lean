import PropertyGraph.Proofs.Json.Magnitude

/-!
# How well a decimal is read

A decimal is read with two roundings before the last one, or with four if its power of ten is not in the table.  If it
lies between the middles to the neighbours of a double, these roundings lead at most two places away from that double
(`near_scaledOrdinal`); where neither the significand nor the power of ten has to be rounded they lead nowhere
(`scaledOrdinal_eq`).

Powers of ten beyond the table are divided by in two steps.  For small magnitudes four roundings are not too many, since
there are few steps to a magnitude.  For the others the power in the second step is not rounded, and the two roundings in
the first one, of the significand and of the quotient, cannot both be as coarse as they may be: the last power of ten in
the table is about `1.11` times a power of two, so at most one of the two numbers is near a power of two
(`apart_lastQuotient`).
-/

namespace PropertyGraph

open BinaryFormat Json.Reader

variable {k m power : Nat}

/-! ### One rounding each -/

theorem apart_natOrdinal (hpos : 0 < m) (hm : m ≤ tenPow tableEnd) :
    Apart (2 * binary64.binade) 1 (binary64.units (binary64.natOrdinal m)) 1 (m * binary64.one) 1 :=
  apart_ordinalOf Nat.zero_lt_one (Nat.le_refl _) (binade_le_mul_one hpos) (natOrdinal_lt_infinity hm)

theorem apart_powerOrdinal (h : power ≤ tableEnd) :
    Apart (2 * binary64.binade) 1 (binary64.units (powerOrdinal power)) 1 (tenPow power * binary64.one) 1 :=
  apart_natOrdinal (tenPow_pos power) (tenPow_le_tenPow h)

theorem one_le_units_powerOrdinal (power : Nat) : binary64.one ≤ binary64.units (powerOrdinal power) :=
  one_le_units_natOrdinal (tenPow_pos power)

theorem units_powerOrdinal_pos (power : Nat) : 0 < binary64.units (powerOrdinal power) :=
  Nat.lt_of_lt_of_le binary64.one_pos (one_le_units_powerOrdinal power)

/-- The powers of ten that are not rounded. -/
theorem units_powerOrdinal (h : power ≤ 22) : binary64.units (powerOrdinal power) = tenPow power * binary64.one := by
  have hall : ∀ power < 23, binary64.units (powerOrdinal power) = tenPow power * binary64.one := by decide +kernel
  exact hall power (by omega)

/-! ### Powers of ten in the table -/

theorem scaledOrdinal_of_neg (h : power ≤ tableEnd) (hpos : 0 < power) :
    scaledOrdinal m (-(power : Int)) = binary64.divOrdinal (binary64.natOrdinal m) (powerOrdinal power) := by
  unfold scaledOrdinal
  dsimp only
  rw [if_neg (by omega), if_pos (by omega), show (-(power : Int)).natAbs = power by omega]

theorem apart_product (hpos : 0 < m) (hm : m ≤ tenPow tableEnd) (h : power ≤ tableEnd) :
    Apart (2 * binary64.binade) 2
      (binary64.units (binary64.natOrdinal m) * binary64.units (powerOrdinal power)) binary64.one
      (m * tenPow power * binary64.one) 1 :=
  ((apart_natOrdinal hpos hm).mul (apart_powerOrdinal h)).congr Nat.zero_lt_one (by ring) (by ring)

theorem apart_quotient (hpos : 0 < m) (hm : m ≤ tenPow tableEnd) (h : power ≤ tableEnd) :
    Apart (2 * binary64.binade) 2
      (binary64.units (binary64.natOrdinal m) * binary64.one) (binary64.units (powerOrdinal power))
      (m * binary64.one) (tenPow power) :=
  ((apart_natOrdinal hpos hm).mul (apart_powerOrdinal h).inv).congr Nat.zero_lt_one (by ring) (by ring)

/-- With a power of ten in the table a decimal is read within two places. -/
theorem near_scaledOrdinal_of_table {exponent : Int} (h : binary64.DecimalBetween k m exponent)
    (hk : k < binary64.infinity) (hpos : 0 < m) (hm : m ≤ tenPow tableEnd) (htable : exponent.natAbs ≤ tableEnd) :
    scaledOrdinal m exponent ≤ k + 2 ∧ k ≤ scaledOrdinal m exponent + 2 := by
  have hclose : ∀ steps ≤ k, steps < 2 * binary64.binade →
      (2 * binary64.binade + 1) ^ 2 * (2 * steps + 1) < (2 * binary64.binade) ^ 2 * (2 * steps + 5) :=
    fun _ _ hsteps => two_roundings_close hsteps
  unfold DecimalBetween at h
  by_cases hneg : exponent < 0
  · obtain ⟨power, rfl⟩ : ∃ power : Nat, exponent = -(power : Int) := ⟨exponent.natAbs, by omega⟩
    rw [scaledOrdinal_of_neg (by omega) (by omega)]
    rw [show (-(power : Int)).toNat = 0 by omega, show (- -(power : Int)).toNat = power by omega,
      show tenPow 0 = 1 from rfl, Nat.mul_one] at h
    exact h.near_ordinalOf (Nat.le_of_lt hk) (tenPow_pos _) (units_powerOrdinal_pos _) hclose
      (apart_quotient hpos hm (by omega))
  · obtain ⟨power, rfl⟩ : ∃ power : Nat, exponent = power := ⟨exponent.natAbs, by omega⟩
    rw [scaledOrdinal_of_nonneg (by omega)]
    rw [Int.toNat_natCast, show (-(power : Int)).toNat = 0 by omega, show tenPow 0 = 1 from rfl] at h
    exact h.near_ordinalOf (Nat.le_of_lt hk) Nat.zero_lt_one binary64.one_pos hclose (apart_product hpos hm (by omega))

/-- A decimal is read as it is if neither the significand nor the power of ten has to be rounded. -/
theorem scaledOrdinal_eq {exponent : Int} (h : binary64.DecimalBetween k m exponent) (hk : k < binary64.infinity)
    (hexact : binary64.units (binary64.natOrdinal m) = m * binary64.one) (hfew : exponent.natAbs ≤ 22) :
    scaledOrdinal m exponent = k := by
  have heven : binary64.binade % 2 = 0 := by decide
  have hone := binary64.one_pos
  unfold DecimalBetween at h
  by_cases hneg : exponent < 0
  · obtain ⟨power, rfl⟩ : ∃ power : Nat, exponent = -(power : Int) := ⟨exponent.natAbs, by omega⟩
    have hpower := tenPow_pos power
    have htable : power ≤ tableEnd := Nat.le_trans (show power ≤ 22 by omega) (by decide)
    rw [scaledOrdinal_of_neg htable (by omega), divOrdinal, hexact, units_powerOrdinal (by omega)]
    rw [show (-(power : Int)).toNat = 0 by omega, show (- -(power : Int)).toNat = power by omega,
      show tenPow 0 = 1 from rfl, Nat.mul_one] at h
    exact (h.congr hpower (Nat.mul_pos hpower hone) (by ring)).ordinalOf_eq (Nat.mul_pos hpower hone)
      (Nat.le_of_lt hk) heven
  · obtain ⟨power, rfl⟩ : ∃ power : Nat, exponent = power := ⟨exponent.natAbs, by omega⟩
    have htable : power ≤ tableEnd := Nat.le_trans (show power ≤ 22 by omega) (by decide)
    have hpower : binary64.units (binary64.natOrdinal (tenPow power)) = tenPow power * binary64.one :=
      units_powerOrdinal (by omega)
    rw [scaledOrdinal_of_nonneg htable, mulOrdinal, hexact, hpower]
    rw [Int.toNat_natCast, show (-(power : Int)).toNat = 0 by omega, show tenPow 0 = 1 from rfl] at h
    exact (h.congr Nat.zero_lt_one hone (by ring)).ordinalOf_eq hone (Nat.le_of_lt hk) heven

/-! ### Powers of ten beyond the table -/

/-- The ordinal of a significand that is divided by the last power of ten in the table. -/
def lastQuotient (significand : Nat) : Nat :=
  binary64.divOrdinal (binary64.natOrdinal significand) (powerOrdinal tableEnd)

theorem scaledOrdinal_of_beyond (hpos : 0 < power) (h : power ≤ tableEnd) :
    scaledOrdinal m (-((tableEnd + power : Nat) : Int)) =
      binary64.divOrdinal (lastQuotient m) (powerOrdinal power) := by
  unfold scaledOrdinal
  dsimp only
  rw [if_neg (by omega), if_neg (by omega), if_pos (by omega),
    show (-((tableEnd + power : Nat) : Int)).natAbs - tableEnd = power by omega]
  rfl

theorem lastQuotient_lt_infinity (hm : m ≤ tenPow tableEnd) : lastQuotient m < binary64.infinity :=
  Nat.lt_of_le_of_lt (divOrdinal_le (one_le_units_powerOrdinal tableEnd)) (natOrdinal_lt_infinity hm)

/-- Where the quotient by the last power has only `2 ^ 50` steps four roundings of this size are made. -/
theorem apart_small (hpos : 0 < m) (hm : m ≤ tenPow tableEnd) (h : power ≤ tableEnd) :
    Apart (2 * twoPow 50) 4
      (binary64.units (lastQuotient m) * binary64.one) (binary64.units (powerOrdinal power))
      (m * binary64.one) (tenPow tableEnd * tenPow power) := by
  have hfew : twoPow 50 ≤ binary64.binade := twoPow_le_twoPow (by decide)
  have hwide : 0 < 2 * binary64.binade := Nat.mul_pos (by decide) binary64.binade_pos
  have hsteps : twoPow 50 * binary64.units (powerOrdinal tableEnd) ≤
      binary64.units (binary64.natOrdinal m) * binary64.one := by
    have hone : twoPow 50 * binary64.units (powerOrdinal tableEnd) ≤ binary64.one * binary64.one := by decide +kernel
    exact hone.trans (Nat.mul_le_mul_right _ (one_le_units_natOrdinal hpos))
  have hlast : Apart (2 * twoPow 50) 1 (binary64.units (lastQuotient m)) 1 _ _ :=
    apart_ordinalOf (units_powerOrdinal_pos tableEnd) hfew hsteps (lastQuotient_lt_infinity hm)
  have hquotient := (apart_quotient hpos hm (Nat.le_refl tableEnd)).mono hwide (Nat.mul_le_mul_left 2 hfew)
  have hpower := (apart_powerOrdinal h).inv.mono hwide (Nat.mul_le_mul_left 2 hfew)
  have hwhole : 0 < binary64.units (binary64.natOrdinal m) * binary64.one :=
    Nat.mul_pos (Nat.lt_of_lt_of_le binary64.one_pos (one_le_units_natOrdinal hpos)) binary64.one_pos
  exact ((hlast.trans hquotient hwhole (units_powerOrdinal_pos tableEnd)).mul hpower).congr Nat.zero_lt_one
    (by ring) (by ring)

/-- The number of steps that the last power of ten in the table has on its grid, about `1.11` times a binade. -/
def lastSteps : Nat := 5010420900022432

theorem units_lastPower : binary64.units (powerOrdinal tableEnd) = lastSteps * twoPow 2045 := by
  decide +kernel

/-- Two steps whose ratio is a power of two up to a factor between one and the square root of two cannot both be as large
as a limit allows. -/
private theorem sum_of_steps_le {lead binade first second fine limit : Nat} (hsquare : lead * lead ≤ 2 * (binade * binade))
    (hfirst : binade * first = lead * fine) (hsecond : second = fine ∨ 2 * fine ≤ second)
    (hfirst_le : binade * first ≤ limit) (hsecond_le : binade * second ≤ limit) :
    lead * binade * (first + second) ≤ (lead + binade) * limit := by
  rcases hsecond with rfl | hsecond
  · calc lead * binade * (first + second) = lead * (binade * first) + binade * (lead * second) := by ring
      _ = (lead + binade) * (binade * first) := by rw [← hfirst, Nat.add_mul]
      _ ≤ (lead + binade) * limit := Nat.mul_le_mul_left _ hfirst_le
  · refine Nat.le_of_mul_le_mul_left ?_ (show 0 < 2 by decide)
    calc 2 * (lead * binade * (first + second)) = 2 * lead * (binade * first) + 2 * (lead * binade * second) := by ring
      _ = lead * lead * (2 * fine) + 2 * (lead * binade * second) := by rw [hfirst]; ring
      _ ≤ 2 * (binade * binade) * second + 2 * (lead * binade * second) :=
          Nat.add_le_add_right (Nat.mul_le_mul hsquare hsecond) _
      _ = 2 * ((lead + binade) * (binade * second)) := by ring
      _ ≤ 2 * ((lead + binade) * limit) := Nat.mul_le_mul_left 2 (Nat.mul_le_mul_left _ hsecond_le)

/-- A quotient that is short by two half steps, where these are within a budget. -/
private theorem le_of_budget {wide lead binade one divisor exact quotient steps ten : Nat} (hone : 0 < one)
    (hless : (lead + binade) * (wide + 1) < 2 * wide * (lead * binade))
    (hclosed : wide ^ 2 * (2 * wide * (lead * binade)) * divisor ≤
      (wide + 1) ^ 2 * ((2 * wide * (lead * binade) - (lead + binade) * (wide + 1)) * (ten * one)))
    (hshort : 2 * (exact * one) ≤ 2 * (quotient * divisor) + steps)
    (hbudget : wide * (lead * binade * steps) ≤ (lead + binade) * ((wide + 1) * (exact * one))) :
    wide ^ 2 * exact ≤ (wide + 1) ^ 2 * (quotient * ten) := by
  obtain ⟨kept, hkept⟩ := Nat.exists_eq_add_of_lt hless
  have hrest : 2 * wide * (lead * binade) - (lead + binade) * (wide + 1) = kept + 1 := by omega
  rw [hrest] at hclosed
  have hquotient : (kept + 1) * (exact * one) ≤ 2 * wide * (lead * binade) * (quotient * divisor) := by
    refine Nat.le_of_add_le_add_left (a := (lead + binade) * (wide + 1) * (exact * one)) ?_
    calc (lead + binade) * (wide + 1) * (exact * one) + (kept + 1) * (exact * one)
        = wide * (lead * binade) * (2 * (exact * one)) := by rw [← Nat.add_mul, ← Nat.add_assoc, ← hkept]; ring
      _ ≤ wide * (lead * binade) * (2 * (quotient * divisor) + steps) := Nat.mul_le_mul_left _ hshort
      _ = wide * (lead * binade * steps) + 2 * wide * (lead * binade) * (quotient * divisor) := by ring
      _ ≤ (lead + binade) * ((wide + 1) * (exact * one)) + 2 * wide * (lead * binade) * (quotient * divisor) :=
          Nat.add_le_add_right hbudget _
      _ = (lead + binade) * (wide + 1) * (exact * one) + 2 * wide * (lead * binade) * (quotient * divisor) := by ring
  refine Nat.le_of_mul_le_mul_left ?_ (Nat.mul_pos kept.succ_pos hone)
  calc (kept + 1) * one * (wide ^ 2 * exact) = wide ^ 2 * ((kept + 1) * (exact * one)) := by ring
    _ ≤ wide ^ 2 * (2 * wide * (lead * binade) * (quotient * divisor)) := Nat.mul_le_mul_left _ hquotient
    _ = wide ^ 2 * (2 * wide * (lead * binade)) * divisor * quotient := by ring
    _ ≤ (wide + 1) ^ 2 * ((kept + 1) * (ten * one)) * quotient := Nat.mul_le_mul_right _ hclosed
    _ = (kept + 1) * one * ((wide + 1) ^ 2 * (quotient * ten)) := by ring

/-- A binade of steps of the quotient is as many times a power of two as the last power is one. -/
private theorem binade_mul_step (shift : Nat) :
    binary64.binade * (binary64.units (powerOrdinal tableEnd) * twoPow shift) =
      lastSteps * twoPow (2097 + shift) := by
  have hbinade : binary64.binade = twoPow 52 := rfl
  rw [units_lastPower, hbinade, show 2097 + shift = 52 + (2045 + shift) by omega, twoPow_add, twoPow_add]
  ring

private theorem step_mul_one (shift : Nat) : twoPow shift * binary64.one = twoPow (shift + 1074) := (twoPow_add _ _).symm

/-- If a significand on a grid reaches the quotients on another one, the steps of this one are not too large. -/
private theorem shift_add_le {shift shift' : Nat} (h : binary64.binade *
    (binary64.units (powerOrdinal tableEnd) * twoPow shift') ≤ 2 * binary64.binade * twoPow shift * binary64.one) :
    shift' + 1023 ≤ shift := by
  by_contra hless
  have hpow : twoPow (shift + 1075) ≤ twoPow (2097 + shift') := twoPow_le_twoPow (by omega)
  have hbinade : binary64.binade < lastSteps := by decide
  rw [binade_mul_step, Nat.mul_assoc, step_mul_one] at h
  have hfull : 2 * binary64.binade * twoPow (shift + 1074) = binary64.binade * twoPow (shift + 1075) := by
    rw [twoPow_succ (shift + 1074)]
    ring
  have hmore := Nat.mul_lt_mul_of_pos_right hbinade (twoPow_pos (2097 + shift'))
  have hleast := Nat.mul_le_mul_left binary64.binade hpow
  omega

/-- The quotient by the last power does not exceed the exact one by more than two roundings: dividing by a power that has
been rounded up does not enlarge. -/
private theorem lastQuotient_le
    (hnormal : binary64.binade * binary64.units (powerOrdinal tableEnd) ≤
      binary64.units (binary64.natOrdinal m) * binary64.one) :
    (2 * binary64.binade) ^ 2 * (binary64.units (lastQuotient m) * tenPow tableEnd) ≤
      (2 * binary64.binade + 1) ^ 2 * (m * binary64.one) := by
  have hpower : tenPow tableEnd * binary64.one ≤ binary64.units (powerOrdinal tableEnd) := by decide +kernel
  have hwhole := units_natOrdinal_le m
  have hquotient : 2 * binary64.binade * (binary64.units (lastQuotient m) * binary64.units (powerOrdinal tableEnd)) ≤
      (2 * binary64.binade + 1) * (binary64.units (binary64.natOrdinal m) * binary64.one) :=
    units_ordinalOf_le (units_powerOrdinal_pos tableEnd) (Nat.le_refl _) hnormal
  refine Nat.le_of_mul_le_mul_right ?_ binary64.one_pos
  calc (2 * binary64.binade) ^ 2 * (binary64.units (lastQuotient m) * tenPow tableEnd) * binary64.one
      = (2 * binary64.binade) ^ 2 * (binary64.units (lastQuotient m) * (tenPow tableEnd * binary64.one)) := by ring
    _ ≤ (2 * binary64.binade) ^ 2 * (binary64.units (lastQuotient m) * binary64.units (powerOrdinal tableEnd)) :=
        Nat.mul_le_mul_left _ (Nat.mul_le_mul_left _ hpower)
    _ = 2 * binary64.binade *
          (2 * binary64.binade * (binary64.units (lastQuotient m) * binary64.units (powerOrdinal tableEnd))) := by ring
    _ ≤ 2 * binary64.binade *
          ((2 * binary64.binade + 1) * (binary64.units (binary64.natOrdinal m) * binary64.one)) :=
        Nat.mul_le_mul_left _ hquotient
    _ = (2 * binary64.binade + 1) * (2 * binary64.binade * binary64.units (binary64.natOrdinal m)) * binary64.one := by
        ring
    _ ≤ (2 * binary64.binade + 1) * ((2 * binary64.binade + 1) * (m * binary64.one)) * binary64.one :=
        Nat.mul_le_mul_right _ (Nat.mul_le_mul_left _ hwhole)
    _ = (2 * binary64.binade + 1) ^ 2 * (m * binary64.one) * binary64.one := by ring

/-- Nor does the exact one exceed it by more: of the steps of the two roundings at most one is as large as it may be, and
what that leaves is more than the power has been rounded up by. -/
private theorem le_lastQuotient (hpos : 0 < m) (hm : m ≤ tenPow tableEnd)
    (hnormal : binary64.binade * binary64.units (powerOrdinal tableEnd) ≤
      binary64.units (binary64.natOrdinal m) * binary64.one) :
    (2 * binary64.binade) ^ 2 * (m * binary64.one) ≤
      (2 * binary64.binade + 1) ^ 2 * (binary64.units (lastQuotient m) * tenPow tableEnd) := by
  obtain ⟨shift, herror, hgrid, hfull⟩ : ∃ shift,
      2 * (m * binary64.one) ≤ 2 * (binary64.units (binary64.natOrdinal m) * 1) + 1 * twoPow shift ∧
      binary64.binade * (1 * twoPow shift) ≤ m * binary64.one ∧
      binary64.units (binary64.natOrdinal m) ≤ 2 * binary64.binade * twoPow shift :=
    exists_step Nat.zero_lt_one (binade_le_mul_one hpos) (natOrdinal_lt_infinity hm)
  obtain ⟨shift', herror', hgrid', -⟩ : ∃ shift',
      2 * (binary64.units (binary64.natOrdinal m) * binary64.one) ≤
        2 * (binary64.units (lastQuotient m) * binary64.units (powerOrdinal tableEnd)) +
          binary64.units (powerOrdinal tableEnd) * twoPow shift' ∧
      binary64.binade * (binary64.units (powerOrdinal tableEnd) * twoPow shift') ≤
        binary64.units (binary64.natOrdinal m) * binary64.one ∧ _ :=
    exists_step (units_powerOrdinal_pos tableEnd) hnormal (lastQuotient_lt_infinity hm)
  rw [Nat.one_mul] at hgrid
  have hshift : shift' + 1023 ≤ shift := shift_add_le (hgrid'.trans (Nat.mul_le_mul_right _ hfull))
  have hsteps : twoPow shift * binary64.one = twoPow (2097 + shift') ∨
      2 * twoPow (2097 + shift') ≤ twoPow shift * binary64.one := by
    rw [step_mul_one]
    by_cases hlast : shift = shift' + 1023
    · exact .inl (congrArg twoPow (by omega))
    · rw [← twoPow_succ]
      exact .inr (twoPow_le_twoPow (by omega))
  -- the steps are measured against the larger one of the two numbers that are rounded
  obtain ⟨limit, hfirst, hsecond, hlimit⟩ : ∃ limit,
      binary64.binade * (binary64.units (powerOrdinal tableEnd) * twoPow shift') ≤ limit ∧
      binary64.binade * (twoPow shift * binary64.one) ≤ limit ∧
      2 * binary64.binade * limit ≤ (2 * binary64.binade + 1) * (m * binary64.one * binary64.one) := by
    have hexact : binary64.binade * (twoPow shift * binary64.one) ≤ m * binary64.one * binary64.one := by
      rw [← Nat.mul_assoc]
      exact Nat.mul_le_mul_right _ hgrid
    rcases Nat.le_total (binary64.units (binary64.natOrdinal m) * binary64.one) (m * binary64.one * binary64.one)
      with hle | hle
    · exact ⟨_, hgrid'.trans hle, hexact, Nat.mul_le_mul_right _ (Nat.le_succ _)⟩
    · refine ⟨_, hgrid', hexact.trans hle, ?_⟩
      rw [← Nat.mul_assoc, ← Nat.mul_assoc (2 * binary64.binade + 1)]
      exact Nat.mul_le_mul_right _ (units_natOrdinal_le m)
  have hsum := sum_of_steps_le (by decide) (binade_mul_step shift') hsteps hfirst hsecond
  have hclosed : (2 * binary64.binade) ^ 2 * (2 * (2 * binary64.binade) * (lastSteps * binary64.binade)) *
      binary64.units (powerOrdinal tableEnd) ≤ (2 * binary64.binade + 1) ^ 2 *
        ((2 * (2 * binary64.binade) * (lastSteps * binary64.binade) -
          (lastSteps + binary64.binade) * (2 * binary64.binade + 1)) * (tenPow tableEnd * binary64.one)) := by
    decide +kernel
  have hshort : 2 * (m * binary64.one * binary64.one) ≤
      2 * (binary64.units (lastQuotient m) * binary64.units (powerOrdinal tableEnd)) +
        (binary64.units (powerOrdinal tableEnd) * twoPow shift' + twoPow shift * binary64.one) := by
    have hscaled := Nat.mul_le_mul_right binary64.one herror
    rw [Nat.mul_one, Nat.one_mul, Nat.add_mul, Nat.mul_assoc, Nat.mul_assoc 2 (binary64.units _)] at hscaled
    omega
  refine le_of_budget binary64.one_pos (by decide) hclosed hshort ?_
  calc 2 * binary64.binade * (lastSteps * binary64.binade *
        (binary64.units (powerOrdinal tableEnd) * twoPow shift' + twoPow shift * binary64.one))
      ≤ 2 * binary64.binade * ((lastSteps + binary64.binade) * limit) := Nat.mul_le_mul_left _ hsum
    _ = (lastSteps + binary64.binade) * (2 * binary64.binade * limit) := Nat.mul_left_comm ..
    _ ≤ (lastSteps + binary64.binade) * ((2 * binary64.binade + 1) * (m * binary64.one * binary64.one)) :=
        Nat.mul_le_mul_left _ hlimit

/-- Where the quotient by the last power is normal it is only two roundings apart from the exact one, though the power is
rounded too. -/
theorem apart_lastQuotient (hpos : 0 < m) (hm : m ≤ tenPow tableEnd)
    (hnormal : binary64.binade * binary64.units (powerOrdinal tableEnd) ≤
      binary64.units (binary64.natOrdinal m) * binary64.one) :
    Apart (2 * binary64.binade) 2 (binary64.units (lastQuotient m)) 1 (m * binary64.one) (tenPow tableEnd) := by
  constructor
  · rw [Nat.mul_one]
    exact lastQuotient_le hnormal
  · rw [Nat.mul_one]
    exact le_lastQuotient hpos hm hnormal

/-- For small magnitudes four roundings are within two places. -/
private theorem near_of_small (h : binary64.Between k (m * binary64.one) (tenPow tableEnd * tenPow power))
    (hk : k < binary64.infinity) (hsmall : 4 * (k + 1) ≤ 2 * twoPow 50) (hpos : 0 < m) (hm : m ≤ tenPow tableEnd)
    (hpower : power ≤ tableEnd) :
    binary64.divOrdinal (lastQuotient m) (powerOrdinal power) ≤ k + 2 ∧
      k ≤ binary64.divOrdinal (lastQuotient m) (powerOrdinal power) + 2 :=
  h.near_ordinalOf (Nat.le_of_lt hk) (Nat.mul_pos (tenPow_pos _) (tenPow_pos _)) (units_powerOrdinal_pos power)
    (fun _ hle _ => four_roundings_close (by omega)) (apart_small hpos hm hpower)

/-- For other magnitudes the quotient by the last power is normal, and the rest of the power is not rounded. -/
private theorem near_of_large (h : binary64.Between k (m * binary64.one) (tenPow tableEnd * tenPow power))
    (hk : k < binary64.infinity) (hlarge : twoPow 49 ≤ k) (hrest : 0 < power) (hpos : 0 < m) (hm : m ≤ tenPow 20) :
    binary64.divOrdinal (lastQuotient m) (powerOrdinal power) ≤ k + 2 ∧
      k ≤ binary64.divOrdinal (lastQuotient m) (powerOrdinal power) + 2 := by
  have htable : m ≤ tenPow tableEnd := hm.trans (tenPow_le_tenPow (by decide))
  have hbelow : (twoPow 50 - 1) * (tenPow tableEnd * tenPow power) ≤ 2 * (m * binary64.one) := by
    refine (Nat.mul_le_mul_right _ ?_).trans h.low
    have hfirst := binary64.le_units k
    have hbefore := binary64.le_units (k - 1)
    have htwo : twoPow 50 = 2 * twoPow 49 := twoPow_succ 49
    omega
  have hfew : power ≤ 22 := by
    by_contra hmany
    have hpower : tenPow 23 ≤ tenPow power := tenPow_le_tenPow (by omega)
    have hroom : 2 * (tenPow 20 * binary64.one) < (twoPow 50 - 1) * (tenPow tableEnd * tenPow 23) := by decide +kernel
    have hmore := Nat.mul_le_mul_left (twoPow 50 - 1) (Nat.mul_le_mul_left (tenPow tableEnd) hpower)
    have hless := Nat.mul_le_mul_left 2 (Nat.mul_le_mul_right binary64.one hm)
    exact Nat.not_le_of_lt hroom ((hmore.trans hbelow).trans hless)
  have hnormal : binary64.binade * binary64.units (powerOrdinal tableEnd) ≤
      binary64.units (binary64.natOrdinal m) * binary64.one := by
    have hwhole := (apart_natOrdinal hpos htable).ge
    rw [Nat.pow_one, Nat.pow_one, Nat.mul_one, Nat.mul_one] at hwhole
    have hpower : tenPow 1 ≤ tenPow power := tenPow_le_tenPow hrest
    have hten := (Nat.mul_le_mul_left (twoPow 50 - 1) (Nat.mul_le_mul_left (tenPow tableEnd) hpower)).trans hbelow
    have hroom : 2 * (2 * binary64.binade + 1) * (binary64.binade * binary64.units (powerOrdinal tableEnd)) ≤
        2 * binary64.binade * ((twoPow 50 - 1) * (tenPow tableEnd * tenPow 1)) * binary64.one := by decide +kernel
    refine Nat.le_of_mul_le_mul_left (hroom.trans ?_) (Nat.mul_pos (show 0 < 2 by decide) (Nat.succ_pos _))
    calc 2 * binary64.binade * ((twoPow 50 - 1) * (tenPow tableEnd * tenPow 1)) * binary64.one
        ≤ 2 * binary64.binade * (2 * (m * binary64.one)) * binary64.one :=
          Nat.mul_le_mul_right _ (Nat.mul_le_mul_left _ hten)
      _ = 2 * (2 * binary64.binade * (m * binary64.one)) * binary64.one := by ring
      _ ≤ 2 * ((2 * binary64.binade + 1) * binary64.units (binary64.natOrdinal m)) * binary64.one :=
          Nat.mul_le_mul_right _ (Nat.mul_le_mul_left 2 hwhole)
      _ = 2 * (2 * binary64.binade + 1) * (binary64.units (binary64.natOrdinal m) * binary64.one) := by ring
  have hexact : Apart (2 * binary64.binade) 0 binary64.one (binary64.units (powerOrdinal power)) 1 (tenPow power) := by
    refine Apart.of_eq ?_
    rw [units_powerOrdinal hfew]
    ring
  have happart : Apart (2 * binary64.binade) 2
      (binary64.units (lastQuotient m) * binary64.one) (binary64.units (powerOrdinal power))
      (m * binary64.one) (tenPow tableEnd * tenPow power) :=
    ((apart_lastQuotient hpos htable hnormal).mul hexact).congr Nat.zero_lt_one (by ring) (by ring)
  exact h.near_ordinalOf (Nat.le_of_lt hk) (Nat.mul_pos (tenPow_pos _) (tenPow_pos _)) (units_powerOrdinal_pos power)
    (fun _ _ hsteps => two_roundings_close hsteps) happart

/-- **Reading a decimal.**  A decimal that lies between the middles to the neighbours of a double is read as a double that
is at most two places away. -/
theorem near_scaledOrdinal {exponent : Int} (h : binary64.DecimalBetween k m exponent) (hpos : 0 < k)
    (hk : k < binary64.infinity) (hm : m ≤ tenPow 20) :
    scaledOrdinal m exponent ≤ k + 2 ∧ k ≤ scaledOrdinal m exponent + 2 := by
  have htable : m ≤ tenPow tableEnd := hm.trans (tenPow_le_tenPow (by decide))
  have hbetween := h
  unfold DecimalBetween at hbetween
  have hlow : tenPow (-exponent).toNat ≤ 2 * (m * tenPow exponent.toNat * binary64.one) := by
    refine Nat.le_trans (Nat.le_mul_of_pos_left _ ?_) hbetween.low
    exact Nat.add_pos_right _ (units_pos hpos)
  have hm_pos : 0 < m := by
    refine Nat.pos_of_ne_zero fun hzero => ?_
    have := tenPow_pos (-exponent).toNat
    rw [hzero, Nat.zero_mul, Nat.zero_mul] at hlow
    omega
  by_cases hinside : exponent.natAbs ≤ tableEnd
  · exact near_scaledOrdinal_of_table h hk hm_pos htable hinside
  · by_cases hneg : exponent < 0
    · obtain ⟨power, hrest, rfl⟩ : ∃ power : Nat, 0 < power ∧ exponent = -((tableEnd + power : Nat) : Int) :=
        ⟨exponent.natAbs - tableEnd, by omega, by omega⟩
      rw [show (-((tableEnd + power : Nat) : Int)).toNat = 0 by omega,
        show (- -((tableEnd + power : Nat) : Int)).toNat = tableEnd + power by omega, show tenPow 0 = 1 from rfl,
        Nat.mul_one] at hbetween hlow
      have hpower : power ≤ tableEnd := by
        by_contra hmany
        have hmore : tenPow (tableEnd + tableEnd) ≤ tenPow (tableEnd + power) := tenPow_le_tenPow (by omega)
        have hroom : 2 * (tenPow 20 * binary64.one) < tenPow (tableEnd + tableEnd) := by decide +kernel
        have hless := Nat.mul_le_mul_left 2 (Nat.mul_le_mul_right binary64.one hm)
        omega
      rw [tenPow_add] at hbetween
      rw [scaledOrdinal_of_beyond hrest hpower]
      by_cases hsmall : 4 * (k + 1) ≤ 2 * twoPow 50
      · exact near_of_small hbetween hk hsmall hm_pos htable hpower
      · have htwo : twoPow 50 = 2 * twoPow 49 := twoPow_succ 49
        exact near_of_large hbetween hk (by omega) hrest hm_pos hm
    · -- so large a decimal is above all doubles
      exfalso
      have hhigh := hbetween.high
      rw [show (-exponent).toNat = 0 by omega, show tenPow 0 = 1 from rfl, Nat.mul_one] at hhigh
      have hlast := units_le_units (F := binary64) (Nat.le_of_lt hk)
      have hnext := units_le_units (F := binary64) (show k + 1 ≤ binary64.infinity from hk)
      have hpower : tenPow 309 ≤ tenPow exponent.toNat := tenPow_le_tenPow (by unfold tableEnd at hinside; omega)
      have hroom : binary64.units binary64.infinity < tenPow 309 * binary64.one := by decide +kernel
      have hmore := Nat.mul_le_mul_right binary64.one (Nat.mul_le_mul hm_pos hpower)
      rw [Nat.succ_eq_add_one, Nat.zero_add, Nat.one_mul] at hmore
      omega

end PropertyGraph
