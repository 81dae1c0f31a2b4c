import PropertyGraph.Json.Reader
import PropertyGraph.Proofs.Binary.ReadsBack

/-!
# Decimals that stay finite when they are read

A number is read with two or three roundings, so that a decimal that was written for a finite value could be
read as infinity.  It is not: dividing by a rounded power of ten does not enlarge (`divOrdinal_le`), the
roundings before a product leave room up to four steps below the largest double (`scaledOrdinal_lt_of_decimal`),
and the digits of the three doubles above that are known.  The key fact is `scaledOrdinal_shortest64`, with
`scaledOrdinal_shortest32` for single precision.
-/

namespace PropertyGraph

open BinaryFormat Json.Reader Shortest

private theorem binary64_top : twoPow binary64.exponentBits = 2045 + 3 := by decide

private theorem twoPow_2045 : twoPow 2045 = twoPow 971 * binary64.one := by
  rw [one, ← twoPow_add]
  rfl

/-! ### Rounded powers and quotients -/

/-- A whole number is not rounded below a smaller one that is kept. -/
theorem le_units_natOrdinal {k n : Nat} (hk : k ≤ 2 * binary64.binade) (h : k ≤ n) :
    k * binary64.one ≤ binary64.units (binary64.natOrdinal n) := by
  obtain ⟨hunits, hlt⟩ := units_natOrdinal binary64_holdsWholeSteps hk
  have hle : binary64.natOrdinal k ≤ binary64.natOrdinal n := by
    refine le_ordinalOf (by decide) (Nat.le_of_lt hlt) ?_
    rw [hunits, Nat.mul_one]
    exact Nat.mul_le_mul_right _ h
  calc k * binary64.one = binary64.units (binary64.natOrdinal k) := hunits.symm
    _ ≤ binary64.units (binary64.natOrdinal n) := units_le_units hle

theorem one_le_units_natOrdinal {n : Nat} (h : 0 < n) : binary64.one ≤ binary64.units (binary64.natOrdinal n) := by
  have hone := le_units_natOrdinal (k := 1) (by decide) h
  rwa [Nat.one_mul] at hone

/-- Dividing by a magnitude of one or more does not enlarge. -/
theorem divOrdinal_le {F : BinaryFormat} {j k : Nat} (h : F.one ≤ F.units k) : F.divOrdinal j k ≤ j :=
  ordinalOf_le (Nat.lt_of_lt_of_le F.one_pos h) (Nat.mul_le_mul_left _ h)

/-- Multiplying by a magnitude of one or more does not diminish. -/
theorem le_mulOrdinal {F : BinaryFormat} {j k : Nat} (hj : j ≤ F.infinity) (h : F.one ≤ F.units k) :
    j ≤ F.mulOrdinal j k :=
  le_ordinalOf F.one_pos hj (Nat.mul_le_mul_left _ h)

/-- A whole number is normal. -/
theorem binade_le_mul_one {n : Nat} (hpos : 0 < n) : binary64.binade * 1 ≤ n * binary64.one := by
  have hone : binary64.binade ≤ binary64.one := twoPow_le_twoPow (by decide)
  rw [Nat.mul_one]
  exact Nat.le_trans hone (Nat.le_mul_of_pos_left _ hpos)

/-- A whole number is rounded up by at most one part in twice a binade. -/
theorem units_natOrdinal_le (n : Nat) :
    2 * binary64.binade * binary64.units (binary64.natOrdinal n) ≤ (2 * binary64.binade + 1) * (n * binary64.one) := by
  rcases Nat.eq_zero_or_pos n with rfl | hn
  · have hzero := (units_natOrdinal binary64_holdsWholeSteps (n := 0) (by decide)).1
    rw [hzero]
    omega
  · have hle := units_ordinalOf_le (F := binary64) Nat.zero_lt_one (Nat.le_refl _) (binade_le_mul_one hn)
    rwa [Nat.mul_one] at hle

theorem natOrdinal_lt_infinity {n : Nat} (h : n ≤ tenPow tableEnd) : binary64.natOrdinal n < binary64.infinity := by
  refine ordinalOf_lt_infinity binary64_top (by decide) ?_
  have hroom : 2 * tenPow tableEnd < (4 * binary64.binade - 1) * twoPow 971 := by decide +kernel
  have hone := binary64.one_pos
  calc 2 * (n * binary64.one) = 2 * n * binary64.one := by ring
    _ < (4 * binary64.binade - 1) * twoPow 971 * binary64.one :=
        Nat.mul_lt_mul_of_pos_right (by omega) hone
    _ = (4 * binary64.binade - 1) * (1 * twoPow 2045) := by rw [twoPow_2045, Nat.one_mul, Nat.mul_assoc]

/-- The nearest double of a number is finite: the integers have 64 bits. -/
theorem Json.Number.exists_toBinary (n : Json.Number) : ∃ x : Finite64, n.toBinary = .finite x := by
  cases n with
  | double x => exact ⟨x, rfl⟩
  | integer n hfits =>
    have hsize : n.natAbs ≤ tenPow 20 := by
      have : tenPow 20 = 100000000000000000000 := by decide
      omega
    have hfinite := natOrdinal_lt_infinity (hsize.trans (tenPow_le_tenPow (by decide)))
    refine ⟨⟨n < 0, binary64.natOrdinal n.natAbs, hfinite⟩, ?_⟩
    rw [toBinary, Binary.ofInt, Binary.ofOrdinal, dif_pos]

/-! ### Decimals with digits behind the point -/

theorem scaledOrdinal_lt_of_neg {significand : Nat} (h : significand < tenPow 19) {exponent : Int}
    (hneg : exponent < 0) : scaledOrdinal significand exponent < binary64.infinity := by
  have hpower : ∀ power, binary64.one ≤ binary64.units (powerOrdinal power) := fun power =>
    one_le_units_natOrdinal (tenPow_pos power)
  have hwhole := natOrdinal_lt_infinity ((Nat.le_of_lt h).trans (tenPow_le_tenPow (by decide)))
  unfold scaledOrdinal
  dsimp only
  rw [if_neg (by omega)]
  split
  · exact Nat.lt_of_le_of_lt (divOrdinal_le (hpower _)) hwhole
  · split
    · refine Nat.lt_of_le_of_lt (divOrdinal_le (hpower _)) ?_
      exact Nat.lt_of_le_of_lt (divOrdinal_le (hpower _)) hwhole
    · decide +kernel

/-! ### Decimals without digits behind the point -/

/-- What is left of the range of finite magnitudes when both factors of a product have been rounded up. -/
def safeDecimal : Nat := (4 * binary64.binade - 7) * twoPow 971

private theorem square_lt :
    (2 * binary64.binade + 1) * (2 * binary64.binade + 1) * (4 * binary64.binade - 7) <
      2 * binary64.binade * (2 * binary64.binade) * (4 * binary64.binade - 1) := by
  decide +kernel

/-- Two factors that are each enlarged by at most one part in `wide` stay below a limit on their product. -/
private theorem product_lt {wide room limit one scale left right m p : Nat} (hpos : 0 < one * (one * scale))
    (hsquare : (wide + 1) * (wide + 1) * room < wide * wide * limit)
    (hleft : wide * left ≤ (wide + 1) * (m * one)) (hright : wide * right ≤ (wide + 1) * (p * one))
    (h : 2 * (m * p) ≤ room * scale) : 2 * (left * right) < limit * (one * (scale * one)) := by
  have hproduct := Nat.mul_le_mul hleft hright
  refine Nat.lt_of_mul_lt_mul_left (a := wide * wide) ?_
  calc wide * wide * (2 * (left * right)) = 2 * (wide * left * (wide * right)) := by ring
    _ ≤ 2 * ((wide + 1) * (m * one) * ((wide + 1) * (p * one))) := Nat.mul_le_mul_left 2 hproduct
    _ = (wide + 1) * (wide + 1) * (one * one) * (2 * (m * p)) := by ring
    _ ≤ (wide + 1) * (wide + 1) * (one * one) * (room * scale) := Nat.mul_le_mul_left _ h
    _ = (wide + 1) * (wide + 1) * room * (one * (one * scale)) := by ring
    _ < wide * wide * limit * (one * (one * scale)) := Nat.mul_lt_mul_of_pos_right hsquare hpos
    _ = wide * wide * (limit * (one * (scale * one))) := by ring

theorem scaledOrdinal_of_nonneg {significand exponent : Nat} (hexp : exponent ≤ tableEnd) :
    scaledOrdinal significand exponent =
      binary64.mulOrdinal (binary64.natOrdinal significand) (binary64.natOrdinal (tenPow exponent)) := by
  unfold scaledOrdinal
  dsimp only
  rw [if_pos (by omega), if_pos (by omega)]
  rfl

/-- Zeros behind the digits of a whole number do not diminish it. -/
theorem le_scaledOrdinal {significand : Nat} (hpos : 0 < significand) (exponent : Nat) :
    binary64.natOrdinal significand ≤ scaledOrdinal significand exponent := by
  have hfinite : binary64.natOrdinal significand ≤ binary64.infinity := Nat.min_le_left _ _
  by_cases hexp : exponent ≤ tableEnd
  · rw [scaledOrdinal_of_nonneg hexp]
    exact le_mulOrdinal hfinite (one_le_units_natOrdinal (tenPow_pos exponent))
  · have hzero : significand ≠ 0 := Nat.ne_of_gt hpos
    unfold scaledOrdinal
    dsimp only
    rw [if_pos (by omega), if_neg (by omega), if_neg hzero]
    exact hfinite

theorem scaledOrdinal_lt_of_decimal {significand exponent : Nat} (hexp : exponent ≤ tableEnd)
    (h : 2 * (significand * tenPow exponent) ≤ safeDecimal) :
    scaledOrdinal significand exponent < binary64.infinity := by
  have hpos : 0 < binary64.one * (binary64.one * twoPow 971) :=
    Nat.mul_pos binary64.one_pos (Nat.mul_pos binary64.one_pos (twoPow_pos _))
  rw [scaledOrdinal_of_nonneg hexp]
  refine ordinalOf_lt_infinity binary64_top binary64.one_pos ?_
  rw [twoPow_2045]
  exact product_lt hpos square_lt (units_natOrdinal_le significand) (units_natOrdinal_le (tenPow exponent)) h

/-! ### The decimals that are written in double precision -/

private theorem infinity_eq : binary64.infinity = 2046 * binary64.binade + binary64.binade := by
  decide +kernel

theorem leadingExponent_le {ordinal : Nat} (hpos : 0 < ordinal) (hlt : ordinal < binary64.infinity) :
    leadingExponent binary64 (binary64.units ordinal) ≤ 308 := by
  obtain ⟨hlow, -⟩ := leadsAt_leadingExponent (F := binary64) (units_pos hpos)
  generalize leadingExponent binary64 (binary64.units ordinal) = lead at hlow ⊢
  by_contra hbig
  have hunits : binary64.units ordinal < binary64.binade * twoPow 2046 := by
    have := units_lt_units (F := binary64) hlt
    rwa [infinity_eq, binary64.units_binade_add (by omega) (by omega)] at this
  have hpower : binary64.binade * twoPow 2046 ≤ tenPow 309 * binary64.one := by decide +kernel
  have hlead : tenPow 309 * binary64.one ≤ tenPow lead.toNat * binary64.one :=
    Nat.mul_le_mul_right _ (tenPow_le_tenPow (by omega))
  rw [show (-lead).toNat = 0 by omega, show tenPow 0 = 1 from rfl, Nat.mul_one] at hlow
  omega

/-- The doubles from `10 ^ 308` on are in the last binade. -/
private theorem exists_last_binade {ordinal : Nat} (hlt : ordinal < binary64.infinity)
    (hlead : tenPow 308 * binary64.one ≤ binary64.units ordinal) :
    ∃ rest < binary64.binade, ordinal = 2046 * binary64.binade + rest ∧
      binary64.units ordinal = (binary64.binade + rest) * (twoPow 971 * binary64.one) ∧
      binary64.units (ordinal + 1) = (binary64.binade + rest + 1) * (twoPow 971 * binary64.one) := by
  have hge : 2046 * binary64.binade ≤ ordinal := by
    by_contra hsmall
    have hunits := units_lt_units (F := binary64) (Nat.lt_of_not_le hsmall)
    rw [show 2046 * binary64.binade = 2045 * binary64.binade + binary64.binade by ring,
      binary64.units_binade_add (by omega) (by omega)] at hunits
    have hpower : binary64.binade * twoPow 2045 ≤ tenPow 308 * binary64.one := by decide +kernel
    omega
  obtain ⟨rest, rfl⟩ : ∃ rest, ordinal = 2046 * binary64.binade + rest :=
    ⟨ordinal - 2046 * binary64.binade, by omega⟩
  rw [infinity_eq] at hlt
  have hrest : rest < binary64.binade := by omega
  refine ⟨rest, hrest, rfl, ?_, ?_⟩
  · rw [show 2046 * binary64.binade + rest = 2045 * binary64.binade + (binary64.binade + rest) by ring,
      binary64.units_binade_add (by omega) (by omega), twoPow_2045]
  · rw [show 2046 * binary64.binade + rest + 1 = 2045 * binary64.binade + (binary64.binade + rest + 1) by ring,
      binary64.units_binade_add (by omega) (by omega), twoPow_2045]

/-- The decimal of a double is not above the middle between it and the next one. -/
theorem two_mul_decimal_le {ordinal : Nat} (hpos : 0 < ordinal) {last : Nat}
    (hlast : (binary64.shortest .even ordinal).lastExponent = last) :
    2 * (Decimal.value (binary64.shortest .even ordinal).digits * tenPow last) * binary64.one ≤
      binary64.units ordinal + binary64.units (ordinal + 1) := by
  have hbetween := decimalBetween_shortest (F := binary64) (by decide) .even hpos
  rw [hlast] at hbetween
  have hhigh := hbetween.high
  rwa [Int.toNat_natCast, show (-(last : Int)).toNat = 0 by omega, show tenPow 0 = 1 from rfl, Nat.mul_one,
    ← Nat.mul_assoc] at hhigh

private theorem value_shortest_pos {F : BinaryFormat} (tie : Tie) {ordinal : Nat} (h : 0 < ordinal) :
    0 < Decimal.value (F.shortest tie ordinal).digits := by
  obtain ⟨hspelled, -⟩ := shortest_spec (F := F) tie h
  cases hd : (F.shortest tie ordinal).digits with
  | nil => exact absurd hd hspelled.ne_nil
  | cons c s =>
    have hc : c.isDigit = true := hspelled.isDigit c (hd ▸ List.mem_cons_self ..)
    have hne : Decimal.digitValue c ≠ 0 := by
      intro hzero
      refine hspelled.head?_ne ?_
      rw [hd, Decimal.eq_zero_of_digitValue hc hzero]
      rfl
    rw [Decimal.value_cons]
    have := Nat.mul_pos (Nat.pos_of_ne_zero hne) (tenPow_pos s.length)
    omega

/-- A positive whole decimal with at most 309 digits has a last digit in the table of powers. -/
private theorem exponent_le_tableEnd {value exponent : Nat} (hpos : 0 < value)
    (h : value * tenPow exponent < tenPow 309) : exponent ≤ tableEnd := by
  by_contra hge
  have hpow : tenPow 309 ≤ tenPow exponent := tenPow_le_tenPow (Nat.lt_of_not_le hge)
  have := Nat.le_mul_of_pos_left (tenPow exponent) hpos
  omega

/-- The three largest doubles, whose digits are found by the search itself. -/
private theorem scaledOrdinal_lt_of_found (found : Nat) {ordinal : Nat} (hpos : 0 < ordinal)
    (hlead : leadingExponent binary64 (binary64.units ordinal) = 308)
    (hsearch : search binary64 .even ordinal 16 308 = (found, 292)) (hfound : found % 10 ≠ 0)
    (hscaled : scaledOrdinal found 292 < binary64.infinity) {last : Nat}
    (hlast : (binary64.shortest .even ordinal).lastExponent = last) :
    scaledOrdinal (Decimal.value (binary64.shortest .even ordinal).digits) last < binary64.infinity := by
  obtain ⟨-, zeros, hvalue, hexp⟩ := shortest_spec (F := binary64) .even hpos
  rw [hlead, hsearch] at hvalue hexp
  dsimp only at hvalue hexp
  have hzeros : zeros = 0 := by
    by_contra hne
    obtain ⟨k, rfl⟩ := Nat.exists_eq_succ_of_ne_zero hne
    rw [Nat.succ_eq_add_one, tenPow_succ, ← Nat.mul_assoc] at hvalue
    omega
  subst hzeros
  rw [show tenPow 0 = 1 from rfl, Nat.mul_one] at hvalue
  rw [hlast] at hexp
  obtain rfl : last = 292 := by omega
  rw [hvalue]
  exact hscaled

/-- The digits of a double, followed by zeros up to the point, are read as a finite double. -/
theorem scaledOrdinal_shortest64 {ordinal : Nat} (hpos : 0 < ordinal) (hlt : ordinal < binary64.infinity)
    {last : Nat} (hlast : (binary64.shortest .even ordinal).lastExponent = last) :
    scaledOrdinal (Decimal.value (binary64.shortest .even ordinal).digits) last < binary64.infinity := by
  have hvalue := value_shortest_pos (F := binary64) .even hpos
  have hle := leadingExponent_le hpos hlt
  have hbound := decimal_le_tenPow (F := binary64) .even hpos hlast
  by_cases hlead : leadingExponent binary64 (binary64.units ordinal) = 308
  · obtain ⟨rest, hrest, rfl, hunits, hnext⟩ := exists_last_binade hlt (by
      have hleads := leadsAt_leadingExponent (F := binary64) (units_pos (F := binary64) hpos)
      rw [hlead] at hleads
      exact @LeadsAt.tenPow_le binary64 _ 308 hleads)
    -- rounding the two factors up can take the product past the last double only for the three largest ones
    by_cases htop : rest + 3 < binary64.binade
    · have hdecimal := two_mul_decimal_le hpos hlast
      have hsafe : 2 * (Decimal.value (binary64.shortest .even
          (2046 * binary64.binade + rest)).digits * tenPow last) ≤ safeDecimal := by
        refine Nat.le_of_mul_le_mul_right ?_ binary64.one_pos
        refine hdecimal.trans ?_
        rw [hunits, hnext, ← Nat.add_mul, safeDecimal, Nat.mul_assoc]
        exact Nat.mul_le_mul_right _ (by omega)
      refine scaledOrdinal_lt_of_decimal ?_ hsafe
      have hroom : safeDecimal < 2 * tenPow 309 := by decide +kernel
      exact exponent_le_tableEnd hvalue (by omega)
    · have hlast3 : rest = binary64.binade - 1 ∨ rest = binary64.binade - 2 ∨ rest = binary64.binade - 3 := by
        omega
      rcases hlast3 with rfl | rfl | rfl
      · exact scaledOrdinal_lt_of_found 17976931348623157 hpos hlead (by decide +kernel) (by decide)
          (by decide +kernel) hlast
      · exact scaledOrdinal_lt_of_found 17976931348623155 hpos hlead (by decide +kernel) (by decide)
          (by decide +kernel) hlast
      · exact scaledOrdinal_lt_of_found 17976931348623153 hpos hlead (by decide +kernel) (by decide)
          (by decide +kernel) hlast
  · have hdecimal : Decimal.value (binary64.shortest .even ordinal).digits * tenPow last ≤ tenPow 308 :=
      hbound.trans (tenPow_le_tenPow (by omega))
    have hroom : 2 * tenPow 308 ≤ safeDecimal := by decide +kernel
    refine scaledOrdinal_lt_of_decimal ?_ (by omega)
    have hten : tenPow 308 < tenPow 309 := by decide +kernel
    exact exponent_le_tableEnd hvalue (by omega)

/-- The digits of a value in single precision, followed by zeros up to the point, are read as a finite
double. -/
theorem scaledOrdinal_shortest32 {ordinal : Nat} (hpos : 0 < ordinal) (hlt : ordinal < binary32.infinity)
    {last : Nat} (hlast : (binary32.shortest .even ordinal).lastExponent = last) :
    scaledOrdinal (Decimal.value (binary32.shortest .even ordinal).digits) last < binary64.infinity := by
  have hvalue := value_shortest_pos (F := binary32) .even hpos
  have hlead : leadingExponent binary32 (binary32.units ordinal) ≤ 39 := by
    obtain ⟨hlow, -⟩ := leadsAt_leadingExponent (F := binary32) (units_pos hpos)
    generalize leadingExponent binary32 (binary32.units ordinal) = lead at hlow ⊢
    by_contra hbig
    have hunits := units_lt_units (F := binary32) hlt
    have hpower : binary32.units binary32.infinity ≤ tenPow 40 * binary32.one := by decide +kernel
    have hlarge : tenPow 40 * binary32.one ≤ tenPow lead.toNat * binary32.one :=
      Nat.mul_le_mul_right _ (tenPow_le_tenPow (by omega))
    rw [show (-lead).toNat = 0 by omega, show tenPow 0 = 1 from rfl, Nat.mul_one] at hlow
    omega
  have hdecimal : Decimal.value (binary32.shortest .even ordinal).digits * tenPow last ≤ tenPow 40 :=
    (decimal_le_tenPow (F := binary32) .even hpos hlast).trans (tenPow_le_tenPow (by omega))
  have hroom : 2 * tenPow 40 ≤ safeDecimal := by decide +kernel
  refine scaledOrdinal_lt_of_decimal ?_ (by omega)
  have hten : tenPow 40 < tenPow 309 := by decide +kernel
  exact exponent_le_tableEnd hvalue (by omega)

end PropertyGraph
