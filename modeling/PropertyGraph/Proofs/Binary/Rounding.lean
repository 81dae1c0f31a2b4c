import Mathlib.Tactic.Linarith
import Mathlib.Tactic.Ring
import PropertyGraph.Binary.Rounding

/-!
# What rounding does to a magnitude

A quotient is rounded on the grid of the binade that it falls into.  The key facts: the rounded magnitude is
a whole number of grid steps within half a step of the quotient (`exists_ordinalOf`), integers of at most as
many bits as the fraction are kept (`units_natOrdinal`, `ofInt_eq_finite`), no other magnitude is nearer
(`exists_roundsTo`), so rounding passes no magnitude that the quotient does not pass (`ordinalOf_le`,
`le_ordinalOf`), a rounded magnitude and the quotient exceed each other by at most one part in `2 ^ 53`
(`units_ordinalOf_le`, `le_units_ordinalOf`), and it is infinite exactly from the middle between the largest
magnitude and the next power of two on (`ordinalOf_lt_infinity`, `ordinalOf_eq_infinity`).
-/

namespace PropertyGraph

theorem twoPow_le_twoPow {m n : Nat} (h : m ≤ n) : twoPow m ≤ twoPow n :=
  Nat.pow_le_pow_right (by decide) h

/-! ### The rounded quotient -/

/-- The rounded quotient stays below a whole number that the quotient does not exceed. -/
theorem divEven_le {n d k : Nat} (hd : 0 < d) (h : n ≤ k * d) : divEven n d ≤ k := by
  have hbound := two_mul_divEven_le n d
  by_contra hlt
  have hstep : (k + 1) * d ≤ divEven n d * d := Nat.mul_le_mul_right d (by omega)
  rw [Nat.add_mul, Nat.one_mul] at hstep
  omega

/-- The rounded quotient reaches a whole number that the quotient reaches. -/
theorem le_divEven {n d k : Nat} (hd : 0 < d) (h : k * d ≤ n) : k ≤ divEven n d := by
  have hbound := le_two_mul_divEven n d hd
  by_contra hlt
  have hstep : (divEven n d + 1) * d ≤ k * d := Nat.mul_le_mul_right d (by omega)
  rw [Nat.add_mul, Nat.one_mul] at hstep
  omega

/-- From half a unit below a whole number on a quotient is rounded to the number, if the number is even. -/
theorem le_divEven_of_half {n d k : Nat} (hd : 0 < d) (heven : k % 2 = 0) (h : 2 * (k * d) ≤ 2 * n + d) :
    k ≤ divEven n d := by
  have hsplit := Nat.div_add_mod n d
  rw [Nat.mul_comm] at hsplit
  have hmod := Nat.mod_lt n hd
  by_cases hlow : k ≤ n / d
  · refine Nat.le_trans hlow ?_
    unfold divEven
    dsimp only
    split <;> omega
  · -- the quotient is in the upper half of the last unit before the number
    have hlast : k = n / d + 1 := by
      by_contra hfar
      have hstep : (n / d + 2) * d ≤ k * d := Nat.mul_le_mul_right d (by omega)
      rw [Nat.add_mul] at hstep
      omega
    have hhalf : d ≤ 2 * (n % d) := by
      rw [hlast, Nat.add_mul, Nat.one_mul] at h
      omega
    have hodd : n / d % 2 = 1 := by omega
    have hup : d < 2 * (n % d) ∨ 2 * (n % d) = d := by omega
    rw [hlast]
    unfold divEven
    simp [hup, hodd]

/-- A quotient that is half a unit away from what it is rounded to is rounded to an even number. -/
theorem divEven_even_of_half {n d : Nat} (hd : 0 < d)
    (h : 2 * (divEven n d * d) = 2 * n + d ∨ 2 * n = 2 * (divEven n d * d) + d) : divEven n d % 2 = 0 := by
  have hsplit := Nat.div_add_mod n d
  rw [Nat.mul_comm] at hsplit
  have hmod := Nat.mod_lt n hd
  unfold divEven at h ⊢
  dsimp only at h ⊢
  by_cases hup : (d < 2 * (n % d) || (2 * (n % d) == d && n / d % 2 == 1)) = true
  · rw [if_pos hup] at h ⊢
    rw [Nat.add_mul, Nat.one_mul] at h
    simp only [Bool.or_eq_true, decide_eq_true_eq, Bool.and_eq_true, beq_iff_eq] at hup
    omega
  · rw [if_neg hup] at h ⊢
    simp only [Bool.or_eq_true, decide_eq_true_eq, Bool.and_eq_true, beq_iff_eq] at hup
    omega

namespace BinaryFormat

variable (F : BinaryFormat)

/-- The magnitude of an ordinal that is put together from a binade and a number of steps on its grid.  The
steps may also fill the binade. -/
theorem units_binade_add {shift steps : Nat} (hsteps : steps ≤ 2 * F.binade)
    (hshift : shift = 0 ∨ F.binade ≤ steps) :
    F.units (shift * F.binade + steps) = steps * twoPow shift := by
  have hpos := F.binade_pos
  unfold units
  by_cases hsmall : steps < F.binade
  · obtain rfl : shift = 0 := by omega
    simp [hsmall, twoPow_zero]
  · rw [if_neg (by omega)]
    by_cases hfull : steps = 2 * F.binade
    · subst hfull
      have hdiv : (shift * F.binade + 2 * F.binade) / F.binade = shift + 2 := by
        rw [← Nat.add_mul, Nat.mul_div_cancel _ hpos]
      have hmod : (shift * F.binade + 2 * F.binade) % F.binade = 0 := by
        rw [← Nat.add_mul, Nat.mul_mod_left]
      rw [hdiv, hmod, show shift + 2 - 1 = shift + 1 from rfl, twoPow_succ]
      ring
    · obtain ⟨extra, rfl⟩ : ∃ extra, steps = F.binade + extra := ⟨steps - F.binade, by omega⟩
      have hsum : shift * F.binade + (F.binade + extra) = F.binade * (shift + 1) + extra := by ring
      rw [hsum, Nat.mul_add_div hpos, Nat.mul_add_mod, Nat.div_eq_of_lt (by omega),
        Nat.mod_eq_of_lt (by omega)]
      rfl

/-- What is known of a rounded quotient: its ordinal, unless that of infinity is smaller, is that of a number
of steps on the grid of the quotient's binade, and the quotient is within half a step of it. -/
theorem exists_ordinalOf (n : Nat) {d : Nat} (hd : 0 < d) :
    ∃ shift steps, F.ordinalOf n d = min F.infinity (shift * F.binade + steps) ∧
      F.units (shift * F.binade + steps) = steps * twoPow shift ∧ steps = divEven n (d * twoPow shift) ∧
      shift = Nat.log2 (n / d) - F.fractionBits ∧ steps ≤ 2 * F.binade ∧
      n < 2 * F.binade * (d * twoPow shift) ∧ (shift = 0 ∨ F.binade * (d * twoPow shift) ≤ n) := by
  let shift := Nat.log2 (n / d) - F.fractionBits
  have hgrid : 0 < d * twoPow shift := Nat.mul_pos hd (twoPow_pos _)
  have hbelow : n < 2 * F.binade * (d * twoPow shift) := by
    have hlog : n / d < twoPow (Nat.log2 (n / d) + 1) := Nat.lt_log2_self
    have hle : twoPow (Nat.log2 (n / d) + 1) ≤ 2 * F.binade * twoPow shift := by
      rw [binade, ← twoPow_succ, ← twoPow_add]
      exact twoPow_le_twoPow (by omega)
    have hlt := (Nat.div_lt_iff_lt_mul hd).1 (Nat.lt_of_lt_of_le hlog hle)
    calc n < 2 * F.binade * twoPow shift * d := hlt
      _ = 2 * F.binade * (d * twoPow shift) := by ring
  have habove : shift = 0 ∨ F.binade * (d * twoPow shift) ≤ n := by
    by_cases hzero : shift = 0
    · exact .inl hzero
    · right
      have hquot : n / d ≠ 0 := by
        intro h
        have : shift = Nat.log2 (n / d) - F.fractionBits := rfl
        rw [h] at this
        simp at this
        exact hzero this
      have hlog : twoPow (Nat.log2 (n / d)) ≤ n / d := Nat.log2_self_le hquot
      have hexp : Nat.log2 (n / d) = F.fractionBits + shift := by omega
      rw [hexp, twoPow_add] at hlog
      calc F.binade * (d * twoPow shift) = twoPow F.fractionBits * twoPow shift * d := by rw [binade]; ring
        _ ≤ n := (Nat.le_div_iff_mul_le hd).1 hlog
  have hsteps : divEven n (d * twoPow shift) ≤ 2 * F.binade := divEven_le hgrid (by omega)
  refine ⟨shift, divEven n (d * twoPow shift), rfl, ?_, rfl, rfl, hsteps, hbelow, habove⟩
  refine F.units_binade_add hsteps ?_
  rcases habove with h | h
  · exact .inl h
  · exact .inr (le_divEven hgrid h)

/-! ### Whole numbers that are kept -/

/-- A format whose exponents reach far enough for its own whole numbers: every step count up to twice a
binade is the magnitude of a finite value. -/
def HoldsWholeSteps : Prop := F.scale + 4 < twoPow F.exponentBits

theorem binary64_holdsWholeSteps : binary64.HoldsWholeSteps := by
  unfold HoldsWholeSteps
  decide

variable {F}

/-- A whole number with as many bits as the fraction has, or one bit more, keeps its magnitude. -/
theorem units_natOrdinal (hF : F.HoldsWholeSteps) {n : Nat} (hn : n ≤ 2 * F.binade) :
    F.units (F.natOrdinal n) = n * F.one ∧ F.natOrdinal n < F.infinity := by
  have hpos := F.binade_pos
  obtain ⟨shift, steps, hordinal, hunits, hsteps, -, hle, -, hshift⟩ := F.exists_ordinalOf (n * F.one) (d := 1)
    (by decide)
  rw [Nat.one_mul] at hsteps hshift
  have hshift_le : shift ≤ F.scale + 1 := by
    by_contra hlt
    have hpow : twoPow (F.scale + 2) ≤ twoPow shift := twoPow_le_twoPow (by omega)
    have hone : n * F.one ≤ 2 * F.binade * F.one := Nat.mul_le_mul_right _ hn
    have hgrid := hshift.resolve_left (by omega)
    have hbig := Nat.mul_le_mul_left F.binade hpow
    rw [twoPow_succ, twoPow_succ, show twoPow F.scale = F.one from rfl] at hbig
    have : 0 < F.binade * F.one := Nat.mul_pos hpos F.one_pos
    nlinarith
  -- the grid is no finer than the number: the steps come out whole
  have hdvd : twoPow shift ∣ n * F.one := by
    rcases Nat.lt_or_ge shift (F.scale + 1) with hlt | hge
    · have hpow : twoPow shift ∣ F.one := Nat.pow_dvd_pow 2 (by omega)
      exact Dvd.dvd.mul_left hpow n
    · obtain rfl : shift = F.scale + 1 := by omega
      have hgrid := hshift.resolve_left (by omega)
      rw [twoPow_succ, show twoPow F.scale = F.one from rfl] at hgrid ⊢
      have hfull : n = 2 * F.binade := by
        refine Nat.le_antisymm hn (Nat.le_of_mul_le_mul_right ?_ F.one_pos)
        calc 2 * F.binade * F.one = F.binade * (2 * F.one) := by ring
          _ ≤ n * F.one := hgrid
      exact ⟨F.binade, by rw [hfull]; ring⟩
  obtain ⟨count, hcount⟩ := hdvd
  have hkept : steps = count := by rw [hsteps, hcount, divEven_mul_left _ _ (twoPow_pos _)]
  have hfits : shift * F.binade + steps < F.infinity := by
    have hsum : shift * F.binade + steps ≤ (F.scale + 3) * F.binade := by
      have := Nat.mul_le_mul_right F.binade hshift_le
      have hring : (F.scale + 3) * F.binade = (F.scale + 1) * F.binade + 2 * F.binade := by ring
      omega
    refine Nat.lt_of_le_of_lt hsum (Nat.mul_lt_mul_of_pos_right ?_ hpos)
    unfold HoldsWholeSteps at hF
    omega
  have hkeep : F.natOrdinal n = shift * F.binade + steps := by
    rw [natOrdinal, hordinal, Nat.min_eq_right (Nat.le_of_lt hfits)]
  rw [hkeep]
  refine ⟨?_, hfits⟩
  rw [hunits, hkept, hcount, Nat.mul_comm]

/-! ### The nearest magnitude -/

theorem units_le_units {j k : Nat} (h : j ≤ k) : F.units j ≤ F.units k := by
  rcases Nat.lt_or_eq_of_le h with h | rfl
  · exact Nat.le_of_lt (units_lt_units h)
  · exact Nat.le_refl _

/-- An ordinal is the one that a quotient is rounded to: the quotient is not beyond the middle between its magnitude
and any other one, and in the middle only if the ordinal is even. -/
structure RoundsTo (F : BinaryFormat) (n d ordinal : Nat) : Prop where
  below : ∀ k < ordinal, F.units k * d + F.units ordinal * d ≤ 2 * n
  above : ∀ k, ordinal < k → 2 * n ≤ F.units ordinal * d + F.units k * d
  even : F.binade % 2 = 0 → ∀ k ≠ ordinal, F.units k * d + F.units ordinal * d = 2 * n → ordinal % 2 = 0

/-- What is rounded is the quotient, before the ordinals end with that of infinity. -/
theorem exists_roundsTo (n : Nat) {d : Nat} (hd : 0 < d) :
    ∃ ordinal, F.ordinalOf n d = min F.infinity ordinal ∧ F.RoundsTo n d ordinal := by
  obtain ⟨shift, steps, hordinal, hunits, hsteps, -, hle, hbelow, hshift⟩ := F.exists_ordinalOf n hd
  have hgrid : 0 < d * twoPow shift := Nat.mul_pos hd (twoPow_pos _)
  have hlow := two_mul_divEven_le n (d * twoPow shift)
  have hhigh := le_two_mul_divEven n (d * twoPow shift) hgrid
  have heven := divEven_even_of_half (n := n) hgrid
  rw [← hsteps] at hlow hhigh heven
  have hself : F.units (shift * F.binade + steps) * d = steps * (d * twoPow shift) := by
    rw [hunits]
    ring
  have hwhole (k : Nat) : k * twoPow shift * d = k * (d * twoPow shift) := by ring
  have hdown (k : Nat) (hk : k < shift * F.binade + steps) :
      F.units k * d + F.units (shift * F.binade + steps) * d ≤ 2 * n ∧
        (F.units k * d + F.units (shift * F.binade + steps) * d = 2 * n → steps % 2 = 0) := by
    have hlt : F.units k * d < F.units (shift * F.binade + steps) * d :=
      Nat.mul_lt_mul_of_pos_right (units_lt_units hk) hd
    by_cases hgap : shift = 0 ∨ F.binade < steps
    · have hone : 1 ≤ steps := by
        rcases hgap with rfl | hgap
        · omega
        · have hpos := F.binade_pos
          omega
      -- the magnitude before is a whole step away, and the quotient only half a step
      have hbefore : F.units (shift * F.binade + steps - 1) = (steps - 1) * twoPow shift := by
        rw [show shift * F.binade + steps - 1 = shift * F.binade + (steps - 1) by omega]
        exact F.units_binade_add (by omega) (by omega)
      have hunder : F.units k * d ≤ (steps - 1) * (d * twoPow shift) := by
        rw [← hwhole, ← hbefore]
        exact Nat.mul_le_mul_right d (units_le_units (by omega))
      have hstep : steps * (d * twoPow shift) = (steps - 1) * (d * twoPow shift) + d * twoPow shift := by
        rw [← Nat.succ_mul, Nat.succ_eq_add_one, Nat.sub_add_cancel hone]
      rw [hself]
      exact ⟨by omega, fun h => heven (.inl (by omega))⟩
    · -- the magnitude is a power of two, which the quotient reaches
      have hreach := hshift.resolve_left (by omega)
      have hfew : steps * (d * twoPow shift) ≤ F.binade * (d * twoPow shift) := Nat.mul_le_mul_right _ (by omega)
      rw [hself] at hlt ⊢
      exact ⟨by omega, by omega⟩
  have hup (k : Nat) (hk : shift * F.binade + steps < k) :
      2 * n ≤ F.units (shift * F.binade + steps) * d + F.units k * d ∧
        (F.units k * d + F.units (shift * F.binade + steps) * d = 2 * n → steps % 2 = 0) := by
    have hlt : F.units (shift * F.binade + steps) * d < F.units k * d :=
      Nat.mul_lt_mul_of_pos_right (units_lt_units hk) hd
    by_cases hfull : steps < 2 * F.binade
    · have hafter : F.units (shift * F.binade + steps + 1) = (steps + 1) * twoPow shift := by
        have hmany : shift = 0 ∨ F.binade ≤ steps + 1 := by
          rcases hshift with h | h
          · exact .inl h
          · exact .inr (Nat.le_succ_of_le (hsteps ▸ le_divEven hgrid h))
        rw [Nat.add_assoc]
        exact F.units_binade_add (by omega) hmany
      have hover : (steps + 1) * (d * twoPow shift) ≤ F.units k * d := by
        rw [← hwhole, ← hafter]
        exact Nat.mul_le_mul_right d (units_le_units (by omega))
      rw [Nat.add_mul, Nat.one_mul] at hover
      rw [hself]
      exact ⟨by omega, fun h => heven (.inr (by omega))⟩
    · -- the steps fill the binade, which the quotient does not
      obtain rfl : steps = 2 * F.binade := by omega
      rw [hself] at hlt ⊢
      exact ⟨by omega, by omega⟩
  refine ⟨shift * F.binade + steps, hordinal, fun k hk => (hdown k hk).1, fun k hk => (hup k hk).1, ?_⟩
  intro hbinade k hk htie
  have hsteps_even : steps % 2 = 0 := by
    rcases Nat.lt_or_gt_of_ne hk with hk | hk
    · exact (hdown k hk).2 htie
    · exact (hup k hk).2 htie
  have hrow : shift * F.binade % 2 = 0 := by rw [Nat.mul_mod, hbinade, Nat.mul_zero, Nat.zero_mod]
  omega

/-! ### Bounds on a rounded magnitude -/

/-- Rounding never passes a magnitude that the quotient does not exceed. -/
theorem ordinalOf_le {n d k : Nat} (hd : 0 < d) (h : n ≤ F.units k * d) : F.ordinalOf n d ≤ k := by
  obtain ⟨ordinal, hordinal, hrounds⟩ := F.exists_roundsTo n hd
  refine Nat.le_trans (hordinal ▸ Nat.min_le_right _ _) ?_
  by_contra hlt
  have hmiddle := hrounds.below k (Nat.lt_of_not_le hlt)
  have hless := Nat.mul_lt_mul_of_pos_right (units_lt_units (F := F) (Nat.lt_of_not_le hlt)) hd
  omega

/-- Rounding reaches every magnitude of a finite value that the quotient reaches. -/
theorem le_ordinalOf {n d k : Nat} (hd : 0 < d) (hk : k ≤ F.infinity) (h : F.units k * d ≤ n) :
    k ≤ F.ordinalOf n d := by
  obtain ⟨ordinal, hordinal, hrounds⟩ := F.exists_roundsTo n hd
  rw [hordinal]
  refine Nat.le_min.2 ⟨hk, ?_⟩
  by_contra hlt
  have hmiddle := hrounds.above k (Nat.lt_of_not_le hlt)
  have hless := Nat.mul_lt_mul_of_pos_right (units_lt_units (F := F) (Nat.lt_of_not_le hlt)) hd
  omega

/-- A rounded magnitude exceeds the quotient by at most half a step, and the quotient has a number of steps. -/
theorem units_ordinalOf_le {n d few : Nat} (hd : 0 < d) (hfew : few ≤ F.binade) (hn : few * d ≤ n) :
    2 * few * (F.units (F.ordinalOf n d) * d) ≤ (2 * few + 1) * n := by
  obtain ⟨shift, steps, hordinal, hunits, hsteps, -, -, -, hshift⟩ := F.exists_ordinalOf n hd
  have hgrid : few * (d * twoPow shift) ≤ n := by
    rcases hshift with rfl | h
    · rwa [twoPow_zero, Nat.mul_one]
    · exact Nat.le_trans (Nat.mul_le_mul_right _ hfew) h
  have hround := two_mul_divEven_le n (d * twoPow shift)
  rw [← hsteps] at hround
  have hmin : F.units (F.ordinalOf n d) ≤ steps * twoPow shift := by
    rw [hordinal, ← hunits]
    exact units_le_units (Nat.min_le_right _ _)
  calc 2 * few * (F.units (F.ordinalOf n d) * d)
      ≤ 2 * few * (steps * twoPow shift * d) :=
        Nat.mul_le_mul_left _ (Nat.mul_le_mul_right _ hmin)
    _ = few * (2 * (steps * (d * twoPow shift))) := by ring
    _ ≤ few * (2 * n + d * twoPow shift) := Nat.mul_le_mul_left _ hround
    _ = 2 * few * n + few * (d * twoPow shift) := by ring
    _ ≤ (2 * few + 1) * n := by rw [Nat.add_mul, Nat.one_mul]; omega

/-- The quotient exceeds the rounded magnitude by as little, unless that is infinite. -/
theorem le_units_ordinalOf {n d few : Nat} (hd : 0 < d) (hfew : few ≤ F.binade) (hn : few * d ≤ n)
    (hfinite : F.ordinalOf n d < F.infinity) : 2 * few * n ≤ (2 * few + 1) * (F.units (F.ordinalOf n d) * d) := by
  obtain ⟨shift, steps, hordinal, hunits, hsteps, -, -, -, hshift⟩ := F.exists_ordinalOf n hd
  have hgrid : 0 < d * twoPow shift := Nat.mul_pos hd (twoPow_pos _)
  have hmany : few ≤ steps := by
    rw [hsteps]
    refine le_divEven hgrid ?_
    rcases hshift with rfl | h
    · rwa [twoPow_zero, Nat.mul_one]
    · exact Nat.le_trans (Nat.mul_le_mul_right _ hfew) h
  have hround := le_two_mul_divEven n (d * twoPow shift) hgrid
  rw [← hsteps] at hround
  have hkept : F.ordinalOf n d = shift * F.binade + steps := by omega
  rw [hkept, hunits]
  calc 2 * few * n = few * (2 * n) := by ring
    _ ≤ few * (2 * (steps * (d * twoPow shift)) + d * twoPow shift) := Nat.mul_le_mul_left _ hround
    _ = 2 * few * (steps * twoPow shift * d) + few * (d * twoPow shift) := by ring
    _ ≤ 2 * few * (steps * twoPow shift * d) + steps * (d * twoPow shift) :=
        Nat.add_le_add_left (Nat.mul_le_mul_right _ hmany) _
    _ = (2 * few + 1) * (steps * twoPow shift * d) := by ring

theorem infinity_eq_of_top {top : Nat} (htop : twoPow F.exponentBits = top + 3) :
    F.infinity = (top + 2) * F.binade := by
  rw [infinity, htop, show top + 3 - 1 = top + 2 from rfl]

/-- A quotient below the middle between the largest finite magnitude and the next power of two is rounded to
a finite magnitude. -/
theorem ordinalOf_lt_infinity {top : Nat} (htop : twoPow F.exponentBits = top + 3) {n d : Nat} (hd : 0 < d)
    (hn : 2 * n < (4 * F.binade - 1) * (d * twoPow top)) : F.ordinalOf n d < F.infinity := by
  have hpos := F.binade_pos
  obtain ⟨shift, steps, hordinal, -, hsteps, -, hle, -, hshift⟩ := F.exists_ordinalOf n hd
  refine Nat.lt_of_le_of_lt (hordinal ▸ Nat.min_le_right _ _) ?_
  rw [infinity_eq_of_top htop]
  rcases Nat.lt_trichotomy shift top with hlt | rfl | hgt
  · have hrow : (shift + 1) * F.binade ≤ top * F.binade := Nat.mul_le_mul_right _ hlt
    rw [Nat.add_mul] at hrow ⊢
    omega
  · have hround := two_mul_divEven_le n (d * twoPow shift)
    rw [← hsteps] at hround
    have hfew : steps < 2 * F.binade := by
      have hgrid : 0 < d * twoPow shift := Nat.mul_pos hd (twoPow_pos _)
      by_contra hge
      have hmany : 2 * F.binade * (d * twoPow shift) ≤ steps * (d * twoPow shift) :=
        Nat.mul_le_mul_right _ (by omega)
      rw [Nat.sub_mul, Nat.one_mul, show 4 * F.binade = 2 * (2 * F.binade) by ring, Nat.mul_assoc 2] at hn
      omega
    rw [Nat.add_mul]
    omega
  · have hgrid := hshift.resolve_left (by omega)
    have hpow : 2 * twoPow top ≤ twoPow shift := by
      rw [← twoPow_succ]
      exact twoPow_le_twoPow hgt
    have hlow : F.binade * (d * (2 * twoPow top)) ≤ n :=
      Nat.le_trans (Nat.mul_le_mul_left _ (Nat.mul_le_mul_left _ hpow)) hgrid
    rw [Nat.sub_mul, Nat.one_mul] at hn
    have : F.binade * (d * (2 * twoPow top)) * 2 = 4 * F.binade * (d * twoPow top) := by ring
    omega

/-- From the middle between the largest finite magnitude and the next power of two on a quotient is rounded to
infinity. -/
theorem ordinalOf_eq_infinity {top : Nat} (htop : twoPow F.exponentBits = top + 3) {n d : Nat} (hd : 0 < d)
    (hn : (4 * F.binade - 1) * (d * twoPow top) ≤ 2 * n) : F.ordinalOf n d = F.infinity := by
  have hpos := F.binade_pos
  have hhalf : 2 * (2 * F.binade * (d * twoPow top)) ≤ 2 * n + d * twoPow top := by
    rw [Nat.sub_mul, Nat.one_mul, show 4 * F.binade = 2 * (2 * F.binade) by ring, Nat.mul_assoc 2] at hn
    omega
  obtain ⟨shift, steps, hordinal, -, hsteps, -, -, hbelow, hshift⟩ := F.exists_ordinalOf n hd
  rw [hordinal, infinity_eq_of_top htop, Nat.min_eq_left]
  rcases Nat.lt_trichotomy shift top with hlt | rfl | hgt
  · -- the quotient would be too small for its binade
    have hpow : 2 * twoPow shift ≤ twoPow top := by
      rw [← twoPow_succ]
      exact twoPow_le_twoPow hlt
    have hgrid : F.binade * (d * (2 * twoPow shift)) ≤ F.binade * (d * twoPow top) :=
      Nat.mul_le_mul_left _ (Nat.mul_le_mul_left _ hpow)
    have hone : 1 * (d * twoPow top) ≤ F.binade * (d * twoPow top) := Nat.mul_le_mul_right _ hpos
    have hwide : F.binade * (d * (2 * twoPow shift)) = 2 * F.binade * (d * twoPow shift) := by ring
    have hlarge : 0 < d * twoPow top := Nat.mul_pos hd (twoPow_pos _)
    rw [Nat.mul_assoc 2] at hhalf
    omega
  · have hfull : 2 * F.binade ≤ steps := by
      rw [hsteps]
      exact le_divEven_of_half (Nat.mul_pos hd (twoPow_pos _)) (by omega) hhalf
    rw [Nat.add_mul]
    omega
  · have hgrid := hshift.resolve_left (by omega)
    have hone : F.binade ≤ steps := hsteps ▸ le_divEven (Nat.mul_pos hd (twoPow_pos _)) hgrid
    have hrow : (top + 1) * F.binade ≤ shift * F.binade := Nat.mul_le_mul_right _ hgt
    rw [Nat.add_mul] at hrow ⊢
    omega

end BinaryFormat

/-! ### Integers as doubles -/

/-- An integer of at most 54 bits, sign included, is a double with exactly its value. -/
theorem ofInt_eq_finite {n : Int} (hn : n.natAbs ≤ 9007199254740992) :
    ∃ x : Finite64, Binary.ofInt n = .finite x ∧ x.magnitude = n.natAbs * BinaryFormat.binary64.one ∧
      x.negative = decide (n < 0) := by
  obtain ⟨hunits, hlt⟩ := BinaryFormat.units_natOrdinal BinaryFormat.binary64_holdsWholeSteps (n := n.natAbs)
    (by simpa [BinaryFormat.binade, BinaryFormat.binary64, twoPow] using hn)
  refine ⟨⟨n < 0, _, hlt⟩, ?_, hunits, rfl⟩
  rw [Binary.ofInt, Binary.ofOrdinal, dif_pos hlt]

/-- A whole number loses nothing when its fraction is dropped. -/
theorem Finite.truncated_of_signed {F : BinaryFormat} {x : Finite F} {i : Int} (h : x.signed = i * F.one) :
    x.truncated = i := by
  have hone : (F.one : Int) ≠ 0 := Int.natCast_ne_zero.2 (Nat.ne_of_gt F.one_pos)
  rw [truncated, h, Int.mul_tdiv_cancel _ hone]

theorem Finite.truncated_eq {F : BinaryFormat} {x : Finite F} {n : Int} (hmag : x.magnitude = n.natAbs * F.one)
    (hneg : x.negative = decide (n < 0)) : x.truncated = n := by
  refine truncated_of_signed ?_
  rw [Finite.signed, hmag, hneg]
  by_cases h : n < 0
  · simp only [h, decide_true, ↓reduceIte, Nat.cast_mul]
    rw [← Int.neg_mul, show -(n.natAbs : Int) = n by omega]
  · simp only [h, decide_false, Bool.false_eq_true, ↓reduceIte, Nat.cast_mul]
    rw [show (n.natAbs : Int) = n by omega]

end PropertyGraph
