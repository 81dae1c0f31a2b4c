import PropertyGraph.Proofs.Binary.Exact

/-!
# How far a few roundings lead

A quotient that lies between the middles to the two neighbours of a magnitude is rounded to that magnitude
(`Between.ordinalOf_eq`).  A rounded magnitude and the quotient it is rounded from exceed each other by at most one part
in `2 ^ 53`, and such factors multiply along products, quotients and further roundings (`Apart.mul`, `Apart.trans`).  So
a quotient that is a few roundings apart from one between the middles is still rounded to a magnitude that is at most two
places away (`Between.near_ordinalOf`).
-/

namespace PropertyGraph

namespace BinaryFormat

variable {F : BinaryFormat} {k n d : Nat}

/-! ### Between the middles -/

/-- A quotient is not beyond the middles between a magnitude and its neighbours, and in one of them only if the ordinal
is even. -/
structure Between (F : BinaryFormat) (ordinal n d : Nat) : Prop where
  low : (F.units (ordinal - 1) + F.units ordinal) * d ≤ 2 * n
  high : 2 * n ≤ (F.units ordinal + F.units (ordinal + 1)) * d
  odd : ordinal % 2 = 1 → (F.units (ordinal - 1) + F.units ordinal) * d < 2 * n ∧
    2 * n < (F.units ordinal + F.units (ordinal + 1)) * d

/-- Below the middle behind a magnitude a quotient is rounded at most to that magnitude. -/
theorem ordinalOf_le_of_lt_middle (hd : 0 < d) (h : 2 * n < (F.units k + F.units (k + 1)) * d) :
    F.ordinalOf n d ≤ k := by
  obtain ⟨ordinal, hordinal, hrounds⟩ := F.exists_roundsTo n hd
  refine Nat.le_trans (hordinal ▸ Nat.min_le_right _ _) ?_
  by_contra hgt
  have hmiddle := hrounds.below k (by omega)
  have hnext := Nat.mul_le_mul_right d (units_le_units (F := F) (show k + 1 ≤ ordinal by omega))
  rw [Nat.add_mul] at h
  omega

/-- Above the middle behind a magnitude a quotient is rounded at least to the next one. -/
theorem lt_ordinalOf_of_middle_lt (hd : 0 < d) (hk : k < F.infinity)
    (h : (F.units k + F.units (k + 1)) * d < 2 * n) : k < F.ordinalOf n d := by
  obtain ⟨ordinal, hordinal, hrounds⟩ := F.exists_roundsTo n hd
  rw [hordinal]
  refine Nat.lt_min.2 ⟨hk, ?_⟩
  by_contra hle
  have hmiddle := hrounds.above (k + 1) (by omega)
  have hbefore := Nat.mul_le_mul_right d (units_le_units (F := F) (Nat.le_of_not_lt hle))
  rw [Nat.add_mul] at h
  omega

namespace Between

/-- What lies between the middles does not depend on how the quotient is written. -/
theorem congr {n' d' : Nat} (h : F.Between k n d) (hd : 0 < d) (hd' : 0 < d') (heq : n * d' = n' * d) :
    F.Between k n' d' := by
  have hscaled (u : Nat) : u * d' * d = u * d * d' := Nat.mul_right_comm u d' d
  have hnumber : 2 * n' * d = 2 * n * d' := by rw [Nat.mul_assoc, ← heq, Nat.mul_assoc]
  refine ⟨?_, ?_, fun hodd => ⟨?_, ?_⟩⟩
  · refine Nat.le_of_mul_le_mul_right ?_ hd
    rw [hscaled, hnumber]
    exact Nat.mul_le_mul_right d' h.low
  · refine Nat.le_of_mul_le_mul_right ?_ hd
    rw [hscaled, hnumber]
    exact Nat.mul_le_mul_right d' h.high
  · refine Nat.lt_of_mul_lt_mul_right (a := d) ?_
    rw [hscaled, hnumber]
    exact Nat.mul_lt_mul_of_pos_right (h.odd hodd).1 hd'
  · refine Nat.lt_of_mul_lt_mul_right (a := d) ?_
    rw [hscaled, hnumber]
    exact Nat.mul_lt_mul_of_pos_right (h.odd hodd).2 hd'

/-- What lies between the middles is rounded to the magnitude. -/
theorem ordinalOf_eq (h : F.Between k n d) (hd : 0 < d) (hk : k ≤ F.infinity) (hbinade : F.binade % 2 = 0) :
    F.ordinalOf n d = k := by
  obtain ⟨ordinal, hordinal, hrounds⟩ := F.exists_roundsTo n hd
  have hlow := h.low
  have hhigh := h.high
  rw [Nat.add_mul] at hlow hhigh
  -- another magnitude would have to be a neighbour, with the quotient in the middle and both ordinals even
  have hsame : ordinal = k := by
    rcases Nat.lt_trichotomy ordinal k with hlt | heq | hgt
    · exfalso
      have hmiddle := hrounds.above k hlt
      have hbefore := Nat.mul_le_mul_right d (units_le_units (F := F) (show ordinal ≤ k - 1 by omega))
      have heven := hrounds.even hbinade k (Nat.ne_of_gt hlt) (by omega)
      have hlast : ordinal = k - 1 := by
        by_contra hne
        have := Nat.mul_lt_mul_of_pos_right (units_lt_units (F := F) (show ordinal < k - 1 by omega)) hd
        omega
      have hstrict := (h.odd (by omega)).1
      rw [Nat.add_mul] at hstrict
      omega
    · exact heq
    · exfalso
      have hmiddle := hrounds.below k hgt
      have hnext := Nat.mul_le_mul_right d (units_le_units (F := F) (show k + 1 ≤ ordinal by omega))
      have heven := hrounds.even hbinade k (Nat.ne_of_lt hgt) (by omega)
      have hfirst : ordinal = k + 1 := by
        by_contra hne
        have := Nat.mul_lt_mul_of_pos_right (units_lt_units (F := F) (show k + 1 < ordinal by omega)) hd
        omega
      have hstrict := (h.odd (by omega)).2
      rw [Nat.add_mul] at hstrict
      omega
  rw [hordinal, hsame, Nat.min_eq_right hk]

end Between

/-! ### Quotients that are some roundings apart -/

/-- Of the quotients `n / d` and `m / e` neither exceeds the other by more than some factors, each larger than one by one
part in `wide`. -/
structure Apart (wide count n d m e : Nat) : Prop where
  le : wide ^ count * (n * e) ≤ (wide + 1) ^ count * (m * d)
  ge : wide ^ count * (m * d) ≤ (wide + 1) ^ count * (n * e)

namespace Apart

variable {wide count count' m e n' d' m' e' : Nat}

theorem of_eq (h : n * e = m * d) : Apart wide 0 n d m e := by
  constructor
  · rw [h, Nat.pow_zero, Nat.pow_zero]
  · rw [h, Nat.pow_zero, Nat.pow_zero]

theorem inv (h : Apart wide count n d m e) : Apart wide count d n e m := by
  have hle := h.le
  have hge := h.ge
  rw [Nat.mul_comm n, Nat.mul_comm m] at hle hge
  exact ⟨hge, hle⟩

theorem mul (h : Apart wide count n d m e) (h' : Apart wide count' n' d' m' e') :
    Apart wide (count + count') (n * n') (d * d') (m * m') (e * e') := by
  constructor
  · calc wide ^ (count + count') * (n * n' * (e * e')) = wide ^ count * (n * e) * (wide ^ count' * (n' * e')) := by ring
      _ ≤ (wide + 1) ^ count * (m * d) * ((wide + 1) ^ count' * (m' * d')) := Nat.mul_le_mul h.le h'.le
      _ = (wide + 1) ^ (count + count') * (m * m' * (d * d')) := by ring
  · calc wide ^ (count + count') * (m * m' * (d * d')) = wide ^ count * (m * d) * (wide ^ count' * (m' * d')) := by ring
      _ ≤ (wide + 1) ^ count * (n * e) * ((wide + 1) ^ count' * (n' * e')) := Nat.mul_le_mul h.ge h'.ge
      _ = (wide + 1) ^ (count + count') * (n * n' * (e * e')) := by ring

/-- The two quotients may be written in another way, as long as the cross products keep their ratio. -/
theorem congr {scale : Nat} (h : Apart wide count n d m e) (hscale : 0 < scale) (hle : n * e = n' * e' * scale)
    (hge : m * d = m' * d' * scale) : Apart wide count n' d' m' e' := by
  have hfirst := h.le
  have hsecond := h.ge
  rw [hle, hge, ← Nat.mul_assoc, ← Nat.mul_assoc ((wide + 1) ^ count)] at hfirst hsecond
  exact ⟨Nat.le_of_mul_le_mul_right hfirst hscale, Nat.le_of_mul_le_mul_right hsecond hscale⟩

theorem trans (h : Apart wide count n d m e) (h' : Apart wide count' m e m' e') (hm : 0 < m) (he : 0 < e) :
    Apart wide (count + count') n d m' e' :=
  (h.mul h').congr (Nat.mul_pos hm he) (by ring) (by ring)

/-- Factors that are closer to one allow less. -/
theorem mono {narrow : Nat} (h : Apart wide count n d m e) (hpos : 0 < wide) (hle : narrow ≤ wide) :
    Apart narrow count n d m e := by
  have hfactor : narrow * (wide + 1) ≤ (narrow + 1) * wide := by
    rw [Nat.mul_add, Nat.add_mul]
    omega
  have hpow := Nat.pow_le_pow_left hfactor count
  have hshift {x y : Nat} (hxy : wide ^ count * x ≤ (wide + 1) ^ count * y) :
      narrow ^ count * x ≤ (narrow + 1) ^ count * y := by
    refine Nat.le_of_mul_le_mul_left ?_ (Nat.pow_pos hpos (n := count))
    calc wide ^ count * (narrow ^ count * x) = narrow ^ count * (wide ^ count * x) := Nat.mul_left_comm ..
      _ ≤ narrow ^ count * ((wide + 1) ^ count * y) := Nat.mul_le_mul_left _ hxy
      _ = (narrow * (wide + 1)) ^ count * y := by rw [Nat.mul_pow, Nat.mul_assoc]
      _ ≤ ((narrow + 1) * wide) ^ count * y := Nat.mul_le_mul_right _ hpow
      _ = wide ^ count * ((narrow + 1) ^ count * y) := by rw [Nat.mul_pow]; ring
  exact ⟨hshift h.le, hshift h.ge⟩

end Apart

/-- A rounded magnitude is one rounding apart from the quotient, the closer the more steps the quotient has. -/
theorem apart_ordinalOf {few : Nat} (hd : 0 < d) (hfew : few ≤ F.binade) (hn : few * d ≤ n)
    (hfinite : F.ordinalOf n d < F.infinity) : Apart (2 * few) 1 (F.units (F.ordinalOf n d)) 1 n d := by
  have hle := units_ordinalOf_le hd hfew hn
  have hge := le_units_ordinalOf hd hfew hn hfinite
  constructor
  · rwa [Nat.pow_one, Nat.pow_one, Nat.mul_one]
  · rwa [Nat.pow_one, Nat.pow_one, Nat.mul_one]

/-- The step of the grid that a quotient is rounded on: the quotient is at most half a step above what it is rounded to,
and as many steps as a binade has. -/
theorem exists_step (hd : 0 < d) (hn : F.binade * d ≤ n) (hfinite : F.ordinalOf n d < F.infinity) :
    ∃ shift, 2 * n ≤ 2 * (F.units (F.ordinalOf n d) * d) + d * twoPow shift ∧ F.binade * (d * twoPow shift) ≤ n ∧
      F.units (F.ordinalOf n d) ≤ 2 * F.binade * twoPow shift := by
  obtain ⟨shift, steps, hordinal, hunits, hsteps, -, hle, -, hshift⟩ := F.exists_ordinalOf n hd
  have hround := le_two_mul_divEven n (d * twoPow shift) (Nat.mul_pos hd (twoPow_pos _))
  have hkept : F.ordinalOf n d = shift * F.binade + steps := by omega
  rw [hkept, hunits]
  refine ⟨shift, ?_, ?_, Nat.mul_le_mul_right _ hle⟩
  · rw [← hsteps] at hround
    calc 2 * n ≤ 2 * (steps * (d * twoPow shift)) + d * twoPow shift := hround
      _ = 2 * (steps * twoPow shift * d) + d * twoPow shift := by ring
  · rcases hshift with rfl | h
    · rwa [twoPow_zero, Nat.mul_one]
    · exact h

/-! ### Two places -/

/-- From the middle between two magnitudes it is at least two steps to the middle between the next two. -/
theorem exists_middles (F : BinaryFormat) (k : Nat) :
    ∃ shift steps, steps < 2 * F.binade ∧ steps ≤ k ∧ F.units k + F.units (k + 1) = (2 * steps + 1) * twoPow shift ∧
      (2 * steps + 5) * twoPow shift ≤ F.units (k + 2) + F.units (k + 3) := by
  obtain ⟨shift, steps, hsteps, hle, hunits, hnext⟩ := F.exists_units_steps k
  have hthird : 2 * F.units (k + 1) ≤ F.units k + F.units (k + 2) := F.two_mul_units_succ_le k
  have hfourth : 2 * F.units (k + 2) ≤ F.units (k + 1) + F.units (k + 3) := F.two_mul_units_succ_le (k + 1)
  refine ⟨shift, steps, hsteps, hle, ?_, ?_⟩
  · rw [hunits, hnext]
    ring
  · rw [Nat.add_mul, Nat.mul_assoc]
    rw [Nat.add_mul, Nat.one_mul] at hnext
    omega

/-- A quotient that is some roundings apart from one between the middles is rounded to a magnitude at most two places
away, if the roundings together enlarge by less than four half steps. -/
theorem Between.near_ordinalOf {wide count n' d' : Nat} (h : F.Between k n d) (hk : k ≤ F.infinity) (hd : 0 < d)
    (hd' : 0 < d') (hclose : ∀ steps ≤ k, steps < 2 * F.binade →
      (wide + 1) ^ count * (2 * steps + 1) < wide ^ count * (2 * steps + 5))
    (happart : Apart wide count n' d' n d) : F.ordinalOf n' d' ≤ k + 2 ∧ k ≤ F.ordinalOf n' d' + 2 := by
  constructor
  · obtain ⟨shift, steps, hsteps, hle, hmiddle, hgap⟩ := F.exists_middles k
    have hpos : 0 < twoPow shift * (d * d') := Nat.mul_pos (twoPow_pos _) (Nat.mul_pos hd hd')
    have hhigh := h.high
    rw [hmiddle] at hhigh
    refine ordinalOf_le_of_lt_middle hd' ?_
    refine Nat.lt_of_lt_of_le (Nat.lt_of_mul_lt_mul_left (a := wide ^ count * d) ?_) (Nat.mul_le_mul_right d' hgap)
    calc wide ^ count * d * (2 * n') = 2 * (wide ^ count * (n' * d)) := by ring
      _ ≤ 2 * ((wide + 1) ^ count * (n * d')) := Nat.mul_le_mul_left 2 happart.le
      _ = (wide + 1) ^ count * (2 * n) * d' := by ring
      _ ≤ (wide + 1) ^ count * ((2 * steps + 1) * twoPow shift * d) * d' :=
          Nat.mul_le_mul_right d' (Nat.mul_le_mul_left _ hhigh)
      _ = (wide + 1) ^ count * (2 * steps + 1) * (twoPow shift * (d * d')) := by ring
      _ < wide ^ count * (2 * steps + 5) * (twoPow shift * (d * d')) :=
          Nat.mul_lt_mul_of_pos_right (hclose steps hle hsteps) hpos
      _ = wide ^ count * d * ((2 * steps + 5) * twoPow shift * d') := by ring
  · by_cases hfirst : k ≤ 2
    · omega
    · obtain ⟨j, rfl⟩ : ∃ j, k = j + 3 := ⟨k - 3, by omega⟩
      obtain ⟨shift, steps, hsteps, hle, hmiddle, hgap⟩ := F.exists_middles j
      have hpos : 0 < twoPow shift * (d * d') := Nat.mul_pos (twoPow_pos _) (Nat.mul_pos hd hd')
      have hlow : (F.units (j + 2) + F.units (j + 3)) * d ≤ 2 * n := h.low
      suffices hbeyond : j < F.ordinalOf n' d' by omega
      refine lt_ordinalOf_of_middle_lt hd' (by omega) (Nat.lt_of_mul_lt_mul_left (a := (wide + 1) ^ count * d) ?_)
      rw [hmiddle]
      calc (wide + 1) ^ count * d * ((2 * steps + 1) * twoPow shift * d')
          = (wide + 1) ^ count * (2 * steps + 1) * (twoPow shift * (d * d')) := by ring
        _ < wide ^ count * (2 * steps + 5) * (twoPow shift * (d * d')) :=
            Nat.mul_lt_mul_of_pos_right (hclose steps (by omega) hsteps) hpos
        _ = wide ^ count * ((2 * steps + 5) * twoPow shift * d) * d' := by ring
        _ ≤ wide ^ count * (2 * n) * d' :=
            Nat.mul_le_mul_right d' (Nat.mul_le_mul_left _ ((Nat.mul_le_mul_right d hgap).trans hlow))
        _ = 2 * (wide ^ count * (n * d')) := by ring
        _ ≤ 2 * ((wide + 1) ^ count * (n' * d)) := Nat.mul_le_mul_left 2 happart.ge
        _ = (wide + 1) ^ count * d * (2 * n') := by ring

/-- Two roundings of normal magnitudes stay within four half steps. -/
theorem two_roundings_close {wide steps : Nat} (h : steps < wide) :
    (wide + 1) ^ 2 * (2 * steps + 1) < wide ^ 2 * (2 * steps + 5) := by
  nlinarith

/-- Four roundings of small magnitudes do so as well. -/
theorem four_roundings_close {wide steps : Nat} (h : 4 * (steps + 1) ≤ wide) :
    (wide + 1) ^ 4 * (2 * steps + 1) < wide ^ 4 * (2 * steps + 5) := by
  have hexpand : (wide + 1) ^ 4 = wide ^ 4 + (4 * wide ^ 3 + 6 * wide ^ 2 + 4 * wide + 1) := by ring
  have hsmall : 4 * wide ^ 3 + 6 * wide ^ 2 + 4 * wide + 1 ≤ 7 * wide ^ 3 := by
    have hwide : 4 ≤ wide := by omega
    nlinarith [Nat.pow_le_pow_left hwide 2, Nat.pow_le_pow_left hwide 3]
  have hcube : 0 < wide ^ 3 := Nat.pow_pos (by omega)
  calc (wide + 1) ^ 4 * (2 * steps + 1)
      ≤ wide ^ 4 * (2 * steps + 1) + 7 * wide ^ 3 * (2 * steps + 1) := by
        rw [hexpand, Nat.add_mul]
        exact Nat.add_le_add_left (Nat.mul_le_mul_right _ hsmall) _
    _ = wide ^ 4 * (2 * steps + 1) + wide ^ 3 * (7 * (2 * steps + 1)) := by ring
    _ < wide ^ 4 * (2 * steps + 1) + wide ^ 3 * (4 * wide) :=
        Nat.add_lt_add_left (Nat.mul_lt_mul_of_pos_left (by omega) hcube) _
    _ = wide ^ 4 * (2 * steps + 5) := by ring

end BinaryFormat

end PropertyGraph
