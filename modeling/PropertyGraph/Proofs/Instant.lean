import PropertyGraph.Timestamp

/-!
# Timestamps and the instants of a clock

An instant is brought to a whole number of milliseconds toward the epoch, and to a range that is as long on both
sides of it (`Instant.toInt_toTimestamp`), so that no instant overtakes a later one
(`Instant.toTimestamp_truncates`).  The range of timestamps is not: it has one more before the epoch.  So all
timestamps but the first one come back from their instants (`Timestamp.toTimestamp_toInstant`).
-/

namespace PropertyGraph

/-- The timestamp of an instant is its distance from the epoch in milliseconds without their fraction, cut at the ends
of a range that is the same on both sides. -/
theorem Instant.toInt_toTimestamp (t : Instant) :
    t.toTimestamp.millis.toInt = max (-(mostMillis : Int)) (min mostMillis (t.nanos.tdiv 1000000)) := by
  have hmost : (mostMillis : Int) = 9223372036854775807 := rfl
  -- dropping the fraction is symmetric about the epoch, as is the division of the magnitude
  have hquot : t.nanos.tdiv 1000000 =
      if t.nanos < 0 then -((t.nanos.natAbs / 1000000 : Nat) : Int) else (t.nanos.natAbs / 1000000 : Nat) := by
    split
    · rename_i hneg
      rw [show t.nanos.tdiv 1000000 = -((-t.nanos).tdiv 1000000) by rw [Int.neg_tdiv, Int.neg_neg],
        Int.tdiv_eq_ediv_of_nonneg (by omega)]
      omega
    · rw [Int.tdiv_eq_ediv_of_nonneg (by omega)]
      omega
  show (Int64.ofInt (if t.nanos < 0 then _ else _)).toInt = _
  rw [Int64.toInt_ofInt_of_le (by split <;> omega) (by split <;> omega), hquot]
  split <;> omega

namespace Instant

/-- The instant that is so many seconds and nanoseconds away from the epoch, on one of its sides. -/
def away (before : Bool) (seconds nanos : Nat) : Instant :=
  let distance : Int := seconds * 1000000000 + nanos
  ⟨if before then -distance else distance⟩

/-- The milliseconds of a distance are those of its seconds and those of the nanoseconds after them. -/
theorem tdiv_away (before : Bool) (seconds nanos : Nat) :
    (away before seconds nanos).nanos.tdiv 1000000 =
      if before then -((seconds * 1000 + nanos / 1000000 : Nat) : Int)
      else (seconds * 1000 + nanos / 1000000 : Nat) := by
  have hmillis : ((seconds : Int) * 1000000000 + nanos).tdiv 1000000 = (seconds * 1000 + nanos / 1000000 : Nat) := by
    rw [Int.tdiv_eq_ediv_of_nonneg (by omega)]
    omega
  unfold away
  dsimp only
  cases before with
  | true => rw [if_pos rfl, if_pos rfl, Int.neg_tdiv, hmillis]
  | false => rw [if_neg Bool.false_ne_true, if_neg Bool.false_ne_true, hmillis]

theorem toInt_toTimestamp_le {s t : Instant} (h : s.nanos ≤ t.nanos) :
    s.toTimestamp.millis.toInt ≤ t.toTimestamp.millis.toInt := by
  have hquot : s.nanos.tdiv 1000000 ≤ t.nanos.tdiv 1000000 := Int.tdiv_le_tdiv (by decide) h
  rw [toInt_toTimestamp, toInt_toTimestamp]
  omega

/-- **From an instant to its timestamp.**  The timestamp of an instant is the signed distance from the epoch in
milliseconds, truncated toward zero and cut at the ends of a range that is the same on both sides.  A distance in
seconds and nanoseconds gives the same number of milliseconds after the epoch as before it.  So the timestamps of two
instants are in the order of the instants, on either side of the epoch, across it and at both ends. -/
theorem toTimestamp_truncates :
    (∀ t : Instant, t.toTimestamp.millis.toInt =
      max (-9223372036854775807) (min 9223372036854775807 (t.nanos.tdiv 1000000))) ∧
    (∀ seconds nanos : Nat,
      (away false seconds nanos).toTimestamp.millis.toInt =
          min 9223372036854775807 ((seconds * 1000 + nanos / 1000000 : Nat) : Int) ∧
        (away true seconds nanos).toTimestamp.millis.toInt =
          -min 9223372036854775807 ((seconds * 1000 + nanos / 1000000 : Nat) : Int)) ∧
    ∀ s t : Instant, s.nanos ≤ t.nanos →
      s.toTimestamp.millis ≤ t.toTimestamp.millis ∧ s.toTimestamp.compare t.toTimestamp ≠ .gt := by
  have hcut (t : Instant) :
      t.toTimestamp.millis.toInt = max (-9223372036854775807) (min 9223372036854775807 (t.nanos.tdiv 1000000)) :=
    t.toInt_toTimestamp
  refine ⟨hcut, fun seconds nanos => ⟨?_, ?_⟩, fun s t h => ?_⟩
  · rw [hcut, tdiv_away, if_neg (by decide)]
    omega
  · rw [hcut, tdiv_away, if_pos rfl]
    omega
  · have hle := toInt_toTimestamp_le h
    exact ⟨Int64.le_iff_toInt_le.2 hle, Int.compare_ne_gt.2 hle⟩

/-- The distance of the first timestamp is cut by a millisecond, less than a millisecond before the epoch is the epoch,
and the one timestamp is before the other. -/
theorem toTimestamp_truncates_before :
    (away true 9223372036854775 808000000).toTimestamp.millis = Int64.minValue + 1 ∧
      (away true 0 999999).toTimestamp.millis = 0 ∧
      (away true 9223372036854775 808000000).nanos ≤ (away true 0 999999).nanos ∧
      (away true 9223372036854775 808000000).toTimestamp.millis ≤ (away true 0 999999).toTimestamp.millis := by
  have hle : (away true 9223372036854775 808000000).nanos ≤ (away true 0 999999).nanos := by decide
  exact ⟨by decide, by decide, hle, (toTimestamp_truncates.2.2 _ _ hle).1⟩

end Instant

namespace Timestamp

theorem eq_of_toInt {s t : Timestamp} (h : s.millis.toInt = t.millis.toInt) : s = t :=
  congrArg mk (Int64.toInt_inj.1 h)

/-- The instant of a timestamp is a whole number of milliseconds. -/
theorem tdiv_toInstant (t : Timestamp) : t.toInstant.nanos.tdiv 1000000 = t.millis.toInt :=
  Int.mul_tdiv_cancel _ (by decide)

/-- **From a timestamp to its instant and back.**  Every timestamp is the timestamp of its instant, except that the
first one of all comes back as the one after it. -/
theorem toTimestamp_toInstant (t : Timestamp) :
    t.toInstant.toTimestamp = if t.millis = Int64.minValue then ⟨Int64.minValue + 1⟩ else t := by
  have hlow : -9223372036854775808 ≤ t.millis.toInt := t.millis.le_toInt
  have hhigh : t.millis.toInt < 9223372036854775808 := t.millis.toInt_lt
  have hmost : (Instant.mostMillis : Int) = 9223372036854775807 := rfl
  have hback := t.toInstant.toInt_toTimestamp
  rw [tdiv_toInstant] at hback
  refine eq_of_toInt ?_
  split
  · rename_i hfirst
    have hmin : t.millis.toInt = -9223372036854775808 := by rw [hfirst]; rfl
    have hnext : (Int64.minValue + 1).toInt = -9223372036854775807 := by decide
    show _ = (Int64.minValue + 1).toInt
    omega
  · rename_i hother
    have hne : t.millis.toInt ≠ -9223372036854775808 := fun h => hother (Int64.toInt_inj.1 h)
    omega

/-- The first timestamp is not the timestamp of its instant. -/
theorem toTimestamp_toInstant_first : (toInstant ⟨Int64.minValue⟩).toTimestamp ≠ ⟨Int64.minValue⟩ := by
  decide

end Timestamp

end PropertyGraph
