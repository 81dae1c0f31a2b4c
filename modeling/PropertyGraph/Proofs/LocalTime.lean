import PropertyGraph.Proofs.DateTime
import PropertyGraph.Proofs.Timestamp

/-!
# Local times and the written years

A date and time is read in local time and written in UTC, and only the year of UTC decides whether it can be
written.  An offset is a day at most, so it leads out of the years 0000 to 9999 only from their first day and from
their last one.  The key facts: these are the times that cannot be written (`DateTime.isWritable_iff`), and all
others that are read are written and read again as the same timestamp (`Timestamp.writeAs_of_parse`).
-/

namespace PropertyGraph

namespace Rfc3339.DateTime

/-- The milliseconds of the day in local time. -/
def time (t : DateTime) : Int :=
  3600000 * t.hours.value + 60000 * t.minutes.value + 1000 * t.seconds.value + Fraction.millisOf t.fraction

theorem time_bounds (t : DateTime) : 0 ≤ t.time ∧ t.time < 86400000 := by
  have hhours := t.hours_le
  have hminutes := t.minutes_le
  have hseconds := t.seconds_le
  have hfraction := Fraction.millisOf_le t.fraction
  unfold time
  omega

theorem millis_eq (t : DateTime) : t.millis = 86400000 * t.date.count + t.time - 60000 * t.zone.minutes := by
  rw [millis, t.daysSinceEpoch_eq]
  unfold time
  omega

/-- A date and time that is in another day in UTC, before the first day of the years of four digits or after the
last. -/
def LeavesYears (t : DateTime) : Prop :=
  (t.date = ⟨0, 1, 1⟩ ∧ t.time < 60000 * t.zone.minutes) ∨
    (t.date = ⟨9999, 12, 31⟩ ∧ 86400000 + 60000 * t.zone.minutes ≤ t.time)

theorem date_eq_iff (t : DateTime) {d : Date} (h : d.Valid) : t.date = d ↔ t.date.count = d.count := by
  constructor
  · rintro rfl
    rfl
  · exact t.valid_date.eq_of_count_eq h

/-- The dates and times with a written form in UTC are those whose offset does not lead out of the written years. -/
theorem isWritable_iff (t : DateTime) : isWritable t.millis = true ↔ ¬t.LeavesYears := by
  have hyear := t.year.value_lt
  rw [show tenPow 4 = 10000 from rfl] at hyear
  have hdays : -719528 ≤ t.date.count ∧ t.date.count ≤ 2932896 := by
    refine t.valid_date.fallsIn.fourDigits_iff.1 ?_
    dsimp only [date]
    omega
  have hfirst := t.date_eq_iff (d := ⟨0, 1, 1⟩) (by decide)
  have hlast := t.date_eq_iff (d := ⟨9999, 12, 31⟩) (by decide)
  rw [show (Date.mk 0 1 1).count = -719528 from (Date.toDays_eq_count (by decide)).symm] at hfirst
  rw [show (Date.mk 9999 12 31).count = 2932896 from (Date.toDays_eq_count (by decide)).symm] at hlast
  have htime := t.time_bounds
  have hzone := t.zone.minutes_bounds
  rw [LeavesYears, hfirst, hlast, t.millis_eq, isWritable, Bool.and_eq_true, decide_eq_true_eq, decide_eq_true_eq]
  unfold firstMillis lastMillis
  omega

end Rfc3339.DateTime

namespace Timestamp

/-- **Times that are read and written again.**  A date and time that is read is a timestamp.  If its offset does not
lead out of the years 0000 to 9999, the timestamp is written as a date and time wherever a value may stand, and from
what is written the same timestamp is read, also from the text that a registry makes of it.  Exactly if the offset
does lead out of these years the timestamp is past their ends, and then it is refused and nothing is written. -/
theorem writeAs_of_parse {s : String} {m : Int} (h : Rfc3339.parse s.toList = .ok m) :
    ∃ (t : Rfc3339.DateTime) (stamp : Timestamp), t.chars = s.toList ∧ stamp.millis.toInt = m ∧
      ofJson .rfc3339 (.string s) = .ok stamp ∧
      (Rfc3339.firstMillis ≤ m ∧ m ≤ Rfc3339.lastMillis ↔ ¬t.LeavesYears) ∧
      (t.LeavesYears → ∀ w, (stamp.writeAs .rfc3339).run w = .error (.timestampOutOfRange stamp.millis) w) ∧
      (¬t.LeavesYears → ∃ out : String, stamp.writeAs .rfc3339 = JsonWriter.string out ∧
        Rfc3339.parse out.toList = .ok m ∧ ofJson .rfc3339 (.string out) = .ok stamp ∧
        ∀ r : Registry, r.timestamps = .rfc3339 →
          ∃ text, r.toText stamp = .ok text ∧ Json.parse text.toList = .ok (.string out)) := by
  obtain ⟨t, hchars, rfl⟩ := Rfc3339.exists_dateTime_of_parse h
  have hbounds := t.millis_bounds
  unfold Rfc3339.firstMillis Rfc3339.lastMillis at hbounds
  have hmillis : (Int64.ofInt t.millis).toInt = t.millis := Int64.toInt_ofInt_of_le (by omega) (by omega)
  have hiff := t.isWritable_iff
  refine ⟨t, ⟨.ofInt t.millis⟩, hchars, hmillis, ?_, ?_, fun hleaves w => ?_, fun hstays => ?_⟩
  · show ofText s = _
    rw [ofText, h]
  · rwa [Rfc3339.isWritable, Bool.and_eq_true, decide_eq_true_eq, decide_eq_true_eq] at hiff
  · -- past the ends of the years nothing is written
    refine run_writeAs_of_not_isWritable (fun h => hiff.1 ?_ hleaves) w
    rwa [← hmillis]
  · have h : Rfc3339.isWritable (Int64.ofInt t.millis).toInt = true := by rw [hmillis, hiff]; exact hstays
    refine ⟨_, writeAs_of_isWritable h, ?_, ofJson_raw fun _ => h, fun r hr => exists_toText_of_isWritable h hr⟩
    rw [String.toList_ofList, Rfc3339.parse_format h, hmillis]

/-- The theorem on a time of another day in UTC, which is the first that can be written. -/
theorem writeAs_firstDay :
    Rfc3339.parse "0000-01-01T05:30:00+05:30".toList = .ok Rfc3339.firstMillis ∧
      ∃ (stamp : Timestamp) (out : String), ofJson .rfc3339 (.string "0000-01-01T05:30:00+05:30") = .ok stamp ∧
        stamp.writeAs .rfc3339 = JsonWriter.string out ∧ ofJson .rfc3339 (.string out) = .ok stamp := by
  have hparse : Rfc3339.parse "0000-01-01T05:30:00+05:30".toList = .ok Rfc3339.firstMillis := by decide +kernel
  obtain ⟨t, stamp, -, -, hread, hiff, -, hwrite⟩ := writeAs_of_parse hparse
  obtain ⟨out, hout, -, hreread, -⟩ := hwrite (hiff.1 (by decide))
  exact ⟨hparse, stamp, out, hread, hout, hreread⟩

/-- A date and time in the year 9999 is read that is in no year of four digits in UTC, and cannot be written. -/
theorem exists_parsed_not_written :
    Rfc3339.parse "9999-12-31T23:59:59-00:01".toList = .ok 253402300859000 ∧
      ofJson .rfc3339 (.string "9999-12-31T23:59:59-00:01") = .ok ⟨253402300859000⟩ ∧
      ((⟨253402300859000⟩ : Timestamp).writeAs .rfc3339).run {} =
        .error (.timestampOutOfRange 253402300859000) {} := by
  have hparse : Rfc3339.parse "9999-12-31T23:59:59-00:01".toList = .ok 253402300859000 := by decide +kernel
  refine ⟨hparse, ?_, run_writeAs_of_not_isWritable (by decide) {}⟩
  rw [ofJson, ofText, hparse]
  rfl

end Timestamp

end PropertyGraph
