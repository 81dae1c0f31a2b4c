import PropertyGraph.Proofs.Document
import PropertyGraph.Proofs.Rfc3339

/-!
# Timestamps as dates and times

A timestamp can be written as a date and time exactly if its year has four digits, and what is written tells the
timestamp.  The year is the one that the calendar counts, so this says that the two bounds of the written form are
the right ones.  The key facts: the writable timestamps are those of the years 0000 to 9999
(`Timestamp.isWritable_iff`), what a timestamp is read back as is the timestamp (`Timestamp.ofJson_raw`), and both
together with what is written and what is refused (`Timestamp.writeAs_rfc3339_exact`).
-/

namespace PropertyGraph

open Json.Reader

namespace JsonWriter

/-- A scalar can be written exactly where a value may stand. -/
theorem exists_scalar_iff {s : List Char} {w : JsonWriter} :
    (∃ w', (scalar s).run w = .ok () w') ↔ ∃ w', place.run w = .ok () w' := by
  rw [scalar, EStateM.run_bind]
  cases place.run w with
  | ok _ w' => exact ⟨fun _ => ⟨w', rfl⟩, fun _ => ⟨_, rfl⟩⟩
  | error e w' => constructor <;> (rintro ⟨_, h⟩; cases h)

end JsonWriter

theorem Json.Number.int64?_toInt (n : Int64) (fits : -9223372036854775808 ≤ n.toInt ∧ n.toInt < 18446744073709551616) :
    (integer n.toInt fits).int64? = some n := by
  have hlt : n.toInt < 9223372036854775808 := n.toInt_lt
  rw [int64?, if_pos hlt, Int64.ofInt_toInt]

namespace Timestamp

/-- A timestamp falls in a year if its day does, in UTC. -/
def FallsIn (t : Timestamp) (year : Int) : Prop :=
  Calendar.FallsIn (t.millis.toInt / Rfc3339.millisPerDay) year

/-- The number of the year that a timestamp falls in. -/
def year (t : Timestamp) : Int := (Date.ofDays (t.millis.toInt / Rfc3339.millisPerDay)).year

theorem fallsIn_iff {t : Timestamp} {year : Int} : t.FallsIn year ↔ year = t.year := by
  have h := Date.fallsIn_ofDays (t.millis.toInt / Rfc3339.millisPerDay)
  constructor
  · exact fun h' => h.unique h'
  · rintro rfl
    exact h

/-- The timestamps with a written form are those whose year has four digits. -/
theorem isWritable_iff {t : Timestamp} :
    Rfc3339.isWritable t.millis.toInt = true ↔ 0 ≤ t.year ∧ t.year ≤ 9999 := by
  have hdays := (Date.fallsIn_ofDays (t.millis.toInt / Rfc3339.millisPerDay)).fourDigits_iff
  rw [year, hdays, Rfc3339.isWritable, Bool.and_eq_true, decide_eq_true_eq, decide_eq_true_eq,
    show Rfc3339.millisPerDay = 86400000 from rfl]
  unfold Rfc3339.firstMillis Rfc3339.lastMillis
  omega

/-- What the text of a timestamp is read as tells the timestamp. -/
theorem ofJson_raw {format : TimestampFormat} {t : Timestamp}
    (h : format = .rfc3339 → Rfc3339.isWritable t.millis.toInt = true) : ofJson format (t.raw format) = .ok t := by
  cases format with
  | epochMillis => exact ofNumber_of_int64? (Json.Number.int64?_toInt t.millis _)
  | rfc3339 =>
    show ofText (String.ofList (Rfc3339.format t.millis.toInt)) = .ok t
    rw [ofText, String.toList_ofList, Rfc3339.parse_format (h rfl)]
    dsimp only
    rw [Int64.ofInt_toInt]

/-- A timestamp with a written form is written as a string. -/
theorem writeAs_of_isWritable {t : Timestamp} (h : Rfc3339.isWritable t.millis.toInt = true) :
    t.writeAs .rfc3339 = JsonWriter.string (String.ofList (Rfc3339.format t.millis.toInt)) := if_pos h

/-- A timestamp without a written form is refused wherever it is written. -/
theorem run_writeAs_of_not_isWritable {t : Timestamp} (h : ¬Rfc3339.isWritable t.millis.toInt = true) (w : JsonWriter) :
    (t.writeAs .rfc3339).run w = .error (.timestampOutOfRange t.millis) w := by
  rw [writeAs, if_neg h]
  rfl

/-- The text of a timestamp with a written form holds the string on its own. -/
theorem exists_toText_of_isWritable {t : Timestamp} (h : Rfc3339.isWritable t.millis.toInt = true) {r : Registry}
    (hr : r.timestamps = .rfc3339) :
    ∃ text, r.toText t = .ok text ∧
      Json.parse text.toList = .ok (.string (String.ofList (Rfc3339.format t.millis.toInt))) := by
  have hleaf : t.leaf? r.timestamps = some (.string (String.ofList (Rfc3339.format t.millis.toInt))) := by
    rw [hr, leaf?, if_pos h]
  refine ⟨_, (Registry.toText_eq_ok_iff (t.puts_writeAs r.timestamps)).2 ⟨_, by rw [hleaf]; rfl, rfl⟩, ?_⟩
  rw [String.toList_ofList]
  exact ofText_of_reads ((Json.spells_string _).reads Json.maxDepth (Nat.zero_le _))

/-- **Exactness of written dates and times.**  A timestamp falls in one year.  It is written as a date and time
exactly where a value may stand and if the year has four digits; if the year has not, the timestamp is refused and
nothing is written.  If it has, a string is written from which the timestamp is read back, both as milliseconds and
from the JSON text. -/
theorem writeAs_rfc3339_exact (t : Timestamp) :
    ∃ year, (∀ other, t.FallsIn other ↔ other = year) ∧
      (∀ w, (∃ w', (t.writeAs .rfc3339).run w = .ok () w') ↔
        (0 ≤ year ∧ year ≤ 9999) ∧ ∃ w', JsonWriter.place.run w = .ok () w') ∧
      (¬(0 ≤ year ∧ year ≤ 9999) → ∀ w, (t.writeAs .rfc3339).run w = .error (.timestampOutOfRange t.millis) w) ∧
      (0 ≤ year ∧ year ≤ 9999 → ∃ s : String,
        t.writeAs .rfc3339 = JsonWriter.string s ∧ s.toList = Rfc3339.format t.millis.toInt ∧
        Rfc3339.parse s.toList = .ok t.millis.toInt ∧ ofJson .rfc3339 (.string s) = .ok t ∧
        ∀ r : Registry, r.timestamps = .rfc3339 →
          ∃ text, r.toText t = .ok text ∧ Json.parse text.toList = .ok (.string s)) := by
  refine ⟨t.year, fun _ => fallsIn_iff, fun w => ?_, fun hyear w => ?_, fun hyear => ?_⟩
  · rw [← isWritable_iff]
    by_cases h : Rfc3339.isWritable t.millis.toInt = true
    · rw [writeAs_of_isWritable h, JsonWriter.string, JsonWriter.exists_scalar_iff]
      exact ⟨fun hplace => ⟨h, hplace⟩, fun hplace => hplace.2⟩
    · rw [run_writeAs_of_not_isWritable h]
      exact ⟨fun ⟨_, hrun⟩ => (by cases hrun), fun hboth => absurd hboth.1 h⟩
  · exact run_writeAs_of_not_isWritable (fun h => hyear (isWritable_iff.1 h)) w
  · have h := isWritable_iff.2 hyear
    refine ⟨_, writeAs_of_isWritable h, String.toList_ofList, ?_, ofJson_raw fun _ => h,
      fun r hr => exists_toText_of_isWritable h hr⟩
    rw [String.toList_ofList, Rfc3339.parse_format h]

end Timestamp

end PropertyGraph
