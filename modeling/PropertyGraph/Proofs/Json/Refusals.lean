import PropertyGraph.Proofs.Json.Writing
import PropertyGraph.Proofs.Timestamp

/-!
# Refused events without a trace

Most events of a writer look for their place, and a number whether it is finite, before anything is written: if such
an event is refused, the writer is the one it was.  Only the closings and the maps of the generic encoder can be
refused after they changed it.  So refused events of the first kind can be left out of a run, whatever state the
others left behind.  The key facts: an event of one token that is refused changes nothing
(`Event.step_of_isToken`), and a run from which some of them are erased has the results of the others and ends in the
same writer (`Event.results_of_erased`).
-/

namespace PropertyGraph

namespace JsonWriter

/-- A step that leaves the writer as it was if it is refused. -/
def Atomic (write : Write Unit) : Prop := ∀ w e w', write.run w = .error e w' → w' = w

theorem atomic_place : Atomic place := fun _ _ _ h => place_error h

theorem atomic_throw (e : EncodeError) : Atomic (throw e) := by
  intro w e' w' h
  cases h
  rfl

/-- A step goes on being atomic if what follows it is never refused after it. -/
theorem Atomic.andThen {first next : Write Unit} (h : Atomic first)
    (hnext : ∀ w w', first.run w = .ok () w' → ∃ last, next.run w' = .ok () last) :
    Atomic (first >>= fun _ => next) := by
  intro w e w' hrun
  rw [EStateM.run_bind] at hrun
  cases hfirst : first.run w with
  | ok _ between =>
    obtain ⟨last, hlast⟩ := hnext w between hfirst
    rw [hfirst] at hrun
    dsimp only at hrun
    rw [hlast] at hrun
    cases hrun
  | error e' between =>
    rw [hfirst] at hrun
    cases hrun
    exact h w _ _ hfirst

theorem atomic_scalar (s : List Char) : Atomic (scalar s) := atomic_place.andThen fun _ _ _ => ⟨_, rfl⟩

theorem atomic_fieldName (name : String) : Atomic (fieldName name) := by
  intro w e w' h
  simp only [EStateM.run, fieldName] at h
  split at h
  · cases h
  · cases h
    rfl

/-- A name that is written awaits its value. -/
theorem frames_of_fieldName {name : String} {w w' : JsonWriter} (h : (fieldName name).run w = .ok () w') :
    ∃ members outer, w'.frames = .object members true :: outer := by
  simp only [EStateM.run, fieldName] at h
  split at h
  · cases h
    exact ⟨_, _, rfl⟩
  · cases h

theorem atomic_stringField (name value : String) : Atomic (stringField name value) := by
  refine (atomic_fieldName name).andThen fun w w' hname => ?_
  obtain ⟨members, outer, hframes⟩ := frames_of_fieldName hname
  refine exists_scalar_iff.2 ⟨{ w' with frames := .object members false :: outer }, ?_⟩
  simp only [EStateM.run, place, hframes]

end JsonWriter

/-- A timestamp that is refused leaves the writer as it was, be it for its year or for its place. -/
theorem Timestamp.atomic_writeAs (t : Timestamp) (format : TimestampFormat) : JsonWriter.Atomic (t.writeAs format) := by
  cases format with
  | epochMillis => exact JsonWriter.atomic_scalar _
  | rfc3339 =>
    by_cases h : Rfc3339.isWritable t.millis.toInt = true
    · rw [writeAs_of_isWritable h]
      exact JsonWriter.atomic_scalar _
    · intro w e w' hrun
      rw [run_writeAs_of_not_isWritable h] at hrun
      cases hrun
      rfl

namespace Event

/-- The events that open an array or object or write a name, a scalar, or a name with a string. -/
def IsToken : Event → Prop
  | endObject | endArray | datum _ => False
  | _ => True

theorem atomic_write {event : Event} (h : event.IsToken) : JsonWriter.Atomic event.write := by
  cases event with
  | beginObject => exact JsonWriter.atomic_place.andThen fun _ _ _ => ⟨_, rfl⟩
  | beginArray => exact JsonWriter.atomic_place.andThen fun _ _ _ => ⟨_, rfl⟩
  | fieldName name => exact JsonWriter.atomic_fieldName name
  | stringField name value => exact JsonWriter.atomic_stringField name value
  | string s => exact JsonWriter.atomic_scalar _
  | int64 n => exact JsonWriter.atomic_scalar _
  | float64 x =>
    cases x with
    | finite x => exact JsonWriter.atomic_scalar _
    | _ => exact JsonWriter.atomic_throw _
  | float32 x =>
    cases x with
    | finite x => exact JsonWriter.atomic_scalar _
    | _ => exact JsonWriter.atomic_throw _
  | bool b => exact JsonWriter.atomic_scalar _
  | null => exact JsonWriter.atomic_scalar _
  | endObject => exact h.elim
  | endArray => exact h.elim
  | datum d => exact h.elim

/-- An event of one token that is refused changes nothing. -/
theorem step_of_isToken {event : Event} (h : event.IsToken) {w : JsonWriter} {e : EncodeError}
    (hrefused : (step w event).1 = some e) : (step w event).2 = w := by
  have hatomic := atomic_write h w
  unfold step at hrefused ⊢
  split
  · rename_i hrun
    rw [hrun] at hrefused
    cases hrefused
  · rename_i e' w' hrun
    exact hatomic e' w' hrun

/-! ### Runs without refused events -/

/-- The events of a run, each with its result. -/
def calls (w : JsonWriter) (events : List Event) : List (Event × Option EncodeError) := events.zip (results w events).1

/-- Some of the events of one token that were refused are erased from the calls of a run. -/
inductive Erased : List (Event × Option EncodeError) → List (Event × Option EncodeError) → Prop
  | nil : Erased [] []
  | keep {before after : List (Event × Option EncodeError)} (call : Event × Option EncodeError)
      (rest : Erased before after) : Erased (call :: before) (call :: after)
  | erase {before after : List (Event × Option EncodeError)} (event : Event) (e : EncodeError)
      (token : event.IsToken) (rest : Erased before after) : Erased ((event, some e) :: before) after

theorem calls_cons (w : JsonWriter) (event : Event) (events : List Event) :
    calls w (event :: events) = (event, (step w event).1) :: calls (step w event).2 events := rfl

/-- **Refused events leave no trace.**  Some of the events of one token that a run refuses, as many as one likes,
are erased from it: the others have the results that they had, and the writer at the end is the same in its text, in
what is open and in whether the root value is begun.  And a timestamp that cannot be written leaves the writer as it
was. -/
theorem results_of_erased :
    (∀ (w : JsonWriter) (events : List Event) (kept : List (Event × Option EncodeError)),
      Erased (calls w events) kept →
        results w (kept.map Prod.fst) = (kept.map Prod.snd, (results w events).2)) ∧
    ∀ (t : Timestamp) (format : TimestampFormat) (w w' : JsonWriter) (e : EncodeError),
      (t.writeAs format).run w = .error e w' → w' = w := by
  refine ⟨fun w events kept herased => ?_, fun t format w w' e => t.atomic_writeAs format w e w'⟩
  -- an erased event leaves its writer behind, so the run without it stands where the run with it goes on
  induction events generalizing w kept with
  | nil =>
    cases herased
    rfl
  | cons event events ih =>
    rw [calls_cons] at herased
    generalize hresult : (step w event).1 = result at herased
    cases herased with
    | keep _ rest =>
      rw [List.map_cons, List.map_cons, results_cons, ih _ _ rest, hresult]
      rfl
    | erase _ e token rest =>
      have hsame := step_of_isToken token hresult
      rw [results_cons, hsame]
      rw [hsame] at rest
      exact ih _ _ rest

/-- A run with refused events before and after a closing that is refused and closes all the same. -/
def brokenRun : List Event :=
  [.fieldName "x", .beginArray, .beginObject, .null, .fieldName "a", .endArray, .float64 .nan, .bool true, .endArray,
    .stringField "b" "c"]

/-- The run without them: the closing in the middle is not an event of one token and stays.  A timestamp that is too
early for a year of four digits is refused behind it and changes nothing. -/
theorem results_of_erased_broken :
    results {} [.beginArray, .beginObject, .fieldName "a", .endArray, .bool true, .endArray] =
        ([none, none, none, some (.writerState .unopenedArray), none, none], (results {} brokenRun).2) ∧
      ∃ w, (Timestamp.writeAs .rfc3339 ⟨Int64.minValue⟩).run (results {} brokenRun).2 =
        .error (.timestampOutOfRange Int64.minValue) w ∧ w = (results {} brokenRun).2 := by
  have herased : Erased (calls {} brokenRun)
      [(.beginArray, none), (.beginObject, none), (.fieldName "a", none),
        (.endArray, some (.writerState .unopenedArray)), (.bool true, none), (.endArray, none)] :=
    .erase (.fieldName "x") _ trivial <| .keep _ <| .keep _ <| .erase .null _ trivial <| .keep _ <| .keep _ <|
      .erase (.float64 .nan) _ trivial <| .keep _ <| .keep _ <| .erase (.stringField "b" "c") _ trivial .nil
  have hrefused := Timestamp.run_writeAs_of_not_isWritable (t := ⟨Int64.minValue⟩) (by decide) (results {} brokenRun).2
  exact ⟨results_of_erased.1 {} brokenRun _ herased, _, hrefused, results_of_erased.2 _ _ _ _ _ hrefused⟩

end Event

end PropertyGraph
