import PropertyGraph.Json.Writer

/-!
# Events of a JSON text

The calls that a writer takes, as data: a sequence of them can be run on a writer, going on after
those that are refused.  The key fact: the results are that of the first event and those of the others
on the writer after it (`results_cons`).
-/

namespace PropertyGraph

/-- A call of a writer. -/
inductive Event where
  | beginObject
  | endObject
  | beginArray
  | endArray
  | fieldName (name : String)
  | stringField (name value : String)
  | string (s : String)
  | int64 (n : Int64)
  | float64 (x : Binary64)
  | float32 (x : Binary32)
  | bool (b : Bool)
  | null
  | datum (d : Datum)

namespace Event

def write : Event → Write Unit
  | beginObject => JsonWriter.beginObject
  | endObject => JsonWriter.endObject
  | beginArray => JsonWriter.beginArray
  | endArray => JsonWriter.endArray
  | fieldName name => JsonWriter.fieldName name
  | stringField name value => JsonWriter.stringField name value
  | string s => JsonWriter.string s
  | int64 n => JsonWriter.int64 n
  | float64 x => JsonWriter.float64 x
  | float32 x => JsonWriter.float32 x
  | bool b => JsonWriter.bool b
  | null => JsonWriter.null
  | datum d => JsonWriter.datum d

/-- The error of an event on a writer, if it is refused, and the writer after it. -/
def step (w : JsonWriter) (event : Event) : Option EncodeError × JsonWriter :=
  match event.write w with
  | .ok _ next => (none, next)
  | .error e next => (some e, next)

/-- The results of events on a writer in order, and the writer after all of them. -/
def results (w : JsonWriter) : List Event → List (Option EncodeError) × JsonWriter
  | [] => ([], w)
  | event :: events =>
    let (result, next) := step w event
    let (others, last) := results next events
    (result :: others, last)

theorem results_cons (w : JsonWriter) (event : Event) (events : List Event) :
    results w (event :: events) =
      ((step w event).1 :: (results (step w event).2 events).1, (results (step w event).2 events).2) := rfl

end Event

end PropertyGraph
