import PropertyGraph.Document
import PropertyGraph.Registry

/-!
# Reading graph values

The types that a text can be read as, with their names in messages, and the reading of a text under a
registry. Blank texts and texts that are too long are refused before anything is read.  The key facts:
a blank text is refused whatever the target (`fromText_blank`), a text that is too long is never
read (`fromText_tooLong`), and the target decides on every other one (`fromText_eq_read`).
-/

namespace PropertyGraph

/-- A type that a text can be read as: its name in messages and its reader. -/
structure Target (α : Type) where
  name : String
  read : Json.Reader α

namespace Target

open Json.Reader

def document : Target ElementDoc :=
  ⟨"graph_json::codec::element::ElementDoc", ElementDoc.read Json.maxDepth⟩

def documents : Target (List ElementDoc) :=
  ⟨"alloc::vec::Vec<graph_json::codec::element::ElementDoc>", list ElementDoc.read Json.maxDepth⟩

def elementKind : Target ElementKind :=
  ⟨"graph_json::model::element::ElementKind", Json.Reader.elementKind Json.maxDepth⟩

def timestamp : Target Timestamp :=
  ⟨"graph_json::model::value::Timestamp", Json.Reader.timestamp Json.maxDepth⟩

def timestamps : Target (List Timestamp) :=
  ⟨"alloc::vec::Vec<graph_json::model::value::Timestamp>", list Json.Reader.timestamp Json.maxDepth⟩

def optionalTimestamp : Target (Option Timestamp) :=
  ⟨"core::option::Option<graph_json::model::value::Timestamp>",
    optional (Json.Reader.timestamp Json.maxDepth)⟩

def value : Target Json := ⟨"serde_json::value::Value", Json.Reader.value Json.maxDepth⟩

def int64 : Target Int64 := ⟨"i64", Json.Reader.int64⟩

def float64 : Target Binary64 := ⟨"f64", Json.Reader.float64⟩

def bool : Target Bool := ⟨"bool", Json.Reader.bool⟩

def string : Target String := ⟨"alloc::string::String", Json.Reader.string⟩

end Target

namespace Registry

/-- Refuses blank texts and texts that are too long. -/
def checkInput (r : Registry) (text target : String) : Except DecodeError Unit :=
  if isBlankText text.toList then .error (.emptyInput target)
  else if r.maxTextLength < text.utf8ByteSize then .error (.inputTooLarge text.utf8ByteSize r.maxTextLength)
  else .ok ()

def fromText {α : Type} (r : Registry) (target : Target α) (text : String) : Except DecodeError α := do
  r.checkInput text target.name
  match Json.Reader.ofText target.read text.toList with
  | .ok a => .ok a
  | .error fault => .error (.parse target.name (fault.message text.toList))

/-- A blank text is refused whatever the target. -/
theorem fromText_blank {α : Type} (r : Registry) (target : Target α) {text : String}
    (h : isBlankText text.toList) : r.fromText target text = .error (.emptyInput target.name) := by
  simp [fromText, checkInput, h, bind, Except.bind]

/-- A text that is too long is never read. -/
theorem fromText_tooLong {α : Type} (r : Registry) (target : Target α) {text : String}
    (hb : isBlankText text.toList = false) (h : r.maxTextLength < text.utf8ByteSize) :
    r.fromText target text = .error (.inputTooLarge text.utf8ByteSize r.maxTextLength) := by
  simp [fromText, checkInput, hb, h, bind, Except.bind]

/-- Every other text is what the target reads from it, or has the fault that the target finds. -/
theorem fromText_eq_read {α : Type} (r : Registry) (target : Target α) {text : String}
    (hb : isBlankText text.toList = false) (h : text.utf8ByteSize ≤ r.maxTextLength) :
    r.fromText target text =
      match Json.Reader.ofText target.read text.toList with
      | .ok a => .ok a
      | .error fault => .error (.parse target.name (fault.message text.toList)) := by
  simp only [fromText, checkInput, hb, if_neg (Nat.not_lt.2 h), bind, Except.bind, Bool.false_eq_true, if_false]

end Registry

end PropertyGraph
