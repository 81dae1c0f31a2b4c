import PropertyGraph.Json.Record
import PropertyGraph.Narrow

/-!
# Documents

Vertices and edges as they are read from a text.  Identifiers and properties stay JSON values, since a
text does not tell of which kind a number was; a property can be narrowed to a kind when it is looked
up.  A document of a vertex has no endpoint member, one of an edge has all four.  The key facts: a
missing property and a null one are both nothing (`property?_of_lookup_eq_none`,
`property?_of_lookup_null`).
-/

namespace PropertyGraph

/-- The ends of an edge in a document. -/
structure Ends where
  outV : Json
  outVLabel : String
  inV : Json
  inVLabel : String

/-- A document of a vertex or, with ends, of an edge. -/
structure ElementDoc where
  id : Json
  label : String
  kind : ElementKind
  ends : Option Ends
  properties : List (String × Json)

/-! ### Reading -/

/-- The fields of a document as far as they are read.  An endpoint member that is null counts as
absent, but as read. -/
structure ElementDraft where
  id : Option Json := none
  label : Option String := none
  kind : Option ElementKind := none
  outV : Option (Option Json) := none
  outVLabel : Option (Option String) := none
  inV : Option (Option Json) := none
  inVLabel : Option (Option String) := none
  properties : Option (List (String × Json)) := none

namespace ElementDraft

open Json.Reader

/-- The fields of a document in the order in which an array has them. -/
def record : Json.Reader.Record ElementDraft where
  name := "struct RawElementDoc"
  fields := [
    ⟨"id", .required, (·.id.isSome), fun depth d => do return { d with id := some (← value depth) }⟩,
    ⟨"label", .required, (·.label.isSome), fun _ d => do return { d with label := some (← string) }⟩,
    ⟨"type", .required, (·.kind.isSome),
      fun depth d => do return { d with kind := some (← elementKind depth) }⟩,
    ⟨"outV", .nullable, (·.outV.isSome), fun depth d => do
      return { d with outV := some (← optional (value depth)) }⟩,
    ⟨"outVLabel", .nullable, (·.outVLabel.isSome), fun _ d => do
      return { d with outVLabel := some (← optional string) }⟩,
    ⟨"inV", .nullable, (·.inV.isSome), fun depth d => do
      return { d with inV := some (← optional (value depth)) }⟩,
    ⟨"inVLabel", .nullable, (·.inVLabel.isSome), fun _ d => do
      return { d with inVLabel := some (← optional string) }⟩,
    ⟨"properties", .defaulted, (·.properties.isSome), fun depth d => do
      return { d with properties := some (← object depth) }⟩]

/-- An identifier has to be a number or a text. -/
def checkId : Json → Except FormatError Unit
  | .number _ | .string _ => .ok ()
  | other => .error (.typeMismatch .identifier other.kind)

/-- The first endpoint member that is present. -/
def presentEndpoint? (d : ElementDraft) : Option EndpointField :=
  if d.outV.join.isSome then some .outV
  else if d.outVLabel.join.isSome then some .outVLabel
  else if d.inV.join.isSome then some .inV
  else if d.inVLabel.join.isSome then some .inVLabel
  else none

/-- An endpoint member that has to be present. -/
def endpoint {α : Type} (field : EndpointField) (member : Option (Option α)) : Except FormatError α :=
  match member.join with
  | some a => .ok a
  | none => .error (.missingEndpoint field)

/-- The ends of an edge, all four members of which have to be present. -/
def ends (d : ElementDraft) : Except FormatError Ends := do
  let outV ← endpoint .outV d.outV
  let outVLabel ← endpoint .outVLabel d.outVLabel
  let inV ← endpoint .inV d.inV
  let inVLabel ← endpoint .inVLabel d.inVLabel
  checkId outV
  checkId inV
  .ok ⟨outV, outVLabel, inV, inVLabel⟩

/-- The ends that a document of a kind has. -/
def endsOf (d : ElementDraft) : ElementKind → Except FormatError (Option Ends)
  | .vertex =>
    match d.presentEndpoint? with
    | some field => .error (.unexpectedEndpoint field)
    | none => .ok none
  | .edge => some <$> d.ends

def toDoc (d : ElementDraft) : Except FormatError ElementDoc := do
  let id := d.id.getD .null
  let kind := d.kind.getD .vertex
  checkId id
  let ends ← d.endsOf kind
  .ok ⟨id, d.label.getD "", kind, ends, d.properties.getD []⟩

end ElementDraft

open Json.Reader in
/-- Reads a document.  That it is of the wrong form is found when it is read to its end. -/
def ElementDoc.read (depth : Nat) : Json.Reader ElementDoc := do
  let draft ← record ElementDraft.record {} depth
  match draft.toDoc with
  | .ok doc => pure doc
  | .error e => reject (.format e)

/-! ### Looking up properties -/

namespace ElementDoc

def isEdge (doc : ElementDoc) : Bool := doc.kind = .edge

/-- A property as it is read when nothing is known of it: numbers are doubles. -/
def property? (doc : ElementDoc) (key : String) : Option PropertyValue :=
  (doc.properties.lookup key).bind PropertyValue.ofJson?

/-- A property narrowed to a kind of numbers. -/
def propertyAs? (doc : ElementDoc) (key : String) (kind : NumberKind) : Option PropertyValue :=
  (doc.property? key).map (·.narrow kind)

/-- A property that is a timestamp, as milliseconds or as a date and time. -/
def timestamp? (doc : ElementDoc) (key : String) : Except FormatError (Option Timestamp) :=
  match doc.properties.lookup key with
  | none | some .null => .ok none
  | some j => some <$> Timestamp.ofJson .rfc3339 j

/-- A missing property is nothing. -/
theorem property?_of_lookup_eq_none {doc : ElementDoc} {key : String} (h : doc.properties.lookup key = none) :
    doc.property? key = none := by
  simp [property?, h]

/-- A null property is nothing. -/
theorem property?_of_lookup_null {doc : ElementDoc} {key : String}
    (h : doc.properties.lookup key = some .null) :
    doc.property? key = none := by
  simp [property?, h, PropertyValue.ofJson?]

end ElementDoc

end PropertyGraph
