import PropertyGraph.Element
import PropertyGraph.Json.Writer
import PropertyGraph.Registry

/-!
# Writing graph values

How identifiers, timestamps, property values, vertices and edges are written under a registry.  The
identifiers of elements are always plain scalars; a registry can tag those inside property values.
The key facts: a vertex is written as its head and its properties (`encode_vertex`), and a value that
may be missing as the null value (`encode_none`).
-/

namespace PropertyGraph

open JsonWriter

/-- What can be written under a registry. -/
class Encode (α : Type) where
  encode : Registry → α → Write Unit

export Encode (encode)

/-! ### Identifiers -/

/-- What stands before a tagged value. -/
def TagStyle.begin (style : TagStyle) (typeName : String) : Write Unit :=
  match style with
  | array => do
    beginArray
    string typeName
  | object => do
    beginObject
    fieldName typeName

/-- What stands after a tagged value. -/
def TagStyle.close : TagStyle → Write Unit
  | array => endArray
  | object => endObject

def Identifier.write : Identifier → Write Unit
  | numeric n => JsonWriter.int64 n
  | textual s => string s

def Identifier.toJson : Identifier → Json
  | numeric n => .ofInt64 n
  | textual s => .string s

def Identifier.writeTagged (style : TagStyle) (id : Identifier) : Write Unit := do
  style.begin id.typeName
  id.write
  style.close

def Identifier.writeAs (format : IdFormat) (id : Identifier) : Write Unit :=
  match format with
  | .plain => id.write
  | .tagged style => id.writeTagged style

def Identifier.writeField (name : String) (id : Identifier) : Write Unit := do
  fieldName name
  id.write

/-! ### Timestamps and property values -/

/-- Writes a timestamp in a format; a date needs a year of four digits. -/
def Timestamp.writeAs (format : TimestampFormat) (t : Timestamp) : Write Unit :=
  match format with
  | .epochMillis => int64 t.millis
  | .rfc3339 =>
    if Rfc3339.isWritable t.millis.toInt then string (String.ofList (Rfc3339.format t.millis.toInt))
    else throw (.timestampOutOfRange t.millis)

mutual

def PropertyValue.write (r : Registry) : PropertyValue → Write Unit
  | .timestamp t => t.writeAs r.timestamps
  | .int8 n => JsonWriter.int64 (.ofInt n.toInt)
  | .int32 n => JsonWriter.int64 (.ofInt n.toInt)
  | .int64 n => JsonWriter.int64 n
  | .float32 x => JsonWriter.float32 x
  | .float64 x => JsonWriter.float64 x
  | .text s => string s
  | .bool b => JsonWriter.bool b
  | .id i => i.writeAs r.identifiers
  | .list items => do
    beginArray
    PropertyValue.writeItems r items
    endArray
  | .nested j => json j

def PropertyValue.writeItems (r : Registry) : List PropertyValue → Write Unit
  | [] => pure ()
  | v :: vs => do
    v.write r
    PropertyValue.writeItems r vs

end

/-! ### Elements -/

/-- Writes a property as a member; a property without a value is null. -/
def Property.write (r : Registry) (p : Property) : Write Unit := do
  fieldName p.key
  match p.value with
  | some v => v.write r
  | none => null

def Property.displayValue (p : Property) : String :=
  match p.value with
  | some v => v.shown
  | none => "null"

/-- Writes a property of an element; an error tells which property of which element it was. -/
def Element.writeProperty (r : Registry) (element : Element) (p : Property) : Write Unit :=
  (p.write r).adaptExcept fun e => .property p.key p.displayValue element.display e

/-- Writes properties of an element in order, up to the first that fails. -/
def Element.writeEach (r : Registry) (element : Element) : List Property → Write Unit
  | [] => pure ()
  | p :: ps => do
    element.writeProperty r p
    element.writeEach r ps

/-- Writes the properties of an element as the member `properties`. -/
def Element.writeProperties (r : Registry) (element : Element) : Write Unit := do
  fieldName "properties"
  beginObject
  element.writeEach r element.properties.values
  endObject

/-- Opens the object of an element and writes its identifier, label and kind. -/
def Element.writeHead (element : Element) : Write Unit := do
  beginObject
  element.id.writeField "id"
  stringField "label" element.label
  stringField "type" element.kind.name

def Edge.writeEnds (e : Edge) : Write Unit := do
  e.source.id.writeField "outV"
  stringField "outVLabel" e.source.label
  e.target.id.writeField "inV"
  stringField "inVLabel" e.target.label

/-- Writes an element: its head, the ends of an edge, and its properties. -/
def Element.write (r : Registry) (element : Element) : Write Unit := do
  element.writeHead
  match element with
  | .vertex _ => pure ()
  | .edge e => e.writeEnds
  element.writeProperties r
  endObject

def Endpoint.write (e : Endpoint) : Write Unit := do
  beginObject
  e.id.writeField "id"
  stringField "label" e.label
  endObject

/-! ### Instances -/

instance : Encode Identifier := ⟨fun _ => Identifier.write⟩

instance : Encode Timestamp := ⟨fun r => Timestamp.writeAs r.timestamps⟩

instance : Encode PropertyValue := ⟨PropertyValue.write⟩

instance : Encode Element := ⟨Element.write⟩

instance : Encode Vertex := ⟨fun r v => Element.write r (.vertex v)⟩

instance : Encode Edge := ⟨fun r e => Element.write r (.edge e)⟩

instance : Encode Endpoint := ⟨fun _ => Endpoint.write⟩

instance : Encode Datum := ⟨fun _ => datum⟩

instance : Encode Json := ⟨fun _ => json⟩

instance : Encode String := ⟨fun _ => string⟩

instance : Encode Bool := ⟨fun _ => bool⟩

instance : Encode Int64 := ⟨fun _ => int64⟩

instance : Encode Binary64 := ⟨fun _ => float64⟩

instance {α : Type} [Encode α] : Encode (Option α) where
  encode r
    | some x => encode r x
    | none => null

def writeEach {α : Type} [Encode α] (r : Registry) : List α → Write Unit
  | [] => pure ()
  | x :: xs => do
    encode r x
    writeEach r xs

instance {α : Type} [Encode α] : Encode (List α) where
  encode r xs := do
    beginArray
    writeEach r xs
    endArray

def Registry.toText {α : Type} [Encode α] (r : Registry) (x : α) : Except EncodeError String :=
  match (encode r x : Write Unit) {} with
  | .ok _ w => w.finish
  | .error e _ => .error e

/-- The text of a list of elements, each of which is written on its own. -/
def Registry.toListText (r : Registry) (elements : List Element) : Except EncodeError String := do
  let texts ← elements.mapM r.toText
  .ok ("[" ++ String.intercalate "," texts ++ "]")

theorem encode_none {α : Type} [Encode α] (r : Registry) : encode r (none : Option α) = null := rfl

/-- A vertex is written as its head and its properties. -/
theorem encode_vertex (r : Registry) (v : Vertex) :
    encode r v = (do (Element.vertex v).writeHead; (Element.vertex v).writeProperties r; endObject) := rfl

end PropertyGraph
