import PropertyGraph.PropertyMap

/-!
# Vertices and edges

The elements of a property graph.  An edge carries the identifier and the label of the vertices at its
ends, and nothing else of them.  The key fact: the kinds of elements are told apart by their names
(`ElementKind.ofName?_name`).
-/

namespace PropertyGraph

inductive ElementKind where
  | vertex | edge
deriving DecidableEq, Inhabited

/-- The name of a kind, as documents write it. -/
def ElementKind.name : ElementKind → String
  | vertex => "vertex"
  | edge => "edge"

def ElementKind.ofName? (name : String) : Option ElementKind :=
  if name = "vertex" then some vertex else if name = "edge" then some edge else none

/-- The names tell the kinds apart. -/
theorem ElementKind.ofName?_name (kind : ElementKind) : ofName? kind.name = some kind := by
  cases kind <;> rfl

structure Vertex where
  id : Identifier
  label : String
  properties : PropertyMap := ∅

/-- The identifier and the label of the vertex at an end of an edge. -/
structure Endpoint where
  id : Identifier
  label : String
deriving DecidableEq

/-- What an edge carries of a vertex. -/
def Vertex.endpoint (v : Vertex) : Endpoint := ⟨v.id, v.label⟩

structure Edge where
  id : Identifier
  label : String
  source : Endpoint
  target : Endpoint
  properties : PropertyMap := ∅

inductive Element where
  | vertex (v : Vertex)
  | edge (e : Edge)

namespace Element

def id : Element → Identifier
  | vertex v => v.id
  | edge e => e.id

def label : Element → String
  | vertex v => v.label
  | edge e => e.label

def kind : Element → ElementKind
  | vertex _ => .vertex
  | edge _ => .edge

def properties : Element → PropertyMap
  | vertex v => v.properties
  | edge e => e.properties

/-- The element with further properties set. -/
def withProperties (element : Element) (entries : List (Identifier × Property)) : Element :=
  let extend (m : PropertyMap) := entries.foldl (fun m entry => (m.insert entry.1 entry.2).2) m
  match element with
  | vertex v => vertex { v with properties := extend v.properties }
  | edge e => edge { e with properties := extend e.properties }

def display : Element → String
  | vertex v => "vertex " ++ v.id.display ++ ":" ++ v.label
  | edge e =>
    "edge " ++ e.id.display ++ ":" ++ e.label ++
      " (" ++ e.source.id.display ++ " -> " ++ e.target.id.display ++ ")"

def equal : Element → Element → Bool
  | vertex v, vertex w => v.id == w.id && v.label == w.label && v.properties.equal w.properties
  | edge e, edge f =>
    e.id == f.id && e.label == f.label && e.source == f.source && e.target == f.target &&
      e.properties.equal f.properties
  | _, _ => false

end Element

end PropertyGraph
