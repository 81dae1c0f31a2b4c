import Std.Data.HashMap
import PropertyGraph.Command
import PropertyGraph.Decode
import PropertyGraph.Encode

/-!
# A social graph

The command that makes a graph of people who know each other, from a file or by a rule, writes it with
both formats of timestamps, reads it back and checks what came back.
-/

namespace PropertyGraph.Social

/-- A person, and the names of the people whom they know. -/
structure Person where
  name : String
  age : Option Int32
  city : Option String
  score : Option Binary64
  knows : List String

/-! ### People from a file -/

/-- The fields of a person as far as they are read. -/
structure PersonDraft where
  name : Option String := none
  age : Option (Option Int32) := none
  city : Option (Option String) := none
  score : Option (Option Binary64) := none
  knows : Option (List String) := none

open Json.Reader in
/-- The fields of a person in the order in which an array has them. -/
def PersonDraft.record : Json.Reader.Record PersonDraft where
  name := "struct Person"
  fields := [
    ⟨"name", .required, (·.name.isSome), fun _ d => do return { d with name := some (← string) }⟩,
    ⟨"age", .nullable, (·.age.isSome), fun _ d => do return { d with age := some (← optional int32) }⟩,
    ⟨"city", .nullable, (·.city.isSome), fun _ d => do return { d with city := some (← optional string) }⟩,
    ⟨"score", .nullable, (·.score.isSome), fun _ d => do return { d with score := some (← optional float64) }⟩,
    ⟨"knows", .defaulted, (·.knows.isSome), fun depth d => do
      return { d with knows := some (← list (fun _ => string) depth) }⟩]

def PersonDraft.toPerson (d : PersonDraft) : Person :=
  ⟨d.name.getD "", d.age.join, d.city.join, d.score.join, d.knows.getD []⟩

def Person.read (depth : Nat) : Json.Reader Person :=
  PersonDraft.toPerson <$> Json.Reader.record PersonDraft.record {} depth

/-- The people in a text. -/
def people (text : List Char) : Except Json.Fault (List Person) :=
  Json.Reader.ofText (Json.Reader.list Person.read Json.maxDepth) text

/-! ### People by a rule -/

def personName (i : Nat) : String := "person-" ++ toString i

/-- The numbers of the people that a person with a number knows: those 1, 7 and 31 further on, in a
circle. -/
def friends (total i : Nat) : List Nat := ([1, 7, 31].map fun step => (i + step) % total).filter (· ≠ i)

/-- A person with a number out of a count of people. -/
def person (total i : Nat) : Person where
  name := personName i
  age := some (.ofNat (18 + i % 60))
  city := if i % 3 = 0 then none else some ("city-" ++ toString (i % 97))
  score := some (.ofRatio (i % 1000) 8)
  knows := (friends total i).map personName

/-! ### The graph -/

/-- The number of digits of the numbered part of a vertex's identifier. -/
def serialDigits : Nat := 12

/-- The identifier of the vertex with a number, of the length of a random identifier. -/
def vertexId (i : Nat) : Identifier :=
  .textual (String.ofList ("00000000-0000-4000-8000-".toList ++ Decimal.padded serialDigits i))

/-- The vertex of a person; a person without a city has a null one. -/
def vertex (i : Nat) (p : Person) : Vertex where
  id := vertexId i
  label := "person"
  properties :=
    let age := p.age.map fun n => Property.mk "age" (some (.int32 n))
    let score := p.score.map fun x => Property.mk "score" (some (.float64 x))
    let properties :=
      [⟨"name", some (.text p.name)⟩] ++ age.toList ++ [⟨"city", p.city.map .text⟩] ++ score.toList
    properties.foldl PropertyMap.set ∅

/-- Two names, of a person and of someone they know who is not in the graph. -/
structure Stranger where
  person : String
  friend : String

/-- The vertices and edges of people, and the strangers among those that they know. -/
structure Graph where
  vertices : List Vertex
  edges : List Edge
  strangers : List Stranger

/-- The milliseconds of the start of the first edge. -/
def firstSince : Int := 1609459200000

/-- The edge with a number; each starts a day after the one before. -/
def edge (number : Nat) (source target : Endpoint) : Edge where
  id := .numeric (.ofNat number)
  label := "knows"
  source := source
  target := target
  properties :=
    PropertyMap.empty
      |>.set ⟨"since", some (.timestamp ⟨.ofInt (firstSince + number * 86400000)⟩)⟩
      |>.set ⟨"weight", some (.float32 (.ofRatio 1 2))⟩

/-- The graph of people: an edge for each name that a person knows, unless nobody has it; of several
people with the same name the last one is meant. -/
def graph (people : List Person) : Graph :=
  let vertices := people.mapIdx vertex
  let pairs := people.zip vertices
  let named := pairs.foldl (fun table (p, v) => table.insert p.name v) (∅ : Std.HashMap String Vertex)
  let known := pairs.flatMap fun (p, v) => p.knows.map fun friend => (p.name, v, friend)
  let links := known.filterMap fun (_, v, friend) => named[friend]?.map (v, ·)
  { vertices := vertices
    edges := links.mapIdx fun i (v, w) => edge i v.endpoint w.endpoint
    strangers := (known.filter fun (_, _, friend) => !named.contains friend).map fun (name, _, friend) =>
      ⟨name, friend⟩ }

/-- The elements of a graph, the vertices first. -/
def Graph.elements (g : Graph) : List Element := g.vertices.map .vertex ++ g.edges.map .edge

/-! ### The command -/

/-- Why a text is no count. -/
inductive CountFault where
  | empty | invalidDigit | tooLarge

def CountFault.shown (fault : CountFault) : String :=
  let kind := match fault with
    | empty => "Empty"
    | invalidDigit => "InvalidDigit"
    | tooLarge => "PosOverflow"
  shownFields "ParseIntError" [("kind", kind)]

/-- The number of digits, the fault at the first character that is none or that makes the number too
large. -/
def countDigits : Nat → List Char → Except CountFault Nat
  | n, [] => .ok n
  | n, c :: cs =>
    if !c.isDigit then .error .invalidDigit
    else if 18446744073709551615 < n * 10 + Decimal.digitValue c then .error .tooLarge
    else countDigits (n * 10 + Decimal.digitValue c) cs

/-- The count that a text says, possibly after a plus sign. -/
def count : List Char → Except CountFault Nat
  | [] => .error .empty
  | '+' :: c :: cs => countDigits 0 (c :: cs)
  | cs => countDigits 0 cs

def defaultCount : Nat := 10000

/-- The registry that writes timestamps as dates. -/
def dates : Registry := { timestamps := .rfc3339 }

/-- The ages of people and the ages in their documents have to agree; the number of those compared. -/
def checkAges (docs : List ElementDoc) (people : List Person) : Command Nat := do
  for (doc, p) in docs.zip people do
    let age := doc.propertyAs? "age" .int32
    if !PropertyValue.equalOption age (p.age.map .int32) then
      let shown := match age with
        | some v => "Some(" ++ v.shown ++ ")"
        | none => "None"
      throw (Shown.text ("age mismatch for " ++ p.name ++ ": " ++ shown))
  pure (docs.zip people).length

/-- The number of documents of edges with a start. -/
def countSince (docs : List ElementDoc) : Nat :=
  (docs.filter fun doc => doc.isEdge && (doc.timestamp? "since").toOption.join.isSome).length

/-- The people of a run: those in a file, or a count of people by the rule. -/
def load (files : Files) (path : Option String) (total : Nat) : Command (List Person) :=
  match path with
  | some path => do
    Command.line ("Loading people from: " ++ path)
    let text ← Command.readFile files path
    Command.require (fun fault => Json.Fault.shown fault text.toList) (people text.toList)
  | none => pure ((List.range total).map (person total))

/-- Makes a graph, writes it, reads it back and checks it.  The arguments are a file or `-`, and a
count. -/
def command (files : Files) (args : List String) : Command Unit := do
  let path := (args[0]?).filter (· ≠ "-")
  let total ← Command.require CountFault.shown ((args[1]?).elim (.ok defaultCount) (count ·.toList))
  let people ← load files path total
  Command.line ("Loaded " ++ toString people.length ++ " people")
  let g := graph people
  for s in g.strangers do
    Command.line ("WARN unknown friend, skipping edge person=" ++ s.person ++ " friend=" ++ s.friend)
  let sizes := toString g.vertices.length ++ " vertices"
  Command.line ("Built " ++ sizes ++ " and " ++ toString g.edges.length ++ " edges")
  let text ← Command.require EncodeError.shown (Registry.default.toListText g.elements)
  Command.lines ["", "Encode (epoch millis): " ++ toString text.utf8ByteSize ++ " bytes"]
  let dated ← Command.require EncodeError.shown (dates.toListText g.elements)
  Command.lines ["", "Encode (RFC 3339): " ++ toString dated.utf8ByteSize ++ " bytes"]
  let docs ← Command.require DecodeError.shown (Registry.default.fromText Target.documents text)
  Command.lines ["", "Decode: (avg of 10 iterations)"]
  let elements := g.elements.length
  if docs.length ≠ elements then
    throw (Shown.text ("decoded " ++ toString docs.length ++ " elements, expected " ++ toString elements))
  let ages ← checkAges docs people
  let megabytes : Binary64 := .ofRatio text.utf8ByteSize 1000000
  let percent : Binary64 := .ofRatio (100 * dated.utf8ByteSize) text.utf8ByteSize
  Command.lines [
    "INFO decoded graph verified ages_checked=" ++ toString ages ++
      " edges_with_since=" ++ toString (countSince docs),
    "", "=== Summary ===", "People: " ++ toString people.length,
    "Elements: " ++ toString elements ++ " (" ++ sizes ++ ", " ++ toString g.edges.length ++ " edges)",
    "JSON size: " ++ toString text.utf8ByteSize ++ " bytes (" ++ megabytes.fixedText 1 ++
      " MB), RFC 3339 variant " ++ percent.fixedText 1 ++ "% of that"]

end PropertyGraph.Social
