import PropertyGraph.Command
import PropertyGraph.Decode

/-!
# Summaries of documents

The command that reads a file with a list of documents and prints how many there are of each kind and
label, how often each property key occurs, and the first documents with their properties.
-/

namespace PropertyGraph.Summary

/-- The keys with the number of times that each occurs, in increasing order of the keys. -/
def count {α : Type} [BEq α] (before : α → α → Bool) (keys : List α) : List (α × Nat) :=
  ((keys.mergeSort before).foldr (fun key counted =>
    match counted with
    | (k, n) :: rest => if k == key then (k, n + 1) :: rest else (key, 1) :: counted
    | [] => [(key, 1)]) [])

/-- The order of texts by their characters. -/
def textBefore (s t : String) : Bool := compare s t != .gt

/-- The order of pairs of texts, by the first and then by the second. -/
def pairBefore (s t : String × String) : Bool := (compare s.1 t.1).then (compare s.2 t.2) != .gt

/-- The beginning of a text, at most 60 characters of it. -/
def preview (s : String) : String :=
  if 60 < s.length then String.ofList (s.toList.take 60) ++ "..." else s

/-- A property value in a summary: texts are cut short, and lists and objects are only named. -/
def valueText : Option PropertyValue → String
  | none => "null"
  | some (.text s) => "\"" ++ preview s ++ "\""
  | some (.float64 (.finite x)) =>
    if x.isIntegral then Layout.plain.text (.finite x) else (Binary.finite x).fixedText 6
  | some (.bool b) => String.ofList (Json.boolChars b)
  | some (.list items) => "LIST[" ++ toString items.length ++ "]"
  | some (.nested _) => "OBJECT"
  | some v => v.shown

def heading (s : String) : List String := ["", "=== " ++ s ++ " ==="]

/-- A document without its properties. -/
def docLine (doc : ElementDoc) : String :=
  match doc.ends with
  | some ends =>
    "edge " ++ doc.id.text ++ " [" ++ doc.label ++ "] " ++
      ends.outVLabel ++ ":" ++ ends.outV.text ++ " -> " ++
      ends.inVLabel ++ ":" ++ ends.inV.text
  | none => "vertex " ++ doc.id.text ++ " [" ++ doc.label ++ "]"

/-- The properties of a document, one a line. -/
def propertyLines (doc : ElementDoc) : List String :=
  doc.properties.map fun (key, _) => "    " ++ key ++ " = " ++ valueText (doc.property? key)

def report (docs : List ElementDoc) : List String :=
  let labels := count pairBefore (docs.map fun doc => (doc.kind.name, doc.label))
  let keys := count textBefore (docs.flatMap fun doc => doc.properties.map Prod.fst)
  heading ("Elements (" ++ toString docs.length ++ ")") ++
    (labels.map fun ((kind, label), n) =>
      "  " ++ Command.column 6 kind ++ " " ++ Command.column 24 label ++ " " ++ toString n) ++
    heading ("Property keys (" ++ toString keys.length ++ ")") ++
    (keys.map fun (key, n) => "  " ++ Command.column 24 key ++ " " ++ toString n) ++
    heading "First elements" ++
    ((docs.take 10).flatMap fun doc => docLine doc :: propertyLines doc)

def defaultFile : String := "elements.json"

def command (files : Files) (args : List String) : Command Unit := do
  let path := args.headD defaultFile
  Command.line ("Reading: " ++ path)
  let text ← Command.readFile files path
  Command.line ("File size: " ++ toString text.utf8ByteSize ++ " bytes")
  let docs ← Command.require DecodeError.shown (Registry.default.fromText Target.documents text)
  Command.lines (report docs)

end PropertyGraph.Summary
