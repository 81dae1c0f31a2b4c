import PropertyGraph.Encode
import PropertyGraph.Proofs.Json.Placing

/-!
# Graph values as trees

The tree that a property value or an element is written as, if it can be written at all.  A number that is not
finite and a timestamp that has no date of four digits have none, and what holds them has none either.  The key
facts: writing a value puts its tree where a value may stand (`PropertyValue.puts_write`), the same holds of
elements (`Element.puts_write`), and so their texts are those of the trees (`Registry.toText_eq_ok_iff`).
-/

namespace PropertyGraph

open JsonWriter

/-! ### Identifiers and timestamps -/

namespace Identifier

/-- The leaf that an identifier is written as. -/
def leaf : Identifier → JsonLeaf
  | numeric n => .int64 n
  | textual s => .string s

/-- The tree that an identifier is written as in a format. -/
def tree (format : IdFormat) (i : Identifier) : JsonTree :=
  match format with
  | .plain => .leaf i.leaf
  | .tagged .array => .array [.leaf (.string i.typeName), .leaf i.leaf]
  | .tagged .object => .object [(i.typeName, .leaf i.leaf)]

theorem puts_write (i : Identifier) : Puts i.write (some (.leaf i.leaf)) := by
  cases i with
  | numeric n => exact puts_leaf (.int64 n)
  | textual s => exact puts_leaf (.string s)

theorem puts_writeAs (format : IdFormat) (i : Identifier) : Puts (i.writeAs format) (some (i.tree format)) := by
  match format with
  | .plain => exact i.puts_write
  | .tagged .array =>
    have htagged := ((addsItems_nil.cons i.puts_write).cons (puts_leaf (.string i.typeName))).puts_array
    simp only [bind_assoc, pure_bind] at htagged
    simp only [writeAs, writeTagged, TagStyle.begin, TagStyle.close, bind_assoc]
    exact htagged
  | .tagged .object =>
    have htagged := (addsMembers_member i.typeName i.puts_write).puts_object
    simp only [bind_assoc] at htagged
    simp only [writeAs, writeTagged, TagStyle.begin, TagStyle.close, bind_assoc]
    exact htagged

end Identifier

namespace Timestamp

/-- The leaf that a timestamp is written as in a format. -/
def leaf? (format : TimestampFormat) (t : Timestamp) : Option JsonLeaf :=
  match format with
  | .epochMillis => some (.int64 t.millis)
  | .rfc3339 =>
    if Rfc3339.isWritable t.millis.toInt then some (.string (String.ofList (Rfc3339.format t.millis.toInt)))
    else none

theorem puts_writeAs (format : TimestampFormat) (t : Timestamp) :
    Puts (t.writeAs format) ((t.leaf? format).map .leaf) := by
  cases format with
  | epochMillis => exact puts_leaf (.int64 t.millis)
  | rfc3339 =>
    unfold writeAs leaf?
    dsimp only
    split
    · exact puts_leaf (.string _)
    · exact puts_none fun _ => rfl

end Timestamp

/-! ### Property values -/

namespace PropertyValue

mutual

/-- The tree that a property value is written as. -/
def tree? (r : Registry) : PropertyValue → Option JsonTree
  | timestamp t => (t.leaf? r.timestamps).map .leaf
  | int8 n => some (.leaf (.int64 (.ofInt n.toInt)))
  | int32 n => some (.leaf (.int64 (.ofInt n.toInt)))
  | int64 n => some (.leaf (.int64 n))
  | float32 (.finite x) => some (.leaf (.float32 x))
  | float32 _ => none
  | float64 (.finite x) => some (.leaf (.float64 x))
  | float64 _ => none
  | text s => some (.leaf (.string s))
  | bool b => some (.leaf (.bool b))
  | id i => some (i.tree r.identifiers)
  | list items => (trees? r items).map .array
  | nested j => some (.leaf (.json j))

/-- The trees that the items of a list are written as. -/
def trees? (r : Registry) : List PropertyValue → Option (List JsonTree)
  | [] => some []
  | v :: vs => (tree? r v).bind fun t => (trees? r vs).map (t :: ·)

end

mutual

theorem puts_write (r : Registry) (v : PropertyValue) : Puts (v.write r) (v.tree? r) := by
  cases v with
  | timestamp t => exact t.puts_writeAs r.timestamps
  | int8 n => exact puts_leaf (.int64 _)
  | int32 n => exact puts_leaf (.int64 _)
  | int64 n => exact puts_leaf (.int64 n)
  | float32 x =>
    cases x with
    | finite x => exact puts_leaf (.float32 x)
    | _ => exact puts_none fun _ => rfl
  | float64 x =>
    cases x with
    | finite x => exact puts_leaf (.float64 x)
    | _ => exact puts_none fun _ => rfl
  | text s => exact puts_leaf (.string s)
  | bool b => exact puts_leaf (.bool b)
  | id i => exact i.puts_writeAs r.identifiers
  | list items => exact (addsItems_writeItems r items).puts_array
  | nested j => exact puts_leaf (.json j)

theorem addsItems_writeItems (r : Registry) (items : List PropertyValue) :
    AddsItems (PropertyValue.writeItems r items) (trees? r items) := by
  cases items with
  | nil => exact addsItems_nil
  | cons v vs => exact (addsItems_writeItems r vs).cons (puts_write r v)

end

end PropertyValue

/-! ### Elements -/

/-- The tree that a property is written as; a property without a value is null. -/
def Property.tree? (r : Registry) (p : Property) : Option JsonTree :=
  match p.value with
  | some v => v.tree? r
  | none => some (.leaf .null)

/-- The members that properties are written as. -/
def Property.members? (r : Registry) : List Property → Option (List (String × JsonTree))
  | [] => some []
  | p :: ps => (p.tree? r).bind fun t => (members? r ps).map ((p.key, t) :: ·)

theorem Property.addsMembers_write (r : Registry) (p : Property) :
    AddsMembers (p.write r) ((p.tree? r).map fun t => [(p.key, t)]) := by
  unfold Property.write Property.tree?
  refine addsMembers_member p.key ?_
  cases p.value with
  | some v => exact v.puts_write r
  | none => exact puts_leaf .null

theorem addsMembers_stringField (name value : String) :
    AddsMembers (stringField name value) (some [(name, .leaf (.string value))]) :=
  addsMembers_member name (puts_leaf (.string value))

theorem addsMembers_writeField (name : String) (i : Identifier) :
    AddsMembers (i.writeField name) (some [(name, .leaf i.leaf)]) := addsMembers_member name i.puts_write

namespace Element

/-- The members of an element that come first. -/
def head (element : Element) : List (String × JsonTree) :=
  [("id", .leaf element.id.leaf), ("label", .leaf (.string element.label)),
    ("type", .leaf (.string element.kind.name))]

/-- The members of an element that tell the ends of an edge. -/
def endMembers : Element → List (String × JsonTree)
  | vertex _ => []
  | edge e =>
    [("outV", .leaf e.source.id.leaf), ("outVLabel", .leaf (.string e.source.label)),
      ("inV", .leaf e.target.id.leaf), ("inVLabel", .leaf (.string e.target.label))]

/-- The tree that an element is written as. -/
def tree? (r : Registry) (element : Element) : Option JsonTree :=
  (Property.members? r element.properties.values).map fun members =>
    .object (element.head ++ (element.endMembers ++ [("properties", .object members)]))

/-- A step that fails still fails when its error is told otherwise. -/
private theorem addsMembers_adaptExcept {write : Write Unit} {members? : Option (List (String × JsonTree))}
    (h : AddsMembers write members?) (f : EncodeError → EncodeError) :
    AddsMembers (write.adaptExcept f) members? := by
  intro w s n
  have hwrite := h w s n
  cases members? with
  | none =>
    obtain ⟨e, last, hrun⟩ := hwrite
    exact ⟨f e, last, by rw [EStateM.run_adaptExcept, hrun]⟩
  | some members =>
    show (write.adaptExcept f).run _ = _
    rw [EStateM.run_adaptExcept, show write.run (w.opened s (.object n false)) = _ from hwrite]

private theorem addsMembers_writeEach (r : Registry) (element : Element) (ps : List Property) :
    AddsMembers (element.writeEach r ps) (Property.members? r ps) := by
  induction ps with
  | nil => exact addsMembers_nil
  | cons p ps ih =>
    have hproperty : AddsMembers (element.writeProperty r p) ((p.tree? r).map fun t => [(p.key, t)]) :=
      addsMembers_adaptExcept (p.addsMembers_write r) _
    have happend := hproperty.append ih
    rw [Option.bind_map] at happend
    exact happend

private theorem addsMembers_writeProperties (r : Registry) (element : Element) :
    AddsMembers (element.writeProperties r)
      ((Property.members? r element.properties.values).map fun members => [("properties", .object members)]) := by
  have hobject := (addsMembers_writeEach r element element.properties.values).puts_object
  have hmember := addsMembers_member "properties" hobject
  rw [Option.map_map] at hmember
  exact hmember

private theorem addsMembers_ends (element : Element) :
    AddsMembers (match element with | .vertex _ => pure () | .edge e => e.writeEnds) (some element.endMembers) := by
  cases element with
  | vertex v => exact addsMembers_nil
  | edge e =>
    exact (addsMembers_writeField "outV" e.source.id).append
      ((addsMembers_stringField "outVLabel" e.source.label).append
        ((addsMembers_writeField "inV" e.target.id).append (addsMembers_stringField "inVLabel" e.target.label)))

/-- An element is written as an object whose properties come behind members that can always be written. -/
theorem exists_write_eq (r : Registry) (element : Element) :
    ∃ first : Write Unit, AddsMembers first (some (element.head ++ element.endMembers)) ∧
      element.write r = beginObject >>= fun _ =>
        (first >>= fun _ => element.writeProperties r) >>= fun _ => endObject := by
  have hhead := (addsMembers_writeField "id" element.id).append
    ((addsMembers_stringField "label" element.label).append (addsMembers_stringField "type" element.kind.name))
  refine ⟨_, hhead.append (addsMembers_ends element), ?_⟩
  cases element <;> simp only [write, writeHead, bind_assoc, pure_bind]

theorem puts_write (r : Registry) (element : Element) : Puts (element.write r) (element.tree? r) := by
  obtain ⟨first, hfirst, hwrite⟩ := exists_write_eq r element
  have hobject := (hfirst.append (addsMembers_writeProperties r element)).puts_object
  rw [← hwrite] at hobject
  have htree : element.tree? r = Option.map JsonTree.object
      ((some (element.head ++ element.endMembers)).bind fun ms =>
        ((Property.members? r element.properties.values).map fun members =>
          [("properties", .object members)]).map (ms ++ ·)) := by
    rw [Option.bind_some, Option.map_map, Option.map_map, tree?]
    simp only [Function.comp_def, List.append_assoc]
  rw [htree]
  exact hobject

end Element

/-! ### Texts -/

namespace Registry

variable {α : Type} [Encode α] {r : Registry}

/-- A value whose writing puts a tree has the text of the tree, and has none if there is no tree. -/
theorem toText_eq_ok_iff {x : α} {t? : Option JsonTree} (h : Puts (encode r x) t?) {text : String} :
    r.toText x = .ok text ↔ ∃ t, t? = some t ∧ text = String.ofList t.compact := by
  have hrun := h {} rfl
  unfold toText
  cases t? with
  | none =>
    obtain ⟨e, w, hw⟩ := hrun
    rw [show (encode r x : Write Unit) {} = .error e w from hw]
    constructor
    · intro h
      cases h
    · rintro ⟨t, h, -⟩
      cases h
  | some t =>
    rw [show (encode r x : Write Unit) {} = .ok () (withValue {} (String.ofList t.compact)) from hrun]
    constructor
    · intro h
      exact ⟨t, rfl, (Except.ok.inj ((finish_withValue _).symm.trans h)).symm⟩
    · rintro ⟨t', h, rfl⟩
      obtain rfl := Option.some.inj h
      exact finish_withValue _

theorem toText_value_eq_ok_iff {v : PropertyValue} {text : String} :
    r.toText v = .ok text ↔ ∃ t, v.tree? r = some t ∧ text = String.ofList t.compact :=
  toText_eq_ok_iff (v.puts_write r)

theorem toText_element_eq_ok_iff {element : Element} {text : String} :
    r.toText element = .ok text ↔ ∃ t, element.tree? r = some t ∧ text = String.ofList t.compact :=
  toText_eq_ok_iff (element.puts_write r)

theorem mapM_tree?_cons {β : Type} {tree? : β → Option JsonTree} {x : β} {xs : List β} {ts : List JsonTree} :
    (x :: xs).mapM tree? = some ts ↔ ∃ t us, tree? x = some t ∧ xs.mapM tree? = some us ∧ ts = t :: us := by
  rw [List.mapM_cons]
  constructor
  · intro h
    obtain ⟨t, ht, h⟩ := Option.bind_eq_some_iff.1 h
    obtain ⟨us, hus, h⟩ := Option.bind_eq_some_iff.1 h
    exact ⟨t, us, ht, hus, (Option.some.inj h).symm⟩
  · rintro ⟨t, us, ht, hus, rfl⟩
    rw [ht, hus]
    rfl

/-- Things whose texts are those of their trees have all texts if and only if they have all trees. -/
theorem mapM_eq_ok_iff {β : Type} {text : β → Except EncodeError String} {tree? : β → Option JsonTree}
    (h : ∀ x s, text x = .ok s ↔ ∃ t, tree? x = some t ∧ s = String.ofList t.compact) {xs : List β}
    {texts : List String} :
    xs.mapM text = .ok texts ↔ ∃ ts, xs.mapM tree? = some ts ∧ texts = ts.map fun t => String.ofList t.compact := by
  induction xs generalizing texts with
  | nil =>
    constructor
    · intro h
      exact ⟨[], rfl, (Except.ok.inj h).symm⟩
    · rintro ⟨ts, h, rfl⟩
      obtain rfl := Option.some.inj h
      rfl
  | cons x xs ih =>
    rw [List.mapM_cons]
    constructor
    · intro hall
      cases htext : text x with
      | error e =>
        rw [htext] at hall
        cases hall
      | ok s =>
        obtain ⟨t, ht, rfl⟩ := (h x s).1 htext
        rw [htext] at hall
        cases hrest : xs.mapM text with
        | error e =>
          rw [hrest] at hall
          cases hall
        | ok rest =>
          obtain ⟨ts, hts, rfl⟩ := ih.1 hrest
          rw [hrest] at hall
          exact ⟨t :: ts, mapM_tree?_cons.2 ⟨t, ts, ht, hts, rfl⟩, (Except.ok.inj hall).symm⟩
    · rintro ⟨trees, hall, rfl⟩
      obtain ⟨t, ts, ht, hts, rfl⟩ := mapM_tree?_cons.1 hall
      rw [(h x _).2 ⟨t, ht, rfl⟩, ih.2 ⟨ts, hts, rfl⟩]
      rfl

end Registry

theorem intercalate_ofList (texts : List (List Char)) :
    String.intercalate "," (texts.map String.ofList) = String.ofList (Json.commaJoin texts) := by
  apply String.toList_injective
  rw [String.toList_intercalate, List.map_map, String.toList_ofList]
  simp [Json.commaJoin, List.intercalate, Function.comp_def]

/-- The text of an array whose items have given texts. -/
def arrayText (texts : List String) : String := "[" ++ String.intercalate "," texts ++ "]"

theorem JsonTree.ofList_compact_array (ts : List JsonTree) :
    String.ofList (JsonTree.array ts).compact = arrayText (ts.map fun t => String.ofList t.compact) := by
  have hmap : (ts.map fun t => String.ofList t.compact) = (ts.map JsonTree.compact).map String.ofList := by
    rw [List.map_map]
    rfl
  rw [arrayText, hmap, intercalate_ofList, JsonTree.compact, JsonTree.itemTexts_eq_map]
  apply String.toList_injective
  simp

/-- The text of a list of elements is that of the array of their trees. -/
theorem Registry.toListText_eq_ok_iff {r : Registry} {elements : List Element} {text : String} :
    r.toListText elements = .ok text ↔
      ∃ ts, elements.mapM (Element.tree? r) = some ts ∧ text = String.ofList (JsonTree.array ts).compact := by
  unfold toListText
  constructor
  · intro h
    cases htexts : elements.mapM r.toText with
    | error e =>
      rw [htexts] at h
      cases h
    | ok texts =>
      obtain ⟨ts, hts, rfl⟩ := (mapM_eq_ok_iff fun _ _ => toText_element_eq_ok_iff).1 htexts
      rw [htexts] at h
      exact ⟨ts, hts, by rw [JsonTree.ofList_compact_array]; exact (Except.ok.inj h).symm⟩
  · rintro ⟨ts, hts, rfl⟩
    rw [(mapM_eq_ok_iff fun _ _ => toText_element_eq_ok_iff).2 ⟨ts, hts, rfl⟩, JsonTree.ofList_compact_array]
    rfl

end PropertyGraph
