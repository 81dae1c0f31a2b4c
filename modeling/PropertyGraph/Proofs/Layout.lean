import PropertyGraph.Proofs.Encoding

/-!
# The layout of written texts

The text of a value does not depend on where it stands: it is written the same wherever a value may stand, and the
texts of lists, vertices and edges are put together from those of what they hold.  The key facts: a step that puts a
tree appends the text of the value (`Registry.run_encode_of_puts`), the text of a list is the array of the texts of
its items (`Registry.toText_list_eq_ok_iff`), and that of an element is an object whose members have a fixed order
(`Registry.toText_element_eq_ok_iff_members`).
-/

namespace PropertyGraph

open Json Json.Reader JsonWriter

/-! ### Texts of parts -/

/-- A text between quotation marks, with the escapes it needs. -/
def stringText (s : String) : String := String.ofList (stringChars s)

/-- The text of an object whose members have given names and whose values have given texts. -/
def objectText (members : List (String × String)) : String :=
  "\x7b" ++ String.intercalate "," (members.map fun m => stringText m.1 ++ ":" ++ m.2) ++ "\x7d"

/-- An identifier as it is written without a type tag. -/
def Identifier.plainText : Identifier → String
  | numeric n => String.ofList (Decimal.signed n.toInt)
  | textual s => stringText s

/-- The text of a property value on its own; a property without a value is null. -/
def Property.text (r : Registry) (p : Property) : Except EncodeError String :=
  match p.value with
  | some v => r.toText v
  | none => .ok "null"

/-- The text of an object that has the keys of a map, in its order, as the names of values with given texts. -/
def PropertyMap.membersText (m : PropertyMap) (texts : List String) : String :=
  objectText ((m.values.map (·.key)).zip texts)

/-- The members of an element before its properties, with the texts of their values. -/
def Element.headTexts : Element → List (String × String)
  | vertex v => [("id", v.id.plainText), ("label", stringText v.label), ("type", stringText "vertex")]
  | edge e =>
    [("id", e.id.plainText), ("label", stringText e.label), ("type", stringText "edge"),
      ("outV", e.source.id.plainText), ("outVLabel", stringText e.source.label),
      ("inV", e.target.id.plainText), ("inVLabel", stringText e.target.label)]

theorem Identifier.ofList_compact_leaf (i : Identifier) : String.ofList i.leaf.compact = i.plainText := by
  cases i <;> rfl

theorem JsonLeaf.ofList_compact_string (s : String) : String.ofList (string s).compact = stringText s := rfl

namespace JsonTree

theorem ofList_compact_leaf (l : JsonLeaf) : String.ofList (leaf l).compact = String.ofList l.compact := by
  rw [compact]

theorem ofList_compact_object (members : List (String × JsonTree)) :
    String.ofList (object members).compact =
      objectText (members.map fun m => (m.1, String.ofList m.2.compact)) := by
  have hmembers : (members.map fun m => (m.1, String.ofList m.2.compact)).map (fun m => stringText m.1 ++ ":" ++ m.2) =
      ((memberTexts members).map memberText).map String.ofList := by
    rw [memberTexts_eq_map, List.map_map, List.map_map, List.map_map]
    refine List.map_congr_left fun m _ => String.toList_injective ?_
    simp [stringText, memberText]
  rw [objectText, hmembers, intercalate_ofList, compact]
  apply String.toList_injective
  simp

end JsonTree

namespace Property

theorem text_eq_ok_iff {r : Registry} {p : Property} {text : String} :
    p.text r = .ok text ↔ ∃ t, p.tree? r = some t ∧ text = String.ofList t.compact := by
  unfold Property.text tree?
  cases p.value with
  | some v => exact Registry.toText_value_eq_ok_iff
  | none =>
    constructor
    · intro h
      exact ⟨_, rfl, (Except.ok.inj h).symm⟩
    · rintro ⟨t, h, rfl⟩
      obtain rfl := Option.some.inj h
      rfl

theorem members?_eq (r : Registry) (ps : List Property) :
    members? r ps = (ps.mapM (tree? r)).map fun ts => (ps.map (·.key)).zip ts := by
  induction ps with
  | nil => rfl
  | cons p ps ih =>
    rw [members?, ih, List.mapM_cons]
    cases p.tree? r with
    | none => rfl
    | some t =>
      cases ps.mapM (tree? r) <;> rfl

end Property

namespace Element

theorem headTexts_eq (element : Element) :
    (element.head ++ element.endMembers).map (fun m => (m.1, String.ofList m.2.compact)) = element.headTexts := by
  cases element <;>
    simp [head, endMembers, headTexts, JsonTree.ofList_compact_leaf, Identifier.ofList_compact_leaf,
      JsonLeaf.ofList_compact_string, id, label, kind, ElementKind.name]

theorem ofList_compact_object (element : Element) (ms : List (String × JsonTree)) :
    String.ofList (JsonTree.object (element.head ++ (element.endMembers ++ [("properties", .object ms)]))).compact =
      objectText (element.headTexts ++ [("properties", String.ofList (JsonTree.object ms).compact)]) := by
  rw [JsonTree.ofList_compact_object, ← List.append_assoc, List.map_append, headTexts_eq, List.map_singleton]

theorem ofList_compact_properties (element : Element) (ts : List JsonTree) :
    String.ofList (JsonTree.object (element.head ++ (element.endMembers ++
        [("properties", .object ((element.properties.values.map (·.key)).zip ts))]))).compact =
      objectText (element.headTexts ++
        [("properties", element.properties.membersText (ts.map fun t => String.ofList t.compact))]) := by
  rw [ofList_compact_object, JsonTree.ofList_compact_object, PropertyMap.membersText, List.zip_map_right]
  rfl

end Element

namespace Registry

variable {α : Type} [Encode α] {r : Registry}

/-! ### Values at their places -/

/-- What puts a tree where a value may stand succeeds there exactly if the value has a text, and appends it. -/
theorem run_encode_of_puts {x : α} {t? : Option JsonTree} (h : Puts (encode r x) t?) {w : JsonWriter}
    (hw : w.hasPlace) :
    ((∃ w', (encode r x : Write Unit).run w = .ok () w') ↔ ∃ text, r.toText x = .ok text) ∧
      ∀ text, r.toText x = .ok text → (encode r x : Write Unit).run w = .ok () (w.withValue text) := by
  have hrun := h w hw
  cases t? with
  | none =>
    obtain ⟨e, last, hlast⟩ := hrun
    have hno (text : String) : ¬r.toText x = .ok text := fun htext => by
      obtain ⟨t, ht, -⟩ := (toText_eq_ok_iff h).1 htext
      cases ht
    refine ⟨⟨fun ⟨w', hw'⟩ => ?_, fun ⟨text, htext⟩ => absurd htext (hno text)⟩,
      fun text htext => absurd htext (hno text)⟩
    rw [hlast] at hw'
    cases hw'
  | some t =>
    refine ⟨⟨fun _ => ⟨_, (toText_eq_ok_iff h).2 ⟨t, rfl, rfl⟩⟩, fun _ => ⟨_, hrun⟩⟩, fun text htext => ?_⟩
    obtain ⟨t', ht, rfl⟩ := (toText_eq_ok_iff h).1 htext
    obtain rfl := Option.some.inj ht
    exact hrun

/-! ### Lists -/

theorem addsItems_writeEach {tree? : α → Option JsonTree} (h : ∀ x, Puts (encode r x) (tree? x)) (xs : List α) :
    AddsItems (writeEach r xs) (xs.mapM tree?) := by
  induction xs with
  | nil => exact addsItems_nil
  | cons x xs ih =>
    have htrees : (x :: xs).mapM tree? = (tree? x).bind fun t => (xs.mapM tree?).map (t :: ·) := by
      rw [List.mapM_cons]
      cases tree? x with
      | none => rfl
      | some t => cases xs.mapM tree? <;> rfl
    rw [htrees]
    exact AddsItems.cons (h x) ih

/-- The text of a list is the array of the texts of its items, and there is one if all items have texts. -/
theorem toText_list_eq_ok_iff {tree? : α → Option JsonTree} (h : ∀ x, Puts (encode r x) (tree? x)) {xs : List α}
    {text : String} :
    r.toText xs = .ok text ↔ ∃ texts, xs.mapM r.toText = .ok texts ∧ text = arrayText texts := by
  have hputs : Puts (encode r xs) ((xs.mapM tree?).map .array) := (addsItems_writeEach h xs).puts_array
  have htexts {texts : List String} : xs.mapM r.toText = .ok texts ↔ _ :=
    mapM_eq_ok_iff fun x _ => toText_eq_ok_iff (h x)
  rw [toText_eq_ok_iff hputs]
  constructor
  · rintro ⟨t, ht, rfl⟩
    obtain ⟨ts, hts, rfl⟩ := Option.map_eq_some_iff.1 ht
    exact ⟨_, htexts.2 ⟨ts, hts, rfl⟩, JsonTree.ofList_compact_array ts⟩
  · rintro ⟨texts, hall, rfl⟩
    obtain ⟨ts, hts, rfl⟩ := htexts.1 hall
    exact ⟨_, by rw [hts]; rfl, (JsonTree.ofList_compact_array ts).symm⟩

theorem writeItems_eq_writeEach (items : List PropertyValue) :
    PropertyValue.writeItems r items = writeEach r items := by
  induction items with
  | nil => rfl
  | cons v vs ih =>
    rw [PropertyValue.writeItems, ih]
    rfl

/-- A value that is a list is written as the list of its items. -/
theorem toText_list (items : List PropertyValue) : r.toText (PropertyValue.list items) = r.toText items := by
  have hwrite : (encode r (PropertyValue.list items) : Write Unit) = encode r items := by
    show PropertyValue.write r (.list items) = _
    rw [PropertyValue.write, writeItems_eq_writeEach]
    rfl
  rw [toText, toText, hwrite]

/-! ### Vertices and edges -/

/-- The text of an element is that of an object whose last member has the properties in the order of the map. -/
theorem toText_element_eq_ok_iff_members (element : Element) {text : String} :
    r.toText element = .ok text ↔
      ∃ texts, element.properties.values.mapM (Property.text r) = .ok texts ∧
        text = objectText (element.headTexts ++ [("properties", element.properties.membersText texts)]) := by
  have htexts {texts : List String} : element.properties.values.mapM (Property.text r) = .ok texts ↔ _ :=
    mapM_eq_ok_iff fun _ _ => Property.text_eq_ok_iff
  rw [toText_element_eq_ok_iff, Element.tree?, Property.members?_eq]
  constructor
  · rintro ⟨t, ht, rfl⟩
    obtain ⟨ms, hms, rfl⟩ := Option.map_eq_some_iff.1 ht
    obtain ⟨ts, hts, rfl⟩ := Option.map_eq_some_iff.1 hms
    exact ⟨_, htexts.2 ⟨ts, hts, rfl⟩, element.ofList_compact_properties ts⟩
  · rintro ⟨texts, hall, rfl⟩
    obtain ⟨ts, hts, rfl⟩ := htexts.1 hall
    exact ⟨_, by rw [hts]; rfl, (element.ofList_compact_properties ts).symm⟩

/-- **Texts are put together from texts.**  Wherever a value may stand, a property value is written if and only if it
has a text on its own, and then that text is appended behind a comma where one is due, with one more value accounted
for in the innermost frame.  So the text of a vertex or an edge is that of an object with its members in a fixed
order, with identifiers that are not tagged and the properties in the order of the map, each with its own text; and
the text of a list, told as a value or as its items, is the array of the texts of the items. -/
theorem toText_compositional (r : Registry) :
    (∀ (v : PropertyValue) (w : JsonWriter), w.hasPlace →
      ((∃ w', (v.write r).run w = .ok () w') ↔ ∃ text, r.toText v = .ok text) ∧
        ∀ text, r.toText v = .ok text → (v.write r).run w = .ok () (w.withValue text)) ∧
    (∀ (v : Vertex) (text : String), r.toText v = .ok text ↔
      ∃ texts, v.properties.values.mapM (Property.text r) = .ok texts ∧
        text = objectText [("id", v.id.plainText), ("label", stringText v.label), ("type", stringText "vertex"),
          ("properties", v.properties.membersText texts)]) ∧
    (∀ (e : Edge) (text : String), r.toText e = .ok text ↔
      ∃ texts, e.properties.values.mapM (Property.text r) = .ok texts ∧
        text = objectText [("id", e.id.plainText), ("label", stringText e.label), ("type", stringText "edge"),
          ("outV", e.source.id.plainText), ("outVLabel", stringText e.source.label),
          ("inV", e.target.id.plainText), ("inVLabel", stringText e.target.label),
          ("properties", e.properties.membersText texts)]) ∧
    ∀ items : List PropertyValue, r.toText (PropertyValue.list items) = r.toText items ∧
      ∀ text, r.toText items = .ok text ↔
        ∃ texts, items.mapM r.toText = .ok texts ∧ text = arrayText texts :=
  ⟨fun v _ hw => run_encode_of_puts (x := v) (v.puts_write r) hw,
    fun v _ => toText_element_eq_ok_iff_members (.vertex v), fun e _ => toText_element_eq_ok_iff_members (.edge e),
    fun items =>
      ⟨toText_list items, fun _ => toText_list_eq_ok_iff fun v : PropertyValue => v.puts_write r⟩⟩

end Registry

end PropertyGraph
