import Mathlib.Data.List.Nodup
import PropertyGraph.Decode
import PropertyGraph.Proofs.Encoding
import PropertyGraph.Proofs.PropertyMap

/-!
# Documents of elements

What the texts of elements are read as.  A document has the identifiers of its element as JSON values, and under
each key of the element what the text of the property is read as.  The key facts: the keys of a map whose
properties all stand under their keys are distinct (`PropertyMap.NamedByKey.nodup_keys`), the text of an element
is read as its document (`Element.reads_doc`), and a list of elements is read as the list of their documents
(`Registry.fromText_toListText`).
-/

namespace PropertyGraph

open Json Json.Reader

/-! ### What properties are read as -/

/-- What the text of an identifier in a format is read as. -/
def Identifier.raw (format : IdFormat) (i : Identifier) : Json :=
  match format with
  | .plain => i.toJson
  | .tagged .array => .array [.string i.typeName, i.toJson]
  | .tagged .object => .object [(i.typeName, i.toJson)]

/-- What the text of a timestamp in a format is read as. -/
def Timestamp.raw (format : TimestampFormat) (t : Timestamp) : Json :=
  match format with
  | .epochMillis => .ofInt64 t.millis
  | .rfc3339 => .string (String.ofList (Rfc3339.format t.millis.toInt))

namespace PropertyValue

mutual

/-- What the text of a property value is read as when nothing is known of it. -/
def raw (r : Registry) : PropertyValue → Json
  | timestamp t => t.raw r.timestamps
  | int8 n => .ofInt64 (.ofInt n.toInt)
  | int32 n => .ofInt64 (.ofInt n.toInt)
  | int64 n => .ofInt64 n
  | float32 (.finite x) => .ofBinary (Layout.json32.reread x)
  | float64 (.finite x) => .ofBinary (Layout.json64.reread x)
  | float32 _ | float64 _ => .null
  | text s => .string s
  | bool b => .bool b
  | id i => i.raw r.identifiers
  | list items => .array (rawItems r items)
  | nested j => j.reread

/-- What the texts of the items of a list are read as. -/
def rawItems (r : Registry) : List PropertyValue → List Json
  | [] => []
  | v :: vs => raw r v :: rawItems r vs

end

end PropertyValue

/-- What the text of a property is read as: null if it has no value. -/
def Property.raw (r : Registry) (p : Property) : Json :=
  match p.value with
  | some v => v.raw r
  | none => .null

/-- The document that an element is read back as: a vertex has no ends, an edge has those of its vertices. -/
def Element.doc (r : Registry) (element : Element) : ElementDoc where
  id := element.id.toJson
  label := element.label
  kind := element.kind
  ends :=
    match element with
    | .vertex _ => none
    | .edge e => some ⟨e.source.id.toJson, e.source.label, e.target.id.toJson, e.target.label⟩
  properties := element.properties.values.map fun p => (p.key, p.raw r)

/-! ### Trees and what they are read as -/

theorem Identifier.reread_leaf (i : Identifier) : i.leaf.reread = i.toJson := by
  cases i <;> rfl

theorem Identifier.reread_tree (format : IdFormat) (i : Identifier) : (i.tree format).reread = i.raw format := by
  match format with
  | .plain => exact i.reread_leaf
  | .tagged .array => cases i <;> rfl
  | .tagged .object =>
    simp [tree, raw, JsonTree.reread, JsonTree.rereadMembers, ofMembers, Json.insert, reread_leaf]

theorem Timestamp.reread_leaf {format : TimestampFormat} {t : Timestamp} {l : JsonLeaf}
    (h : t.leaf? format = some l) : l.reread = t.raw format := by
  cases format with
  | epochMillis =>
    obtain rfl := Option.some.inj h
    rfl
  | rfc3339 =>
    unfold leaf? at h
    dsimp only at h
    split at h
    · obtain rfl := Option.some.inj h
      rfl
    · cases h

namespace PropertyValue

mutual

theorem reread_tree {r : Registry} {v : PropertyValue} {t : JsonTree} (h : v.tree? r = some t) :
    t.reread = v.raw r := by
  cases v with
  | timestamp s =>
    obtain ⟨l, hl, rfl⟩ := Option.map_eq_some_iff.1 h
    exact Timestamp.reread_leaf hl
  | float32 x =>
    cases x with
    | finite x =>
      obtain rfl := Option.some.inj h
      rfl
    | _ => cases h
  | float64 x =>
    cases x with
    | finite x =>
      obtain rfl := Option.some.inj h
      rfl
    | _ => cases h
  | id i =>
    obtain rfl := Option.some.inj h
    exact i.reread_tree r.identifiers
  | list items =>
    obtain ⟨ts, hts, rfl⟩ := Option.map_eq_some_iff.1 h
    rw [JsonTree.reread, reread_trees hts]
    rfl
  | _ =>
    obtain rfl := Option.some.inj h
    rfl

theorem reread_trees {r : Registry} {vs : List PropertyValue} {ts : List JsonTree} (h : trees? r vs = some ts) :
    JsonTree.rereadItems ts = rawItems r vs := by
  cases vs with
  | nil =>
    obtain rfl := Option.some.inj h
    rfl
  | cons v vs =>
    obtain ⟨t, ht, h⟩ := Option.bind_eq_some_iff.1 h
    obtain ⟨ts, hts, rfl⟩ := Option.map_eq_some_iff.1 h
    rw [JsonTree.rereadItems, reread_tree ht, reread_trees hts]
    rfl

end

end PropertyValue

theorem Property.reread_tree {r : Registry} {p : Property} {t : JsonTree} (h : p.tree? r = some t) :
    t.reread = p.raw r := by
  unfold Property.tree? at h
  unfold Property.raw
  cases hvalue : p.value with
  | none =>
    rw [hvalue] at h
    obtain rfl := Option.some.inj h
    rfl
  | some v =>
    rw [hvalue] at h
    exact PropertyValue.reread_tree h

theorem Property.reread_members {r : Registry} {ps : List Property} {ms : List (String × JsonTree)}
    (h : Property.members? r ps = some ms) :
    JsonTree.rereadMembers ms = ps.map fun p => (p.key, p.raw r) := by
  induction ps generalizing ms with
  | nil =>
    obtain rfl := Option.some.inj h
    rfl
  | cons p ps ih =>
    obtain ⟨t, ht, h⟩ := Option.bind_eq_some_iff.1 h
    obtain ⟨ms, hms, rfl⟩ := Option.map_eq_some_iff.1 h
    rw [JsonTree.rereadMembers, ih hms, Property.reread_tree ht, List.map_cons]

/-! ### Distinct keys -/

theorem ofMembers_eq_self {ms : List (String × Json)} (h : (ms.map Prod.fst).Nodup) : ofMembers ms = ms := by
  have hinsert {key : String} {v : Json} {before : List (String × Json)} (hkey : key ∉ before.map Prod.fst) :
      Json.insert key v before = before ++ [(key, v)] := by
    induction before with
    | nil => rfl
    | cons m before ih =>
      obtain ⟨k, w⟩ := m
      rw [List.map_cons, List.mem_cons, not_or] at hkey
      rw [Json.insert, if_neg (Ne.symm hkey.1), ih hkey.2, List.cons_append]
  have hfold {before : List (String × Json)} (h : ((before ++ ms).map Prod.fst).Nodup) :
      ms.foldl (fun before m => Json.insert m.1 m.2 before) before = before ++ ms := by
    clear * - h hinsert
    induction ms generalizing before with
    | nil => simp
    | cons m ms ih =>
      have hkey : m.1 ∉ before.map Prod.fst := by
        intro hmem
        rw [List.map_append, List.map_cons] at h
        exact (List.nodup_append.1 h).2.2 _ hmem _ (List.mem_cons_self ..) rfl
      rw [List.foldl_cons, hinsert hkey, ih (by simpa using h)]
      simp
  exact @hfold [] h

namespace PropertyMap

/-- Every property stands under the textual identifier that is its key. -/
def NamedByKey (m : PropertyMap) : Prop := ∀ entry ∈ m.entries, entry.1 = .textual entry.2.key

theorem namedByKey_empty : NamedByKey ∅ := by
  intro entry hentry
  cases hentry with
  | mk h => cases h

theorem NamedByKey.set {m : PropertyMap} (h : m.NamedByKey) (p : Property) : (m.set p).NamedByKey := by
  intro entry hentry
  rw [PropertyMap.set, entries_insert] at hentry
  cases hplace : m.index[Identifier.textual p.key]? with
  | none =>
    rw [hplace] at hentry
    rcases Array.mem_push.1 hentry with hentry | rfl
    · exact h entry hentry
    · rfl
  | some place =>
    rw [hplace] at hentry
    obtain ⟨i, hi⟩ := Array.mem_iff_getElem?.1 hentry
    rw [Array.getElem?_modify] at hi
    split at hi
    · rename_i hsame
      obtain ⟨old, hold, rfl⟩ := Option.map_eq_some_iff.1 hi
      have hid := (m.indexes _ place).1 hplace
      rw [hsame, hold] at hid
      exact Option.some.inj hid
    · exact h entry (Array.mem_of_getElem? hi)

theorem NamedByKey.nodup_keys {m : PropertyMap} (h : m.NamedByKey) : (m.values.map Property.key).Nodup := by
  have hids : m.toList.map Prod.fst = (m.values.map Property.key).map Identifier.textual := by
    rw [values, List.map_map, List.map_map]
    exact List.map_congr_left fun entry hentry => h entry (Array.mem_def.2 hentry)
  exact .of_map _ (hids ▸ m.nodup_ids)

end PropertyMap

/-! ### Reading the fields of a document -/

namespace Json.Reader

theorem reads_string (s : String) : Reads string (stringChars s) s := by
  intro rest hrest
  unfold string
  rw [run_bind_of_ok (reads_lead_string s rest hrest)]
  rfl

/-- A text that does not begin the null value is read as a value that is there. -/
theorem reads_optional {α : Type} {read : Reader α} {text : List Char} {a : α} (hstarts : Starts text)
    (hn : text.head? ≠ some 'n') (h : Reads read text a) : Reads (optional read) text (some a) := by
  intro rest hrest
  unfold optional
  rw [run_bind_of_ok (run_peekToken _), hstarts.dropWhile_eq]
  obtain ⟨c, s, rfl, -, -⟩ := hstarts
  rw [List.cons_append, List.head?_cons]
  split
  · rename_i hc
    exact absurd hc hn
  · exact run_map_of_ok (h rest hrest) some

theorem reads_elementKind (kind : ElementKind) (depth : Nat) :
    Reads (elementKind depth) (stringChars kind.name) kind := by
  intro rest hrest
  have hname : elementKindName.run (stringChars kind.name ++ rest) = .ok kind rest := by
    unfold elementKindName
    rw [run_bind_of_ok (reads_lead_string _ rest hrest)]
    dsimp only
    rw [ElementKind.ofName?_name]
    rfl
  unfold elementKind
  rw [run_bind_of_ok (run_peekToken _)]
  exact hname

theorem run_object (depth : Nat) (s : List Char) :
    (object (depth + 1)).run ('\x7b' :: s) = (valueMembers depth).run ('\x7b' :: s) := rfl

variable {σ : Type}

/-- A member whose key is the name of a field is read as the field. -/
theorem run_readMember {depth : Nat} {fields : List (Field σ)} {key : String} {field : Field σ}
    (hfind : fields.find? (·.name == key) = some field) {draft : σ} (hset : field.isSet draft = false)
    (s : List Char) : (readMember depth fields key draft).run (':' :: s) = (field.read depth draft).run s := by
  have hcolon : colon.run (':' :: s) = .ok () s := rfl
  unfold readMember
  rw [hfind]
  dsimp only
  unfold readField
  rw [hset, if_neg Bool.false_ne_true, run_bind_of_ok hcolon]

theorem reads_readMember {depth : Nat} {fields : List (Field σ)} {key : String} {field : Field σ}
    (hfind : fields.find? (·.name == key) = some field) {before after : σ} (hset : field.isSet before = false)
    {text : List Char} (h : Reads (field.read depth before) text after) :
    Reads (readMember depth fields key before) (':' :: text) after := by
  intro rest hrest
  rw [List.cons_append, run_readMember hfind hset]
  exact h rest hrest

theorem run_record_object (form : Record σ) (start : σ) (depth : Nat) (s : List Char) :
    (record form start (depth + 1)).run ('\x7b' :: s) =
      (enclosed endObject (readMembers depth form start)).run ('\x7b' :: s) := rfl

theorem run_record_object_zero (form : Record σ) (start : σ) (s : List Char) :
    (record form start 0).run ('\x7b' :: s) = (failAtNext .depth : Reader σ).run ('\x7b' :: s) := rfl

/-- An object is read as a record if its members are read as fields and no required field is missing. -/
theorem reads_record {form : Record σ} {start draft : σ} {depth : Nat} {ms : List (String × List Char)}
    (h : ReadsMembers (readMember depth form.fields) ms start draft)
    (hmissing : form.fields.find? (fun field => field.presence == .required && !field.isSet draft) = none) :
    Reads (record form start (depth + 1)) ('\x7b' :: (commaJoin (ms.map memberText) ++ ['\x7d'])) draft := by
  intro rest _
  have hread : (readMembers depth form start).run (commaJoin (ms.map memberText) ++ '\x7d' :: rest) =
      .ok draft ('\x7d' :: rest) := by
    unfold readMembers
    rw [run_bind_of_ok (members_commaJoin h rest), hmissing]
    rfl
  rw [List.cons_append, List.append_assoc, run_record_object]
  exact run_enclosed_of_ok hread rfl

end Json.Reader

namespace ElementDraft

private theorem reads_field {α : Type} {read : Reader α} {text : List Char} {a : α} (h : Reads read text a)
    (set : α → ElementDraft) : Reads (do return set (← read)) text (set a) := by
  intro rest hrest
  rw [run_bind_of_ok (h rest hrest), EStateM.run_pure]

theorem spells_leaf (i : Identifier) : Spells i.leaf.compact 0 i.toJson := by
  have := i.leaf.spells_compact
  rwa [i.reread_leaf, show i.leaf.depth = 0 by cases i <;> rfl] at this

theorem head?_leaf (i : Identifier) : i.leaf.compact.head? ≠ some 'n' := by
  cases i with
  | numeric n =>
    show (Decimal.signed n.toInt).head? ≠ _
    intro h
    obtain ⟨s, hs⟩ := List.head?_eq_some_iff.1 h
    have hmem : 'n' ∈ Decimal.signed n.toInt := hs ▸ List.mem_cons_self ..
    unfold Decimal.signed at hmem
    split at hmem
    · rcases List.mem_cons.1 hmem with hmem | hmem
      · cases hmem
      · cases Decimal.isDigit_of_mem_digits hmem
    · cases Decimal.isDigit_of_mem_digits hmem
  | textual s => simp [Identifier.leaf, JsonLeaf.compact, stringChars, Quoted.quote]

/-- The draft of a document after the members that come first. -/
private def ofHead (element : Element) : ElementDraft :=
  { id := some element.id.toJson, label := some element.label, kind := some element.kind }

private theorem readsMembers_head (element : Element) (depth : Nat) {ms : List (String × List Char)}
    {draft : ElementDraft} (h : ReadsMembers (readMember depth record.fields) ms (ofHead element) draft) :
    ReadsMembers (readMember depth record.fields) (JsonTree.memberTexts element.head ++ ms) {} draft := by
  refine .cons (reads_readMember rfl rfl (reads_field ((spells_leaf element.id).reads depth (Nat.zero_le _)) _)) ?_
  refine .cons (reads_readMember rfl rfl (reads_field (reads_string element.label) _)) ?_
  exact .cons (reads_readMember rfl rfl (reads_field (reads_elementKind element.kind depth) _)) h

private theorem reads_outerId (i : Identifier) (depth : Nat) :
    Reads (optional (value depth)) i.leaf.compact (some i.toJson) :=
  reads_optional (spells_leaf i).starts (head?_leaf i) ((spells_leaf i).reads depth (Nat.zero_le _))

private theorem reads_outerLabel (s : String) : Reads (optional string) (stringChars s) (some s) :=
  reads_optional (spells_string s).starts (by simp [stringChars, Quoted.quote]) (reads_string s)

/-- The draft of a document after the members that tell the ends. -/
private def ofEnds (element : Element) : ElementDraft :=
  match element with
  | .vertex _ => ofHead element
  | .edge e =>
    { ofHead element with
      outV := some (some e.source.id.toJson)
      outVLabel := some (some e.source.label)
      inV := some (some e.target.id.toJson)
      inVLabel := some (some e.target.label) }

private theorem readsMembers_ends (element : Element) (depth : Nat) {ms : List (String × List Char)}
    {draft : ElementDraft} (h : ReadsMembers (readMember depth record.fields) ms (ofEnds element) draft) :
    ReadsMembers (readMember depth record.fields) (JsonTree.memberTexts element.endMembers ++ ms) (ofHead element)
      draft := by
  cases element with
  | vertex v => exact h
  | edge e =>
    refine .cons (reads_readMember rfl rfl (reads_field (reads_outerId e.source.id depth) _)) ?_
    refine .cons (reads_readMember rfl rfl (reads_field (reads_outerLabel e.source.label) _)) ?_
    refine .cons (reads_readMember rfl rfl (reads_field (reads_outerId e.target.id depth) _)) ?_
    exact .cons (reads_readMember rfl rfl (reads_field (reads_outerLabel e.target.label) _)) h

/-- The whole draft of the document of an element. -/
private def ofElement (element : Element) (properties : List (String × Json)) : ElementDraft :=
  { ofEnds element with properties := some properties }

private theorem readsMembers_properties (element : Element) {depth n : Nat} (hdepth : n ≤ depth)
    {ms : List (String × JsonTree)} {values : List (String × Json)}
    (h : SpellsMembers (JsonTree.memberTexts ms) n values) :
    ReadsMembers (readMember (depth + 1) record.fields) [("properties", (JsonTree.object ms).compact)] (ofEnds element)
      (ofElement element (ofMembers values)) := by
  have hread : Reads (object (depth + 1)) (JsonTree.object ms).compact (ofMembers values) := by
    intro rest _
    rw [JsonTree.compact, List.cons_append, List.append_assoc, run_object]
    exact run_valueMembers h hdepth rest
  have hset : (ofEnds element).properties.isSome = false := by
    cases element <;> rfl
  exact .cons (reads_readMember rfl hset (reads_field hread _)) (.nil _)

/-- The properties of a document are read only if there are levels enough for them. -/
private theorem le_depth_of_readMember {element : Element} {depth n : Nat} {ms : List (String × JsonTree)}
    {values : List (String × Json)} (h : SpellsMembers (JsonTree.memberTexts ms) n values) {rest s : List Char}
    {draft : ElementDraft}
    (hrun : (readMember depth record.fields "properties" (ofEnds element)).run
      (':' :: (JsonTree.object ms).compact ++ rest) = .ok draft s) : n + 1 ≤ depth := by
  have hset : (ofEnds element).properties.isSome = false := by
    cases element <;> rfl
  rw [List.cons_append, run_readMember rfl hset] at hrun
  obtain ⟨members, t, hread, -⟩ := exists_of_bind hrun
  rw [JsonTree.compact, List.cons_append, List.append_assoc] at hread
  cases depth with
  | zero => cases hread
  | succ depth =>
    rw [run_object] at hread
    exact Nat.succ_le_succ (h.le_depth hread)

private theorem checkId_toJson (i : Identifier) : checkId i.toJson = .ok () := by
  cases i <;> rfl

private theorem toDoc_ofElement (r : Registry) (element : Element) (properties : List (String × Json)) :
    (ofElement element properties).toDoc = .ok { element.doc r with properties := properties } := by
  cases element with
  | vertex v =>
    show (checkId v.id.toJson >>= fun _ => _) = _
    rw [checkId_toJson]
    rfl
  | edge e =>
    -- all four ends are there, and the identifiers among them pass the check
    have hends : (ofElement (.edge e) properties).ends =
        .ok ⟨e.source.id.toJson, e.source.label, e.target.id.toJson, e.target.label⟩ := by
      show (checkId e.source.id.toJson >>= fun _ => checkId e.target.id.toJson >>= fun _ => _) = _
      rw [checkId_toJson, checkId_toJson]
      rfl
    show (checkId e.id.toJson >>= fun _ => some <$> ends _ >>= fun _ => _) = _
    rw [checkId_toJson, hends]
    rfl

end ElementDraft

namespace Element

open ElementDraft

private theorem mem_properties (element : Element) (ms : List (String × JsonTree)) :
    ("properties", JsonTree.object ms) ∈
      element.head ++ (element.endMembers ++ [("properties", JsonTree.object ms)]) := by simp

/-- The properties of an element stand in its text. -/
theorem within_properties (element : Element) (ms : List (String × JsonTree)) :
    (JsonTree.object ms).Within
      (.object (element.head ++ (element.endMembers ++ [("properties", .object ms)]))) :=
  JsonTree.within_object (element.mem_properties ms)

private theorem memberTexts_eq (element : Element) (ms : List (String × JsonTree)) :
    JsonTree.memberTexts (element.head ++ (element.endMembers ++ [("properties", .object ms)])) =
      JsonTree.memberTexts element.head ++ JsonTree.memberTexts element.endMembers ++
        [("properties", (JsonTree.object ms).compact)] := by
  simp [JsonTree.memberTexts_eq_map]

/-- The text of an element is read as its document, in which a repeated key has the last of its values, if there are
as many levels as it nests. -/
theorem reads_doc_ofMembers {r : Registry} {element : Element} {t : JsonTree} (ht : element.tree? r = some t)
    {depth : Nat} (hdepth : t.depth ≤ depth) :
    Reads (ElementDoc.read depth) t.compact
      { element.doc r with properties := ofMembers (element.doc r).properties } := by
  obtain ⟨ms, hms, rfl⟩ := Option.map_eq_some_iff.1 ht
  -- the properties are an object inside the object of the element, so there are two levels at least
  have hnested : (JsonTree.object ms).depth + 1 ≤ depth := by
    refine Nat.le_trans (Nat.succ_le_succ ?_) hdepth
    exact JsonTree.depth_le_depthOfMembers (element.mem_properties ms)
  obtain ⟨depth, rfl⟩ : ∃ d, depth = d + 1 + 1 := ⟨depth - 2, by
    rw [JsonTree.depth] at hnested
    omega⟩
  have hroom : JsonTree.depthOfMembers ms ≤ depth := by
    rw [JsonTree.depth] at hnested
    omega
  have hproperties := readsMembers_properties element hroom (JsonTree.spellsMembers_memberTexts ms)
  have hmembers := readsMembers_head element _ (readsMembers_ends element _ hproperties)
  have hmissing : record.fields.find? (fun field => field.presence == .required &&
      !field.isSet (ofElement element (ofMembers (JsonTree.rereadMembers ms)))) = none := by
    cases element <;> rfl
  have hrecord := reads_record hmembers hmissing
  rw [Property.reread_members hms] at hrecord
  intro rest hrest
  rw [JsonTree.compact, memberTexts_eq, List.append_assoc]
  unfold ElementDoc.read
  rw [run_bind_of_ok (hrecord rest hrest), toDoc_ofElement r]
  rfl

/-- Nothing of an element nests but its properties, which stand in an object of their own. -/
theorem depth_eq_properties (element : Element) (ms : List (String × JsonTree)) :
    (JsonTree.object (element.head ++ (element.endMembers ++ [("properties", .object ms)]))).depth =
      JsonTree.depthOfMembers ms + 2 := by
  have hleaf (i : Identifier) : i.leaf.depth = 0 := by cases i <;> rfl
  have hlabel (s : String) : (JsonLeaf.string s).depth = 0 := rfl
  cases element <;>
    simp [Element.head, Element.endMembers, JsonTree.depth, JsonTree.depthOfMembers, hleaf, hlabel]

/-- The text of an element is read as a document only if there are as many levels as it nests. -/
theorem depth_le_of_read {r : Registry} {element : Element} {t : JsonTree} (ht : element.tree? r = some t)
    {depth : Nat} {rest s : List Char} {doc : ElementDoc}
    (hrun : (ElementDoc.read depth).run (t.compact ++ rest) = .ok doc s) : t.depth ≤ depth := by
  obtain ⟨ms, hms, rfl⟩ := Option.map_eq_some_iff.1 ht
  rw [depth_eq_properties]
  obtain ⟨draft, t, hrecord, -⟩ := exists_of_bind hrun
  rw [JsonTree.compact, List.cons_append, List.append_assoc] at hrecord
  cases depth with
  | zero =>
    rw [run_record_object_zero] at hrecord
    cases hrecord
  | succ depth =>
    -- all members before the properties are read as they stand, so the properties were read too
    rw [run_record_object] at hrecord
    obtain ⟨t, hmembers, -⟩ := exists_of_enclosed hrecord
    obtain ⟨after, t, hmembers, -⟩ := exists_of_bind hmembers
    have hbefore := readsMembers_head element depth (readsMembers_ends element depth (.nil _))
    rw [List.append_nil] at hbefore
    rw [memberTexts_eq, List.singleton_append] at hmembers
    obtain ⟨state, t, hmember⟩ := hbefore.exists_run hmembers
    exact Nat.succ_le_succ (le_depth_of_readMember (JsonTree.spellsMembers_memberTexts ms) hmember)

/-- The text of an element whose properties stand under their keys is read as its document. -/
theorem reads_doc {r : Registry} {element : Element} (hkeys : element.properties.NamedByKey) {t : JsonTree}
    (ht : element.tree? r = some t) {depth : Nat} (hdepth : t.depth ≤ depth) :
    Reads (ElementDoc.read depth) t.compact (element.doc r) := by
  have hvalues : ofMembers (element.doc r).properties = (element.doc r).properties := by
    refine ofMembers_eq_self ?_
    show ((element.properties.values.map fun p => (p.key, p.raw r)).map Prod.fst).Nodup
    rw [List.map_map]
    exact hkeys.nodup_keys
  have hreads := reads_doc_ofMembers ht hdepth
  rwa [hvalues] at hreads

end Element

/-! ### Lists of elements -/

namespace Registry

variable {r : Registry}

private theorem readsEach_doc {elements : List Element} (hkeys : ∀ element ∈ elements, element.properties.NamedByKey)
    {ts : List JsonTree} (hts : elements.mapM (Element.tree? r) = some ts) {depth : Nat}
    (hdepth : JsonTree.depthOfItems ts ≤ depth) :
    ReadsEach (ElementDoc.read depth) (JsonTree.itemTexts ts) (elements.map (Element.doc r)) := by
  induction elements generalizing ts with
  | nil =>
    obtain rfl := Option.some.inj hts
    exact .nil
  | cons element elements ih =>
    obtain ⟨t, us, ht, hus, rfl⟩ := mapM_tree?_cons.1 hts
    rw [JsonTree.depthOfItems] at hdepth
    refine .cons ⟨t.spells_compact.starts, ?_⟩ ?_
    · exact element.reads_doc (hkeys element (List.mem_cons_self ..)) ht (by omega)
    · exact ih (fun e he => hkeys e (List.mem_cons_of_mem _ he)) hus (by omega)

theorem reads_list {α : Type} {item : Nat → Reader α} {texts : List (List Char)} {values : List α} {depth : Nat}
    (h : ReadsEach (item depth) texts values) :
    Reads (list item (depth + 1)) ('[' :: (commaJoin texts ++ [']'])) values := by
  intro rest _
  rw [List.cons_append, List.append_assoc]
  show (enclosed endList (items (item depth))).run ('[' :: _) = _
  exact enclosed_items h rest

theorem fromText_of_reads {α : Type} {target : Target α} {text : List Char} {a : α} (hstarts : Starts text)
    (hlength : (String.ofList text).utf8ByteSize ≤ r.maxTextLength) (h : Reads target.read text a) :
    r.fromText target (String.ofList text) = .ok a := by
  rw [fromText_eq_read r target (by rw [String.toList_ofList, hstarts.not_isBlankText]) hlength, String.toList_ofList,
    ofText_of_reads h]

/-- The text of a tree that does not nest too deep is read, unless it is too long. -/
theorem fromText_compact (r : Registry) (name : String) {t : JsonTree} (hdepth : t.depth ≤ maxDepth) :
    r.fromText ⟨name, value maxDepth⟩ (String.ofList t.compact) =
      if (String.ofList t.compact).utf8ByteSize ≤ r.maxTextLength then .ok t.reread
      else .error (.inputTooLarge (String.ofList t.compact).utf8ByteSize r.maxTextLength) := by
  have hspells := t.spells_compact
  split
  next hlength => exact fromText_of_reads hspells.starts hlength (hspells.reads maxDepth hdepth)
  next hlength =>
    refine fromText_tooLong r _ ?_ (Nat.lt_of_not_le hlength)
    rw [String.toList_ofList, hspells.starts.not_isBlankText]

/-- The text of a value is read as what its own text is read as, whatever the target is called. -/
theorem fromText_toText (name : String) {v : PropertyValue} {t : JsonTree} (ht : v.tree? r = some t)
    (hlength : (String.ofList t.compact).utf8ByteSize ≤ r.maxTextLength) (hdepth : t.depth ≤ maxDepth) :
    r.fromText ⟨name, value maxDepth⟩ (String.ofList t.compact) = .ok (v.raw r) := by
  rw [r.fromText_compact name hdepth, if_pos hlength, PropertyValue.reread_tree ht]

private theorem exists_tree_of_mem {elements : List Element} {ts : List JsonTree}
    (hts : elements.mapM (Element.tree? r) = some ts) {element : Element} (h : element ∈ elements) :
    ∃ t ∈ ts, element.tree? r = some t := by
  induction elements generalizing ts with
  | nil => cases h
  | cons first elements ih =>
    obtain ⟨t, us, ht, hus, rfl⟩ := mapM_tree?_cons.1 hts
    rcases List.mem_cons.1 h with rfl | h
    · exact ⟨t, List.mem_cons_self .., ht⟩
    · obtain ⟨u, hu, htree⟩ := ih hus h
      exact ⟨u, List.mem_cons_of_mem _ hu, htree⟩

private theorem exists_member_of_mem {ps : List Property} {ms : List (String × JsonTree)}
    (hms : Property.members? r ps = some ms) {p : Property} (h : p ∈ ps) :
    ∃ t, p.tree? r = some t ∧ (p.key, t) ∈ ms := by
  induction ps generalizing ms with
  | nil => cases h
  | cons first ps ih =>
    obtain ⟨t, ht, hms⟩ := Option.bind_eq_some_iff.1 hms
    obtain ⟨ns, hns, rfl⟩ := Option.map_eq_some_iff.1 hms
    rcases List.mem_cons.1 h with rfl | h
    · exact ⟨t, ht, List.mem_cons_self ..⟩
    · obtain ⟨u, hu, hmem⟩ := ih hns h
      exact ⟨u, hu, List.mem_cons_of_mem _ hmem⟩

/-- The text of a property stands in the text of its element. -/
theorem within_of_mem_properties {element : Element} {u : JsonTree} (hu : element.tree? r = some u)
    {p : Property} (hp : p ∈ element.properties.values) : ∃ t, p.tree? r = some t ∧ t.Within u := by
  obtain ⟨ms, hms, rfl⟩ := Option.map_eq_some_iff.1 hu
  obtain ⟨t, ht, hmem⟩ := exists_member_of_mem hms hp
  exact ⟨t, ht, (JsonTree.within_object hmem).trans (element.within_properties ms)⟩

theorem utf8ByteSize_le_of_part {s t : List Char} (h : s <:+: t) :
    (String.ofList s).utf8ByteSize ≤ (String.ofList t).utf8ByteSize := by
  obtain ⟨before, after, rfl⟩ := h
  rw [String.ofList_append, String.ofList_append, String.utf8ByteSize_append, String.utf8ByteSize_append]
  omega

/-- **Round trip of a whole graph.**  The text of a list of elements, if it is not too long and does not nest too
deep, is read as the documents of the elements in order; and what stands in a document under a key of its element
is what the text of the property on its own is read as. -/
theorem fromText_toListText {elements : List Element} {text : String}
    (hkeys : ∀ element ∈ elements, element.properties.NamedByKey) (htext : r.toListText elements = .ok text)
    (hlength : text.utf8ByteSize ≤ r.maxTextLength) (hnesting : nesting text.toList ≤ maxDepth) :
    r.fromText Target.documents text = .ok (elements.map (Element.doc r)) ∧
      ∀ element ∈ elements, ∀ p ∈ element.properties.values, ∀ v, p.value = some v →
        ∃ s, r.toText v = .ok s ∧ r.fromText Target.value s = .ok (v.raw r) := by
  obtain ⟨ts, hts, rfl⟩ := toListText_eq_ok_iff.1 htext
  have hspells := (JsonTree.array ts).spells_compact
  rw [String.toList_ofList, hspells.balanced.nesting_eq] at hnesting
  refine ⟨fromText_of_reads hspells.starts hlength ?_, ?_⟩
  · rw [JsonTree.compact]
    rw [JsonTree.depth] at hnesting
    have hlevels : JsonTree.depthOfItems ts ≤ 126 := Nat.le_of_succ_le_succ hnesting
    exact reads_list (readsEach_doc hkeys hts hlevels)
  · intro element helement p hp v hv
    obtain ⟨u, hu, hutree⟩ := exists_tree_of_mem hts helement
    obtain ⟨t, ht, hwithin⟩ := within_of_mem_properties hutree hp
    obtain ⟨hpart, hdepth⟩ := hwithin.trans (JsonTree.within_array hu)
    rw [Property.tree?, hv] at ht
    refine ⟨_, toText_value_eq_ok_iff.2 ⟨t, ht, rfl⟩, ?_⟩
    exact fromText_toText Target.value.name ht (Nat.le_trans (utf8ByteSize_le_of_part hpart) hlength)
      (Nat.le_trans hdepth hnesting)

/-- A vertex with a property and an edge to a vertex whose identifier looks like a number. -/
def sampleElements : List Element :=
  [.vertex ⟨.textual "a", "person", PropertyMap.set ∅ ⟨"name", some (.text "Ada")⟩⟩,
    .edge ⟨.textual "e", "knows", ⟨.textual "a", "person"⟩, ⟨.textual "42", "person"⟩, ∅⟩]

/-- The theorem on these elements and the default registry. -/
theorem fromText_sampleElements :
    ∃ text, toListText {} sampleElements = .ok text ∧
      fromText {} Target.documents text = .ok (sampleElements.map (Element.doc {})) := by
  have hvalues : (PropertyMap.set ∅ ⟨"name", some (.text "Ada")⟩).values = [⟨"name", some (.text "Ada")⟩] := by
    rw [PropertyMap.values, PropertyMap.set, PropertyMap.entries_insert]
    rw [show (∅ : PropertyMap).index = ∅ from rfl, Std.HashMap.getElem?_empty]
    rfl
  have hkeys : ∀ element ∈ sampleElements, element.properties.NamedByKey := by
    intro element helement
    simp only [sampleElements, List.mem_cons, List.not_mem_nil, or_false] at helement
    rcases helement with rfl | rfl
    · exact PropertyMap.namedByKey_empty.set _
    · exact PropertyMap.namedByKey_empty
  let text (s : String) : JsonTree := .leaf (.string s)
  let vertex : JsonTree := .object [("id", text "a"), ("label", text "person"), ("type", text "vertex"),
    ("properties", .object [("name", text "Ada")])]
  let edge : JsonTree := .object [("id", text "e"), ("label", text "knows"), ("type", text "edge"),
    ("outV", text "a"), ("outVLabel", text "person"), ("inV", text "42"), ("inVLabel", text "person"),
    ("properties", .object [])]
  have htrees : sampleElements.mapM (Element.tree? {}) = some [vertex, edge] := by
    simp only [sampleElements, List.mapM_cons, List.mapM_nil, Element.tree?, Element.properties, hvalues]
    rfl
  have htext := toListText_eq_ok_iff.2 ⟨_, htrees, rfl⟩
  have hlength : (String.ofList (JsonTree.array [vertex, edge]).compact).utf8ByteSize ≤ 67108864 := by
    decide +kernel
  have hnesting : nesting (String.ofList (JsonTree.array [vertex, edge]).compact).toList ≤ maxDepth := by
    rw [String.toList_ofList, (JsonTree.array _).spells_compact.balanced.nesting_eq]
    decide +kernel
  exact ⟨_, htext, (fromText_toListText hkeys htext hlength hnesting).1⟩

end Registry

end PropertyGraph
