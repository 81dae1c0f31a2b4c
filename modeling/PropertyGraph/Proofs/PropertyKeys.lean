import PropertyGraph.Proofs.ElementDoc
import PropertyGraph.Proofs.Layout

/-!
# Properties under repeated keys

A property map tells its properties apart by identifiers, a text by keys.  Properties whose keys differ all come
through the text; of those that share a key the text names each, and its document keeps the last, at the place of the
first.  The key facts: what a document keeps of members that are written one after the other (`keys_ofMembers`,
`lookup_ofMembers_eq`), and that these are the properties of the document of an element
(`Registry.fromText_document_properties`).
-/

namespace PropertyGraph

open Json Json.Reader

/-! ### Members set one after the other -/

theorem ofMembers_append (ms : List (String × Json)) (m : String × Json) :
    ofMembers (ms ++ [m]) = Json.insert m.1 m.2 (ofMembers ms) := by
  simp [ofMembers]

theorem nodup_keys_ofMembers (ms : List (String × Json)) : ((ofMembers ms).map Prod.fst).Nodup := by
  induction ms using List.reverseRecOn with
  | nil => exact List.nodup_nil
  | append_singleton ms m ih =>
    rw [ofMembers_append]
    exact nodup_insert ih

/-- The keys of an object are those of the written members, each at the place of its first. -/
theorem keys_ofMembers (ms : List (String × Json)) : (ofMembers ms).map Prod.fst = (ms.map Prod.fst).eraseDups := by
  induction ms using List.reverseRecOn with
  | nil => rfl
  | append_singleton ms m ih =>
    rw [ofMembers_append, keys_insert, ih, List.map_append, List.map_singleton, List.eraseDups_append]
    simp only [List.mem_eraseDups, List.removeAll]
    by_cases h : m.1 ∈ ms.map Prod.fst <;> simp [h, List.eraseDups_cons]

/-- Under a key stands the value of the last member that is written with it. -/
theorem lookup_ofMembers_eq (ms : List (String × Json)) (key : String) :
    (ofMembers ms).lookup key = (ms.reverse.find? (·.1 == key)).map Prod.snd := by
  induction ms using List.reverseRecOn with
  | nil => rfl
  | append_singleton ms m ih =>
    rw [ofMembers_append, lookup_insert, ih, List.reverse_append, List.reverse_singleton, List.singleton_append,
      List.find?_cons]
    by_cases h : key = m.1
    · simp [h]
    · rw [if_neg h, beq_false_of_ne (Ne.symm h)]

/-- No member is lost exactly if no key is repeated. -/
theorem length_ofMembers_eq_iff (ms : List (String × Json)) :
    (ofMembers ms).length = ms.length ↔ (ms.map Prod.fst).Nodup := by
  constructor
  · intro h
    have hsubset : (ofMembers ms).map Prod.fst ⊆ ms.map Prod.fst := by
      rw [keys_ofMembers]
      exact fun _ => List.mem_eraseDups.1
    have hperm := (List.subperm_of_subset (nodup_keys_ofMembers ms) hsubset).perm_of_length_le (by simp [h])
    exact hperm.nodup_iff.1 (nodup_keys_ofMembers ms)
  · intro h
    rw [ofMembers_eq_self h]

/-! ### Members as they are written -/

theorem reads_memberBehind {text : List Char} {n : Nat} {v : Json} (h : Spells text n v) {depth : Nat}
    (hdepth : n ≤ depth) (name : String) (before : List (String × Json)) :
    Reads (memberBehind depth name before) (':' :: text) (before ++ [(name, v)]) := by
  intro rest hrest
  have hcolon : colon.run (':' :: (text ++ rest)) = .ok () (text ++ rest) := rfl
  unfold memberBehind
  rw [List.cons_append, run_bind_of_ok hcolon, run_bind_of_ok (h.reads depth hdepth rest hrest), EStateM.run_pure]

theorem readsMembers_memberBehind {ms : List (String × List Char)} {n : Nat} {values : List (String × Json)}
    (h : SpellsMembers ms n values) {depth : Nat} (hdepth : n ≤ depth) (before : List (String × Json)) :
    ReadsMembers (memberBehind depth) ms before (before ++ values) := by
  induction h generalizing before with
  | nil =>
    rw [List.append_nil]
    exact .nil before
  | @cons name text m v ms n values hhead _ ih =>
    have htail := ih (by omega) (before ++ [(name, v)])
    rw [List.append_assoc, List.singleton_append] at htail
    exact .cons (reads_memberBehind hhead (by omega) name before) htail

namespace JsonTree

theorem map_fst_rereadMembers (ms : List (String × JsonTree)) : (rereadMembers ms).map Prod.fst = ms.map Prod.fst := by
  induction ms with
  | nil => rfl
  | cons m ms ih => rw [rereadMembers, List.map_cons, List.map_cons, ih]

/-- The names in the text of an object are those of its members, repeated or not. -/
theorem writtenNames_object {ms : List (String × JsonTree)} (hdepth : (object ms).depth ≤ maxDepth) :
    Registry.writtenNames (String.ofList (object ms).compact) = ms.map Prod.fst := by
  have hroom : depthOfMembers ms ≤ 126 := by
    rw [depth] at hdepth
    exact Nat.le_of_succ_le_succ hdepth
  have hmembers := readsMembers_memberBehind (spellsMembers_memberTexts ms) hroom []
  have hread : Reads (writtenMembers maxDepth) (object ms).compact (rereadMembers ms) := by
    intro rest _
    rw [compact, List.cons_append, List.append_assoc]
    exact enclosed_members hmembers rest
  rw [Registry.writtenNames, String.toList_ofList, ofText_of_reads hread]
  exact map_fst_rereadMembers ms

end JsonTree

/-! ### The properties of a document -/

theorem PropertyMap.size_eq_length_values (m : PropertyMap) : m.size = m.values.length := by
  rw [size, values, List.length_map, Array.length_toList]

/-- The last property with a key. -/
def PropertyMap.lastByKey? (m : PropertyMap) (key : String) : Option Property :=
  m.values.reverse.find? (·.key == key)

/-- Of properties with different keys, the last with a key is the first. -/
theorem PropertyMap.lastByKey?_eq_getByKey? {m : PropertyMap} (h : (m.values.map Property.key).Nodup) (key : String) :
    m.lastByKey? key = m.getByKey? key := by
  unfold lastByKey? getByKey?
  generalize m.values = ps at h ⊢
  induction ps with
  | nil => rfl
  | cons p ps ih =>
    rw [List.map_cons, List.nodup_cons] at h
    rw [List.reverse_cons, List.find?_append, ih h.2]
    by_cases hkey : p.key = key
    · have hnone : ps.find? (·.key == key) = none := by
        rw [List.find?_eq_none]
        intro q hq hqkey
        exact h.1 (hkey ▸ beq_iff_eq.1 hqkey ▸ List.mem_map_of_mem hq)
      simp [hkey, hnone]
    · simp [beq_false_of_ne hkey]

namespace Element

theorem keys_doc (element : Element) (r : Registry) :
    (element.doc r).properties.map Prod.fst = element.properties.values.map Property.key := by
  show (element.properties.values.map fun p => (p.key, p.raw r)).map Prod.fst = _
  rw [List.map_map]
  rfl

theorem lookup_doc (element : Element) (r : Registry) (key : String) :
    (ofMembers (element.doc r).properties).lookup key =
      (element.properties.lastByKey? key).map (Property.raw r) := by
  rw [lookup_ofMembers_eq, PropertyMap.lastByKey?]
  show (((element.properties.values.map fun p => (p.key, p.raw r)).reverse.find? _).map Prod.snd) = _
  rw [← List.map_reverse, List.find?_map, Option.map_map]
  rfl

theorem length_doc_eq_iff (element : Element) (r : Registry) :
    (ofMembers (element.doc r).properties).length = element.properties.size ↔
      (element.properties.values.map Property.key).Nodup := by
  have hsize : element.properties.size = (element.doc r).properties.length := by
    rw [PropertyMap.size_eq_length_values]
    exact (List.length_map _).symm
  rw [hsize, ← element.keys_doc r]
  exact length_ofMembers_eq_iff _

end Element

namespace Registry

variable {r : Registry}

/-- The text of a property, as a part of a text that is read, is read as the value that it has in a document. -/
theorem fromText_property {p : Property} {t : JsonTree} (ht : p.tree? r = some t)
    (hlength : (String.ofList t.compact).utf8ByteSize ≤ r.maxTextLength) (hdepth : t.depth ≤ maxDepth) :
    ∃ s, p.text r = .ok s ∧ r.fromText Target.value s = .ok (p.raw r) := by
  have hspells := t.spells_compact
  rw [Property.reread_tree ht] at hspells
  exact ⟨_, Property.text_eq_ok_iff.2 ⟨t, ht, rfl⟩,
    fromText_of_reads hspells.starts hlength (hspells.reads maxDepth hdepth)⟩

/-- The text of an element is read as its document, in which a repeated key has the last of its values. -/
theorem fromText_document {element : Element} {t : JsonTree} (ht : element.tree? r = some t)
    (hlength : (String.ofList t.compact).utf8ByteSize ≤ r.maxTextLength) (hdepth : t.depth ≤ maxDepth) :
    r.fromText Target.document (String.ofList t.compact) =
      .ok { element.doc r with properties := ofMembers (element.doc r).properties } :=
  fromText_of_reads t.spells_compact.starts hlength (Element.reads_doc_ofMembers ht hdepth)

/-- Only a tree that is not too long and nests no deeper than is read has a text that is read as a document. -/
theorem le_of_fromText_document {element : Element} {t : JsonTree} (ht : element.tree? r = some t) {doc : ElementDoc}
    (hdoc : r.fromText Target.document (String.ofList t.compact) = .ok doc) :
    (String.ofList t.compact).utf8ByteSize ≤ r.maxTextLength ∧ t.depth ≤ maxDepth := by
  obtain ⟨⟨-, hlength⟩, hread⟩ := fromText_eq_ok_iff.1 hdoc
  rw [String.toList_ofList] at hread
  obtain ⟨rest, hrun, -⟩ := ofText_eq_ok_iff.1 hread
  rw [← List.append_nil t.compact] at hrun
  exact ⟨hlength, Element.depth_le_of_read ht hrun⟩

/-- No property is lost between an element and the document that its text is read as: the names that are written in
its properties differ, the document has as many properties, and the property that is looked up by a key has its
written form under the key. -/
structure KeepsProperties (r : Registry) (element : Element) (text : String) (doc : ElementDoc) : Prop where
  names : ∃ s, text = objectText (element.headTexts ++ [("properties", s)]) ∧ (writtenNames s).Nodup
  length : doc.properties.length = element.properties.size
  values : ∀ key p, element.properties.getByKey? key = some p →
    ∃ s j, p.text r = .ok s ∧ r.fromText Target.value s = .ok j ∧ doc.properties.lookup key = some j

/-- The names in the properties of an element are its keys. -/
theorem exists_writtenNames {element : Element} {t : JsonTree} (ht : element.tree? r = some t)
    (hdepth : t.depth ≤ maxDepth) :
    ∃ s, String.ofList t.compact = objectText (element.headTexts ++ [("properties", s)]) ∧
      writtenNames s = element.properties.values.map Property.key := by
  obtain ⟨ms, hms, rfl⟩ := Option.map_eq_some_iff.1 ht
  refine ⟨_, element.ofList_compact_object ms, ?_⟩
  rw [JsonTree.writtenNames_object (Nat.le_trans (element.within_properties ms).depth_le hdepth),
    ← JsonTree.map_fst_rereadMembers, Property.reread_members hms]
  exact element.keys_doc r

/-- **Properties come through a text under their keys.**  When the text of an element is read as a document, the
names that are written in its properties are the keys in the order of the map, and the document has each key at the
place of its first property, with what the text of its last property is read as.  So no property is lost if and only
if no two of them share a key. -/
theorem fromText_document_properties {element : Element} {text : String} {doc : ElementDoc}
    (htext : r.toText element = .ok text) (hdoc : r.fromText Target.document text = .ok doc) :
    (∃ s, text = objectText (element.headTexts ++ [("properties", s)]) ∧
      writtenNames s = element.properties.values.map Property.key) ∧
    doc.properties.map Prod.fst = (element.properties.values.map Property.key).eraseDups ∧
    (∀ key, match element.properties.lastByKey? key with
      | some p => ∃ s j, p.text r = .ok s ∧ r.fromText Target.value s = .ok j ∧ doc.properties.lookup key = some j
      | none => doc.properties.lookup key = none) ∧
    (KeepsProperties r element text doc ↔ (element.properties.values.map Property.key).Nodup) := by
  obtain ⟨t, ht, rfl⟩ := toText_element_eq_ok_iff.1 htext
  obtain ⟨hlength, hdepth⟩ := le_of_fromText_document ht hdoc
  obtain rfl := Except.ok.inj (hdoc.symm.trans (fromText_document ht hlength hdepth))
  have hnames := exists_writtenNames ht hdepth
  have hlast (key : String) : match element.properties.lastByKey? key with
      | some p => ∃ s j, p.text r = .ok s ∧ r.fromText Target.value s = .ok j ∧
        (ofMembers (element.doc r).properties).lookup key = some j
      | none => (ofMembers (element.doc r).properties).lookup key = none := by
    rw [element.lookup_doc]
    cases hfound : element.properties.lastByKey? key with
    | none => rfl
    | some p =>
      have hp : p ∈ element.properties.values := List.mem_reverse.1 (List.mem_of_find?_eq_some hfound)
      obtain ⟨u, hu, hpart, hnested⟩ := within_of_mem_properties ht hp
      obtain ⟨s, hs, hread⟩ := fromText_property hu (Nat.le_trans (utf8ByteSize_le_of_part hpart) hlength)
        (Nat.le_trans hnested hdepth)
      exact ⟨s, _, hs, hread, rfl⟩
  refine ⟨hnames, by rw [← element.keys_doc r]; exact keys_ofMembers _, hlast, fun h => ?_, fun h => ?_⟩
  · exact (element.length_doc_eq_iff r).1 h.length
  · obtain ⟨s, hs, hwritten⟩ := hnames
    refine ⟨⟨s, hs, hwritten ▸ h⟩, (element.length_doc_eq_iff r).2 h, fun key p hp => ?_⟩
    have hkey := hlast key
    rwa [PropertyMap.lastByKey?_eq_getByKey? h, hp] at hkey

/-- A vertex whose properties stand under identifiers that are not their keys. -/
def namedApart : Element :=
  .vertex ⟨.numeric 1, "n", .ofList [(.numeric 7, ⟨"a", some (.int32 1)⟩), (.textual "a", ⟨"b", none⟩)]⟩

/-- A vertex with two properties under one key. -/
def namedAlike : Element :=
  .vertex ⟨.numeric 1, "n", .ofList [(.numeric 7, ⟨"a", some (.int32 1)⟩), (.textual "a", ⟨"a", some (.int32 2)⟩)]⟩

theorem values_ofList (entries : List (Identifier × Property)) :
    (PropertyMap.ofList entries).values = (PropertyList.collect entries).map Prod.snd := by
  rw [← PropertyMap.toList_ofList]
  rfl

/-- The theorem on a vertex whose properties have keys that differ. -/
theorem fromText_document_namedApart :
    ∃ text doc, default.toText namedApart = .ok text ∧ default.fromText Target.document text = .ok doc ∧
      KeepsProperties default namedApart text doc := by
  have hvalues : namedApart.properties.values = [⟨"a", some (.int32 1)⟩, ⟨"b", none⟩] := values_ofList _
  have htree : namedApart.tree? default = some (.object [("id", .leaf (.int64 1)), ("label", .leaf (.string "n")),
      ("type", .leaf (.string "vertex")), ("properties", .object [("a", .leaf (.int64 1)), ("b", .leaf .null)])]) := by
    rw [Element.tree?, hvalues]
    rfl
  have htext := toText_element_eq_ok_iff.2 ⟨_, htree, rfl⟩
  have hdoc := fromText_document htree (by decide +kernel) (by decide +kernel)
  refine ⟨_, _, htext, hdoc, (fromText_document_properties htext hdoc).2.2.2.2 ?_⟩
  rw [hvalues]
  decide

/-- Of two properties under one key the document keeps the second, and the first is the one that is looked up. -/
theorem not_keepsProperties_namedAlike :
    ∃ text doc, default.toText namedAlike = .ok text ∧ default.fromText Target.document text = .ok doc ∧
      namedAlike.properties.size = 2 ∧ doc.properties = [("a", .ofInt64 2)] ∧
      namedAlike.properties.getByKey? "a" = some ⟨"a", some (.int32 1)⟩ ∧
      ¬KeepsProperties default namedAlike text doc := by
  have hvalues : namedAlike.properties.values = [⟨"a", some (.int32 1)⟩, ⟨"a", some (.int32 2)⟩] := values_ofList _
  have htree : namedAlike.tree? default = some (.object [("id", .leaf (.int64 1)), ("label", .leaf (.string "n")),
      ("type", .leaf (.string "vertex")),
      ("properties", .object [("a", .leaf (.int64 1)), ("a", .leaf (.int64 2))])]) := by
    rw [Element.tree?, hvalues]
    rfl
  have htext := toText_element_eq_ok_iff.2 ⟨_, htree, rfl⟩
  have hdoc := fromText_document htree (by decide +kernel) (by decide +kernel)
  have hproperties : ofMembers (namedAlike.doc default).properties = [("a", .ofInt64 2)] := by
    show ofMembers (namedAlike.properties.values.map fun p => (p.key, p.raw default)) = _
    rw [hvalues]
    rfl
  have hsize : namedAlike.properties.size = 2 := by
    rw [PropertyMap.size_eq_length_values, hvalues]
    rfl
  refine ⟨_, _, htext, hdoc, hsize, hproperties, by rw [PropertyMap.getByKey?, hvalues]; rfl, fun h => ?_⟩
  have hlength := h.length
  rw [hsize, hproperties] at hlength
  cases hlength

end Registry

end PropertyGraph
