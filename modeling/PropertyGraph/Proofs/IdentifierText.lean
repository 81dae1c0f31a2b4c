import PropertyGraph.Proofs.Nesting
import PropertyGraph.Proofs.Shape

/-!
# Texts of identifiers

What the texts of identifiers inside values say, and who reads them.  A plain identifier is a number or a string, and
a tagged one has the name of its type beside it, so a text never stands for two lists of identifiers.  The shape of an
identifier takes the plain form only, whatever form a registry writes.  The key facts: what an identifier is read as
tells the identifier (`Identifier.raw_injective`), equal texts are read alike (`JsonTree.reread_eq_of_compact_eq`),
and a tagged identifier has not the shape of one (`Shape.run_apply_id_raw`).
-/

namespace PropertyGraph

open Json Json.Reader

/-! ### What identifiers are read as -/

/-- The identifier that a scalar stands for: a number that is held as an integer of 64 bits, or a text. -/
def Identifier.ofJson? : Json → Option Identifier
  | .number n => n.int64?.map numeric
  | .string s => some (textual s)
  | _ => none

namespace Identifier

@[simp]
theorem ofJson?_toJson (i : Identifier) : ofJson? i.toJson = some i := by
  cases i with
  | numeric n => simp [toJson, ofInt64, ofJson?, Number.int64?_toInt]
  | textual s => rfl

theorem toJson_injective : Function.Injective toJson := by
  intro i j h
  have hread := congrArg ofJson? h
  simpa using hread

/-- What an identifier is read as tells the identifier, in each format. -/
theorem raw_injective (format : IdFormat) : Function.Injective (raw format) := by
  intro i j h
  match format with
  | .plain => exact toJson_injective h
  | .tagged .array =>
    simp only [raw, Json.array.injEq, List.cons.injEq] at h
    exact toJson_injective h.2.1
  | .tagged .object =>
    simp only [raw, Json.object.injEq, List.cons.injEq, Prod.mk.injEq] at h
    exact toJson_injective h.1.2

theorem depth_tree_le (format : IdFormat) (i : Identifier) : (i.tree format).depth ≤ maxDepth := by
  rw [depth_tree]
  cases format <;> simp [IdFormat.levels, maxDepth]

end Identifier

/-! ### Texts and what they are read as -/

/-- Trees with the same text are read as the same value. -/
theorem JsonTree.reread_eq_of_compact_eq {t u : JsonTree} (h : t.compact = u.compact) : t.reread = u.reread := by
  -- a reader with levels enough for both
  have ht := ofText_of_reads (t.spells_compact.reads (max t.depth u.depth) (Nat.le_max_left ..))
  have hu := ofText_of_reads (u.spells_compact.reads (max t.depth u.depth) (Nat.le_max_right ..))
  rw [h, hu] at ht
  exact Except.ok.inj ht.symm

/-- A value whose text is that of another one is read as the other one. -/
theorem PropertyValue.raw_eq_of_toText_eq {r s : Registry} {v w : PropertyValue} {text : String}
    (hv : r.toText v = .ok text) (hw : s.toText w = .ok text) : v.raw r = w.raw s := by
  obtain ⟨t, ht, rfl⟩ := Registry.toText_value_eq_ok_iff.1 hv
  obtain ⟨u, hu, htext⟩ := Registry.toText_value_eq_ok_iff.1 hw
  rw [← reread_tree ht, ← reread_tree hu]
  exact JsonTree.reread_eq_of_compact_eq (String.ofList_injective htext)

/-- A list of identifiers as a value. -/
def PropertyValue.ids (is : List Identifier) : PropertyValue := .list (is.map .id)

namespace PropertyValue

theorem trees?_ids (r : Registry) (is : List Identifier) :
    trees? r (is.map .id) = some (is.map (Identifier.tree r.identifiers)) := by
  induction is with
  | nil => rfl
  | cons i is ih => simp [trees?, tree?, ih]

theorem rawItems_ids (r : Registry) (is : List Identifier) :
    rawItems r (is.map .id) = is.map (Identifier.raw r.identifiers) := by
  induction is with
  | nil => rfl
  | cons i is ih => simp [rawItems, raw, ih]

theorem raw_ids (r : Registry) (is : List Identifier) :
    (ids is).raw r = .array (is.map (Identifier.raw r.identifiers)) := by
  rw [ids, raw, rawItems_ids]

end PropertyValue

namespace Registry

variable {r s : Registry}

theorem exists_toText_ids (r : Registry) (is : List Identifier) : ∃ text, r.toText (PropertyValue.ids is) = .ok text := by
  refine ⟨_, toText_value_eq_ok_iff.2 ⟨.array (is.map (Identifier.tree r.identifiers)), ?_, rfl⟩⟩
  rw [PropertyValue.ids, PropertyValue.tree?, PropertyValue.trees?_ids]
  rfl

theorem toText_id (r : Registry) (i : Identifier) :
    r.toText (PropertyValue.id i) = .ok (String.ofList (i.tree r.identifiers).compact) :=
  toText_value_eq_ok_iff.2 ⟨_, rfl, rfl⟩

theorem fromText_id (s : Registry) (name : String) (format : IdFormat) (i : Identifier) :
    s.fromText ⟨name, value maxDepth⟩ (String.ofList (i.tree format).compact) =
      if (String.ofList (i.tree format).compact).utf8ByteSize ≤ s.maxTextLength then .ok (i.raw format)
      else .error (.inputTooLarge (String.ofList (i.tree format).compact).utf8ByteSize s.maxTextLength) := by
  rw [fromText_compact s name (i.depth_tree_le format), i.reread_tree]

/-- **Texts of identifiers are never confused.**  Every list of identifiers has a text under every registry, and under
two registries that write identifiers alike no two lists have the same text.  The text of one identifier is read,
unless it is too long, as a number with exactly its integer or a string with exactly its text, and if it is tagged as
that scalar beside the name of its type; so what is read tells the identifier. -/
theorem toText_ids_injective (r : Registry) :
    (∀ is : List Identifier, ∃ text, r.toText (PropertyValue.ids is) = .ok text) ∧
    (∀ (s : Registry) (is js : List Identifier), s.identifiers = r.identifiers →
      r.toText (PropertyValue.ids is) = s.toText (PropertyValue.ids js) → is = js) ∧
    (∀ i : Identifier, ∃ text, r.toText (PropertyValue.id i) = .ok text ∧ ∀ s : Registry,
      s.fromText Target.value text =
        if text.utf8ByteSize ≤ s.maxTextLength then .ok (i.raw r.identifiers)
        else .error (.inputTooLarge text.utf8ByteSize s.maxTextLength)) ∧
    Function.Injective (Identifier.raw r.identifiers) := by
  refine ⟨r.exists_toText_ids, fun s is js hformat htexts => ?_, fun i => ?_, Identifier.raw_injective _⟩
  · obtain ⟨text, htext⟩ := r.exists_toText_ids is
    have hraw := PropertyValue.raw_eq_of_toText_eq htext (htexts ▸ htext)
    rw [PropertyValue.raw_ids, PropertyValue.raw_ids, hformat, Json.array.injEq] at hraw
    exact List.map_injective_iff.2 (Identifier.raw_injective _) hraw
  · exact ⟨_, r.toText_id i, fun s => s.fromText_id Target.value.name r.identifiers i⟩

end Registry

/-! ### The shape of an identifier -/

/-- The kind of the values that tagged identifiers are. -/
def TagStyle.kind : TagStyle → Kind
  | array => .array
  | object => .object

/-- The shape of an identifier takes the scalar of one, and refuses one that is tagged. -/
theorem Shape.run_apply_id_raw (s : Registry) (format : IdFormat) (i : Identifier) :
    (Shape.id.apply s (i.raw format)).run [] =
      match format with
      | .plain => (.ok (some (.id i)), [])
      | .tagged style => (.error (.typeMismatch .identifier style.kind), []) := by
  match format with
  | .plain =>
    rw [Identifier.raw, apply_id]
    rfl
  | .tagged .array => rfl
  | .tagged .object => rfl

/-- A timestamp that is written has a written form. -/
theorem Timestamp.isWritable_of_toText {r : Registry} {t : Timestamp} {text : String}
    (h : r.toText (PropertyValue.timestamp t) = .ok text) (hr : r.timestamps = .rfc3339) :
    Rfc3339.isWritable t.millis.toInt = true := by
  obtain ⟨tree, htree, -⟩ := Registry.toText_value_eq_ok_iff.1 h
  rw [PropertyValue.tree?, hr, leaf?] at htree
  by_contra hrefused
  rw [if_neg hrefused] at htree
  cases htree

namespace Registry

theorem fromTextShape_id {r s : Registry} {i : Identifier} {text : String}
    (htext : r.toText (PropertyValue.id i) = .ok text) (hlength : text.utf8ByteSize ≤ s.maxTextLength) :
    s.fromTextShape .id text =
      match r.identifiers with
      | .plain => (.ok (some (.id i)), [])
      | .tagged style => (.error (.format (.typeMismatch .identifier style.kind)), []) := by
  obtain rfl := Except.ok.inj ((r.toText_id i).symm.trans htext)
  have hread := s.fromText_id Shape.id.name r.identifiers i
  rw [if_pos hlength] at hread
  rw [fromTextShape_of_ok hread, Shape.run_apply_id_raw]
  cases r.identifiers <;> rfl

/-- The text of a timestamp is read back with the shape of one by a registry that writes timestamps alike. -/
theorem fromTextShape_timestamp {r s : Registry} (hformat : s.timestamps = r.timestamps) {t : Timestamp} {text : String}
    (htext : r.toText (PropertyValue.timestamp t) = .ok text) (hlength : text.utf8ByteSize ≤ s.maxTextLength) :
    s.fromTextShape .timestamp text = (.ok (some (.timestamp t)), []) := by
  have hwritable (hr : s.timestamps = .rfc3339) := Timestamp.isWritable_of_toText htext (hformat ▸ hr)
  obtain ⟨tree, htree, rfl⟩ := toText_value_eq_ok_iff.1 htext
  have hdepth : tree.depth ≤ maxDepth := by
    rw [PropertyValue.depth_tree htree]
    exact Nat.zero_le _
  have hread := s.fromText_compact Shape.timestamp.name hdepth
  rw [if_pos hlength, PropertyValue.reread_tree htree, PropertyValue.raw, ← hformat] at hread
  rw [fromTextShape_of_ok hread, Shape.apply_timestamp hwritable]
  rfl

/-- **The shape of an identifier takes plain identifiers only.**  An identifier inside a value always has a text.
Whoever reads it with the shape of an identifier gets the identifier back if it is plain; if it is tagged, an array or
an object is found where a number or a string was expected.  An identifier that does not stand inside a value is never
tagged, and is read back.  Timestamps are read back from what a registry writes in either format. -/
theorem fromTextShape_id_toText (r s : Registry) :
    (∀ i : Identifier, ∃ text, r.toText (PropertyValue.id i) = .ok text ∧ (text.utf8ByteSize ≤ s.maxTextLength →
      s.fromTextShape .id text =
        match r.identifiers with
        | .plain => (.ok (some (.id i)), [])
        | .tagged style => (.error (.format (.typeMismatch .identifier style.kind)), []))) ∧
    (∀ i : Identifier, ∃ text, r.toText i = .ok text ∧ (text.utf8ByteSize ≤ s.maxTextLength →
      s.fromTextShape .id text = (.ok (some (.id i)), []))) ∧
    ∀ (t : Timestamp) (text : String), r.toText (PropertyValue.timestamp t) = .ok text →
      s.timestamps = r.timestamps → text.utf8ByteSize ≤ s.maxTextLength →
        s.fromTextShape .timestamp text = (.ok (some (.timestamp t)), []) := by
  refine ⟨fun i => ?_, fun i => ?_, fun t text htext hformat => fromTextShape_timestamp hformat htext⟩
  · exact ⟨_, r.toText_id i, fromTextShape_id (r.toText_id i)⟩
  · exact ⟨_, (toText_eq_ok_iff i.puts_write).2 ⟨_, rfl, rfl⟩, fromTextShape_id (toText_id {} i)⟩

/-- A registry that tags identifiers does not read one that it wrote, in either style. -/
theorem not_fromTextShape_tagged :
    (toText { identifiers := .tagged .array } (PropertyValue.id (.numeric 42)) = .ok "[\"numeric\",42]" ∧
      fromTextShape { identifiers := .tagged .array } .id "[\"numeric\",42]" ≠ (.ok (some (.id (.numeric 42))), [])) ∧
    (toText { identifiers := .tagged .object } (PropertyValue.id (.numeric 42)) = .ok "\x7b\"numeric\":42\x7d" ∧
      fromTextShape { identifiers := .tagged .object } .id "\x7b\"numeric\":42\x7d" ≠
        (.ok (some (.id (.numeric 42))), [])) := by
  have harray : toText { identifiers := .tagged .array } (PropertyValue.id (.numeric 42)) = .ok "[\"numeric\",42]" :=
    (toText_id _ _).trans (congrArg _ (by decide +kernel))
  have hobject : toText { identifiers := .tagged .object } (PropertyValue.id (.numeric 42)) =
      .ok "\x7b\"numeric\":42\x7d" := (toText_id _ _).trans (congrArg _ (by decide +kernel))
  refine ⟨⟨harray, ?_⟩, ⟨hobject, ?_⟩⟩
  · rw [fromTextShape_id harray (by decide +kernel)]
    nofun
  · rw [fromTextShape_id hobject (by decide +kernel)]
    nofun

end Registry

end PropertyGraph
