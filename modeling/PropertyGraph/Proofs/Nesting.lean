import PropertyGraph.Proofs.Document
import PropertyGraph.Proofs.Json.Levels

/-!
# How deep values may nest

What is written can nest to any depth, what is read cannot.  The lists and objects that are open at a time in the
text of a value can be told from the value: a list and a tagged identifier open one, an element opens two, and a
nested JSON value as many as it nests itself (`PropertyValue.levels`, `Element.levels`).  A text that is not too
long is accepted exactly if these are at most 127; with one more it is refused for its depth and for nothing
else (`Registry.toText_readToLimit`).
-/

namespace PropertyGraph

open Json Json.Reader

/-! ### Levels of values and elements -/

/-- The lists and objects that are open at a time in the text of an identifier. -/
def IdFormat.levels : IdFormat → Nat
  | plain => 0
  | tagged _ => 1

namespace PropertyValue

mutual

/-- The lists and objects that are open at a time in the text of a value. -/
def levels (r : Registry) : PropertyValue → Nat
  | id _ => r.identifiers.levels
  | list items => levelsOfItems r items + 1
  | nested j => j.depth
  | _ => 0

/-- The largest number of levels of an item. -/
def levelsOfItems (r : Registry) : List PropertyValue → Nat
  | [] => 0
  | v :: vs => max (levels r v) (levelsOfItems r vs)

end

end PropertyValue

/-- A property without a value is null, which opens nothing. -/
def Property.levels (r : Registry) (p : Property) : Nat :=
  match p.value with
  | some v => v.levels r
  | none => 0

/-- The properties of an element stand in an object of their own. -/
def Element.levels (r : Registry) (element : Element) : Nat :=
  (element.properties.values.map (Property.levels r)).foldr max 0 + 2

theorem Identifier.depth_tree (format : IdFormat) (i : Identifier) : (i.tree format).depth = format.levels := by
  match format with
  | .plain | .tagged .array | .tagged .object => cases i <;> rfl

theorem Timestamp.depth_leaf {format : TimestampFormat} {t : Timestamp} {l : JsonLeaf} (h : t.leaf? format = some l) :
    l.depth = 0 := by
  cases format with
  | epochMillis =>
    obtain rfl := Option.some.inj h
    rfl
  | rfc3339 =>
    unfold leaf? at h
    dsimp only at h
    split at h
    · obtain rfl := Option.some.inj h
      rfl
    · cases h

namespace PropertyValue

mutual

theorem depth_tree {r : Registry} {v : PropertyValue} {t : JsonTree} (h : v.tree? r = some t) :
    t.depth = v.levels r := by
  cases v with
  | timestamp s =>
    obtain ⟨l, hl, rfl⟩ := Option.map_eq_some_iff.1 h
    exact Timestamp.depth_leaf hl
  | float32 x =>
    cases x with
    | finite x =>
      obtain rfl := Option.some.inj h
      rfl
    | _ => cases h
  | float64 x =>
    cases x with
    | finite x =>
      obtain rfl := Option.some.inj h
      rfl
    | _ => cases h
  | id i =>
    obtain rfl := Option.some.inj h
    exact i.depth_tree r.identifiers
  | list items =>
    obtain ⟨ts, hts, rfl⟩ := Option.map_eq_some_iff.1 h
    rw [JsonTree.depth, depth_trees hts, levels]
  | _ =>
    obtain rfl := Option.some.inj h
    rfl

theorem depth_trees {r : Registry} {vs : List PropertyValue} {ts : List JsonTree} (h : trees? r vs = some ts) :
    JsonTree.depthOfItems ts = levelsOfItems r vs := by
  cases vs with
  | nil =>
    obtain rfl := Option.some.inj h
    rfl
  | cons v vs =>
    obtain ⟨t, ht, h⟩ := Option.bind_eq_some_iff.1 h
    obtain ⟨ts, hts, rfl⟩ := Option.map_eq_some_iff.1 h
    rw [JsonTree.depthOfItems, depth_tree ht, depth_trees hts, levelsOfItems]

end

end PropertyValue

theorem Property.depth_members {r : Registry} {ps : List Property} {ms : List (String × JsonTree)}
    (h : Property.members? r ps = some ms) :
    JsonTree.depthOfMembers ms = (ps.map (Property.levels r)).foldr max 0 := by
  induction ps generalizing ms with
  | nil =>
    obtain rfl := Option.some.inj h
    rfl
  | cons p ps ih =>
    obtain ⟨t, ht, h⟩ := Option.bind_eq_some_iff.1 h
    obtain ⟨ms, hms, rfl⟩ := Option.map_eq_some_iff.1 h
    have hdepth : t.depth = p.levels r := by
      unfold Property.tree? at ht
      unfold Property.levels
      cases hvalue : p.value with
      | none =>
        rw [hvalue] at ht
        obtain rfl := Option.some.inj ht
        rfl
      | some v =>
        rw [hvalue] at ht
        exact PropertyValue.depth_tree ht
    rw [JsonTree.depthOfMembers, hdepth, ih hms, List.map_cons, List.foldr_cons]

theorem Element.depth_tree {r : Registry} {element : Element} {t : JsonTree} (h : element.tree? r = some t) :
    t.depth = element.levels r := by
  obtain ⟨ms, hms, rfl⟩ := Option.map_eq_some_iff.1 h
  rw [element.depth_eq_properties ms, Property.depth_members hms, Element.levels]

/-! ### Reading what was written -/

namespace Registry

variable {r : Registry}

/-- A text opens a number of levels; it is accepted as a JSON value exactly if these are at most `maxDepth`, and
if there are more it is refused because they are used up. -/
structure ReadToLimit (r : Registry) (text : String) (levels : Nat) : Prop where
  nesting_eq : nesting text.toList = levels
  accepted_iff : (∃ j, r.fromText Target.value text = .ok j) ↔ levels ≤ maxDepth
  refused : maxDepth < levels → ∃ unread, r.fromText Target.value text =
    .error (.parse Target.value.name (Fault.message ⟨.text .depth, some unread⟩ text.toList))

/-- The text of a value that nests too deep is refused for just that. -/
theorem fromText_exhausted {text : List Char} {n : Nat} {j : Json} (h : Spells text n j)
    (hlength : (String.ofList text).utf8ByteSize ≤ r.maxTextLength) (hdepth : maxDepth < n) :
    ∃ unread, r.fromText Target.value (String.ofList text) =
      .error (.parse Target.value.name (Fault.message ⟨.text .depth, some unread⟩ (String.ofList text).toList)) := by
  obtain ⟨unread, rest, hrun⟩ := h.exhausted hdepth ends_nil
  rw [List.append_nil] at hrun
  refine ⟨unread, ?_⟩
  rw [fromText_eq_read r _ (by rw [String.toList_ofList, h.starts.not_isBlankText]) hlength, String.toList_ofList, ofText,
    show Target.value.read text = _ from hrun]

theorem readToLimit_of_spells {text : List Char} {n : Nat} {j : Json} (h : Spells text n j)
    (hlength : (String.ofList text).utf8ByteSize ≤ r.maxTextLength) : ReadToLimit r (String.ofList text) n where
  nesting_eq := by rw [String.toList_ofList, h.balanced.nesting_eq]
  accepted_iff := by
    constructor
    · rintro ⟨j, hj⟩
      by_contra hdepth
      obtain ⟨unread, herror⟩ := fromText_exhausted h hlength (Nat.lt_of_not_le hdepth)
      rw [herror] at hj
      cases hj
    · intro hdepth
      exact ⟨j, fromText_of_reads h.starts hlength (h.reads maxDepth hdepth)⟩
  refused := fromText_exhausted h hlength

/-- **What is written is read back up to a limit.**  The text of a value or of an element that is not too long is
accepted as a JSON value exactly if it nests at most 127 levels, which are those of the value or of the element;
a text that nests deeper is refused because the levels are used up. -/
theorem toText_readToLimit (r : Registry) :
    (∀ (v : PropertyValue) (text : String), r.toText v = .ok text → text.utf8ByteSize ≤ r.maxTextLength →
      ReadToLimit r text (v.levels r)) ∧
    ∀ (element : Element) (text : String), r.toText element = .ok text → text.utf8ByteSize ≤ r.maxTextLength →
      ReadToLimit r text (element.levels r) := by
  constructor
  · intro v text htext hlength
    obtain ⟨t, ht, rfl⟩ := toText_value_eq_ok_iff.1 htext
    rw [← PropertyValue.depth_tree ht]
    exact readToLimit_of_spells t.spells_compact hlength
  · intro element text htext hlength
    obtain ⟨t, ht, rfl⟩ := toText_element_eq_ok_iff.1 htext
    rw [← Element.depth_tree ht]
    exact readToLimit_of_spells t.spells_compact hlength

/-- An empty list in a number of lists. -/
def nest : Nat → PropertyValue
  | 0 => .list []
  | n + 1 => .list [nest n]

theorem levels_nest (n : Nat) : (nest n).levels r = n + 1 := by
  induction n with
  | zero => rfl
  | succ n ih =>
    rw [nest, PropertyValue.levels, PropertyValue.levelsOfItems, PropertyValue.levelsOfItems, ih]
    omega

theorem toText_nest (n : Nat) :
    r.toText (nest n) = .ok (String.ofList (List.replicate (n + 1) '[' ++ List.replicate (n + 1) ']')) := by
  have htree : ∃ t, (nest n).tree? r = some t ∧
      t.compact = List.replicate (n + 1) '[' ++ List.replicate (n + 1) ']' := by
    induction n with
    | zero => exact ⟨.array [], rfl, rfl⟩
    | succ n ih =>
      obtain ⟨t, ht, hcompact⟩ := ih
      refine ⟨.array [t], ?_, ?_⟩
      · rw [nest, PropertyValue.tree?, PropertyValue.trees?, ht]
        rfl
      · rw [JsonTree.compact, JsonTree.itemTexts, JsonTree.itemTexts, hcompact]
        rw [List.replicate_succ (n := n + 1), List.replicate_succ' (n := n + 1)]
        simp [commaJoin]
  obtain ⟨t, ht, hcompact⟩ := htree
  rw [← hcompact]
  exact toText_value_eq_ok_iff.2 ⟨t, ht, rfl⟩

/-- The theorem on lists that nest as deep as they may. -/
theorem fromText_nest_deepest : ∃ text j, toText {} (nest 126) = .ok text ∧ fromText {} Target.value text = .ok j := by
  have hread := (toText_readToLimit {}).1 (nest 126) _ (toText_nest 126) (by decide +kernel)
  obtain ⟨j, hj⟩ := hread.accepted_iff.2 (by rw [levels_nest]; decide)
  exact ⟨_, j, toText_nest 126, hj⟩

/-- One list more, and what was written is not read back. -/
theorem not_fromText_nest : ∃ text, toText {} (nest 127) = .ok text ∧ text.utf8ByteSize ≤ maxTextLength {} ∧
    ¬ ∃ j, fromText {} Target.value text = .ok j := by
  have hlength : (String.ofList (List.replicate 128 '[' ++ List.replicate 128 ']')).utf8ByteSize ≤ 67108864 := by
    decide +kernel
  obtain ⟨t, ht, htext⟩ := toText_value_eq_ok_iff.1 (toText_nest 127)
  rw [htext] at hlength
  refine ⟨_, toText_value_eq_ok_iff.2 ⟨t, ht, rfl⟩, hlength, fun haccepted => ?_⟩
  have hdepth : t.depth ≤ 127 := (readToLimit_of_spells t.spells_compact hlength).accepted_iff.1 haccepted
  rw [PropertyValue.depth_tree ht, levels_nest] at hdepth
  omega

end Registry

end PropertyGraph
