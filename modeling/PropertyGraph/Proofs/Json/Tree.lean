import PropertyGraph.Json.Event
import PropertyGraph.Proofs.Json.Values

/-!
# Trees and their events

What a writer is meant to write: a tree of arrays and objects over scalars and over values that the generic
encoder writes.  Member names may repeat.  Every tree has a compact text and a sequence of events, in which a
member whose value is a text may be told by one event or by two.  The key facts: the text of a tree spells it
(`spells_compact`), and the leaf of an event, if it writes one, has that event (`leaf?_eq_some_iff`).
-/

namespace PropertyGraph

open Json Reader

/-- What stands at a leaf: a scalar, or a value or a map that the generic encoder writes. -/
inductive JsonLeaf where
  | string (s : String)
  | int64 (n : Int64)
  | float64 (x : Finite64)
  | float32 (x : Finite .binary32)
  | bool (b : Bool)
  | null
  | json (j : Json)
  | map (entries : List (String × Json))

/-- A JSON text as a tree. -/
inductive JsonTree where
  | leaf (l : JsonLeaf)
  | array (items : List JsonTree)
  | object (members : List (String × JsonTree))

namespace JsonLeaf

/-- The compact text of a leaf. -/
def compact : JsonLeaf → List Char
  | string s => stringChars s
  | int64 n => Decimal.signed n.toInt
  | float64 x => Layout.json64.finite x
  | float32 x => Layout.json32.finite x
  | bool b => boolChars b
  | null => nullChars
  | json j => j.compact
  | map entries => (Json.object entries).compact

/-- The value that the text of a leaf is read as. -/
def reread : JsonLeaf → Json
  | string s => .string s
  | int64 n => .ofInt64 n
  | float64 x => .ofBinary (Layout.json64.reread x)
  | float32 x => .ofBinary (Layout.json32.reread x)
  | bool b => .bool b
  | null => .null
  | json j => j.reread
  | map entries => (Json.object entries).reread

/-- The number of lists and objects that are open at a time in a leaf. -/
def depth : JsonLeaf → Nat
  | json j => j.depth
  | map entries => (Json.object entries).depth
  | _ => 0

/-- The event that writes a leaf. -/
def event : JsonLeaf → Event
  | string s => .string s
  | int64 n => .int64 n
  | float64 x => .float64 (.finite x)
  | float32 x => .float32 (.finite x)
  | bool b => .bool b
  | null => .null
  | json j => .datum (.json j)
  | map entries => .datum (.map (entries.map fun entry => (some entry.1, entry.2)))

theorem spells_compact (l : JsonLeaf) : Spells l.compact l.depth l.reread := by
  cases l with
  | string s => exact spells_string s
  | int64 n => exact spells_int64 n
  | float64 x => exact spells_double x
  | float32 x => exact spells_single x
  | bool b => exact spells_bool b
  | null => exact spells_null
  | json j => exact j.spells_compact
  | map entries => exact (Json.object entries).spells_compact

end JsonLeaf

namespace JsonTree

/-! ### Texts -/

mutual

/-- The compact text of a tree: one comma between neighbours, one colon in a member and no blanks. -/
def compact : JsonTree → List Char
  | leaf l => l.compact
  | array items => '[' :: (commaJoin (itemTexts items) ++ [']'])
  | object members => '\x7b' :: (commaJoin ((memberTexts members).map memberText) ++ ['\x7d'])

/-- The texts of items. -/
def itemTexts : List JsonTree → List (List Char)
  | [] => []
  | t :: ts => t.compact :: itemTexts ts

/-- The names of members and the texts of their values. -/
def memberTexts : List (String × JsonTree) → List (String × List Char)
  | [] => []
  | (name, t) :: ms => (name, t.compact) :: memberTexts ms

end

mutual

/-- The value that the text of a tree is read as. -/
def reread : JsonTree → Json
  | leaf l => l.reread
  | array items => .array (rereadItems items)
  | object members => .object (ofMembers (rereadMembers members))

/-- The values that the texts of items are read as. -/
def rereadItems : List JsonTree → List Json
  | [] => []
  | t :: ts => t.reread :: rereadItems ts

/-- The members that the texts of members are read as, one by one. -/
def rereadMembers : List (String × JsonTree) → List (String × Json)
  | [] => []
  | (name, t) :: ms => (name, t.reread) :: rereadMembers ms

end

mutual

/-- The number of arrays and objects that are open at a time in a tree. -/
def depth : JsonTree → Nat
  | leaf l => l.depth
  | array items => depthOfItems items + 1
  | object members => depthOfMembers members + 1

/-- The largest depth of an item. -/
def depthOfItems : List JsonTree → Nat
  | [] => 0
  | t :: ts => max t.depth (depthOfItems ts)

/-- The largest depth of a member. -/
def depthOfMembers : List (String × JsonTree) → Nat
  | [] => 0
  | (_, t) :: ms => max t.depth (depthOfMembers ms)

end

mutual

theorem spells_compact (t : JsonTree) : Spells t.compact t.depth t.reread := by
  cases t with
  | leaf l => exact l.spells_compact
  | array items =>
    rw [compact, depth, reread]
    exact spells_list (spellsEach_itemTexts items)
  | object members =>
    rw [compact, depth, reread]
    exact spells_object (spellsMembers_memberTexts members)

theorem spellsEach_itemTexts (items : List JsonTree) :
    SpellsEach (itemTexts items) (depthOfItems items) (rereadItems items) := by
  cases items with
  | nil => exact .nil
  | cons t ts => exact .cons (spells_compact t) (spellsEach_itemTexts ts)

theorem spellsMembers_memberTexts (members : List (String × JsonTree)) :
    SpellsMembers (memberTexts members) (depthOfMembers members) (rereadMembers members) := by
  match members with
  | [] => exact .nil
  | (name, t) :: ms => exact .cons (spells_compact t) (spellsMembers_memberTexts ms)

end

theorem itemTexts_eq_map (items : List JsonTree) : itemTexts items = items.map compact := by
  induction items with
  | nil => rfl
  | cons t ts ih => rw [itemTexts, ih, List.map_cons]

theorem memberTexts_eq_map (members : List (String × JsonTree)) :
    memberTexts members = members.map fun m => (m.1, m.2.compact) := by
  induction members with
  | nil => rfl
  | cons m ms ih => rw [memberTexts, ih, List.map_cons]

/-! ### Parts of a tree -/

/-- A tree whose text stands in the text of another, and which nests no deeper. -/
structure Within (t u : JsonTree) : Prop where
  infix_compact : t.compact <:+: u.compact
  depth_le : t.depth ≤ u.depth

theorem Within.trans {t u v : JsonTree} (h : t.Within u) (h' : u.Within v) : t.Within v :=
  ⟨h.infix_compact.trans h'.infix_compact, Nat.le_trans h.depth_le h'.depth_le⟩

private theorem infix_commaJoin {text : List Char} {texts : List (List Char)} (h : text ∈ texts) :
    text <:+: commaJoin texts := by
  cases texts with
  | nil => cases h
  | cons first texts =>
    rw [commaJoin_cons]
    rcases List.mem_cons.1 h with rfl | h
    · exact (List.prefix_append _ _).isInfix
    · have htail : ',' :: text <:+: commaTail texts := List.infix_of_mem_flatten (List.mem_map_of_mem h)
      exact ((List.suffix_cons _ _).isInfix.trans htail).trans (List.suffix_append _ _).isInfix

theorem depth_le_depthOfItems {t : JsonTree} {ts : List JsonTree} (h : t ∈ ts) : t.depth ≤ depthOfItems ts := by
  induction ts with
  | nil => cases h
  | cons u ts ih =>
    rw [depthOfItems]
    rcases List.mem_cons.1 h with rfl | h
    · exact Nat.le_max_left _ _
    · exact Nat.le_trans (ih h) (Nat.le_max_right _ _)

theorem depth_le_depthOfMembers {name : String} {t : JsonTree} {ms : List (String × JsonTree)} (h : (name, t) ∈ ms) :
    t.depth ≤ depthOfMembers ms := by
  induction ms with
  | nil => cases h
  | cons m ms ih =>
    obtain ⟨k, u⟩ := m
    rw [depthOfMembers]
    rcases List.mem_cons.1 h with h | h
    · obtain ⟨rfl, rfl⟩ := Prod.mk.inj h
      exact Nat.le_max_left _ _
    · exact Nat.le_trans (ih h) (Nat.le_max_right _ _)

theorem within_array {t : JsonTree} {items : List JsonTree} (h : t ∈ items) : t.Within (array items) := by
  refine ⟨?_, Nat.le_succ_of_le (depth_le_depthOfItems h)⟩
  rw [compact, itemTexts_eq_map]
  have htext := infix_commaJoin (List.mem_map_of_mem (f := compact) h)
  exact htext.trans ((List.prefix_append _ _).isInfix.trans (List.suffix_cons _ _).isInfix)

theorem within_object {name : String} {t : JsonTree} {members : List (String × JsonTree)} (h : (name, t) ∈ members) :
    t.Within (object members) := by
  refine ⟨?_, Nat.le_succ_of_le (depth_le_depthOfMembers h)⟩
  have hmember : memberText (name, t.compact) ∈ (memberTexts members).map memberText := by
    rw [memberTexts_eq_map]
    exact List.mem_map_of_mem (List.mem_map_of_mem h)
  have htext : t.compact <:+: memberText (name, t.compact) :=
    ((List.suffix_cons _ _).trans (List.suffix_append _ _)).isInfix
  rw [compact]
  exact (htext.trans (infix_commaJoin hmember)).trans
    ((List.prefix_append _ _).isInfix.trans (List.suffix_cons _ _).isInfix)

/-! ### Events -/

mutual

/-- The events that write a tree. -/
def events : JsonTree → List Event
  | leaf l => [l.event]
  | array items => .beginArray :: (eventsOfItems items ++ [.endArray])
  | object members => .beginObject :: (eventsOfMembers members ++ [.endObject])

/-- The events that write items. -/
def eventsOfItems : List JsonTree → List Event
  | [] => []
  | t :: ts => t.events ++ eventsOfItems ts

/-- The events that write members. -/
def eventsOfMembers : List (String × JsonTree) → List Event
  | [] => []
  | (name, t) :: ms => .fieldName name :: (t.events ++ eventsOfMembers ms)

end

theorem eventsOfItems_append (before : List JsonTree) (t : JsonTree) :
    eventsOfItems (before ++ [t]) = eventsOfItems before ++ t.events := by
  induction before with
  | nil => simp [eventsOfItems]
  | cons x xs ih => rw [List.cons_append, eventsOfItems, eventsOfItems, ih, List.append_assoc]

theorem eventsOfMembers_append (before : List (String × JsonTree)) (name : String) (t : JsonTree) :
    eventsOfMembers (before ++ [(name, t)]) = eventsOfMembers before ++ .fieldName name :: t.events := by
  induction before with
  | nil => simp [eventsOfMembers]
  | cons m ms ih =>
    obtain ⟨k, x⟩ := m
    rw [List.cons_append, eventsOfMembers, eventsOfMembers, ih]
    simp

end JsonTree

namespace Event

/-- An event in parts: a member whose value is a text is a name and a text. -/
def parts : Event → List Event
  | stringField name value => [.fieldName name, .string value]
  | event => [event]

/-- Entries of a map whose keys all have texts. -/
def textEntries? : List (Option String × Json) → Option (List (String × Json))
  | [] => some []
  | (some key, value) :: entries => (textEntries? entries).map ((key, value) :: ·)
  | (none, _) :: _ => none

/-- The leaf that an event writes on its own.  A number that is not finite and a map with a key that has no
text are no leaves. -/
def leaf? : Event → Option JsonLeaf
  | string s => some (.string s)
  | int64 n => some (.int64 n)
  | float64 (.finite x) => some (.float64 x)
  | float32 (.finite x) => some (.float32 x)
  | bool b => some (.bool b)
  | null => some .null
  | datum (.json j) => some (.json j)
  | datum (.map entries) => (textEntries? entries).map .map
  | _ => none

theorem textEntries?_eq_some_iff {entries : List (Option String × Json)} {texts : List (String × Json)} :
    textEntries? entries = some texts ↔ entries = texts.map fun entry => (some entry.1, entry.2) := by
  induction entries generalizing texts with
  | nil => cases texts <;> simp [textEntries?]
  | cons entry entries ih =>
    obtain ⟨key, value⟩ := entry
    cases key with
    | some key =>
      rw [textEntries?, Option.map_eq_some_iff]
      constructor
      · rintro ⟨texts, h, rfl⟩
        rw [ih.1 h, List.map_cons]
      · intro h
        cases texts with
        | nil => cases h
        | cons text texts =>
          obtain ⟨k, v⟩ := text
          simp only [List.map_cons, List.cons.injEq, Prod.mk.injEq, Option.some.injEq] at h
          obtain ⟨⟨rfl, rfl⟩, h⟩ := h
          exact ⟨texts, ih.2 h, rfl⟩
    | none =>
      cases texts with
      | nil => simp [textEntries?]
      | cons text texts => simp [textEntries?]

theorem leaf?_eq_some_iff {event : Event} {l : JsonLeaf} : event.leaf? = some l ↔ event = l.event := by
  constructor
  · intro h
    unfold leaf? at h
    split at h
    case h_8 entries =>
      obtain ⟨texts, htexts, rfl⟩ := Option.map_eq_some_iff.1 h
      rw [JsonLeaf.event, textEntries?_eq_some_iff.1 htexts]
    all_goals cases h
    all_goals rfl
  · rintro rfl
    cases l with
    | map entries => exact Option.map_eq_some_iff.2 ⟨entries, textEntries?_eq_some_iff.2 rfl, rfl⟩
    | _ => rfl

theorem parts_event (l : JsonLeaf) : l.event.parts = [l.event] := by
  cases l <;> rfl

end Event

/-- A sequence of events writes a tree: told in parts, they are the events of the tree. -/
def JsonTree.WrittenBy (t : JsonTree) (events : List Event) : Prop := events.flatMap Event.parts = t.events

end PropertyGraph
