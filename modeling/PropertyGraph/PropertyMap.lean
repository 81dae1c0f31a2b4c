import Std.Data.HashMap
import PropertyGraph.Value

/-!
# Property maps

The properties of an element under identifiers, in the order in which the identifiers came.  An index
gives the place of each identifier.  A property that is set again keeps its place; one that is removed
leaves the order of the others.  The key facts: the index gives each identifier its place and nothing
else (`Indexes`), so a property is found under an identifier if and only if it is among the entries
(`get?_eq_some_iff`), and the entries after a property is set (`entries_insert`) or removed
(`entries_remove`).
-/

namespace PropertyGraph

/-! ### The index of a list of entries -/

/-- An index gives an identifier a place if and only if the entry at that place has the identifier; so
no identifier has two entries. -/
def Indexes (index : Std.HashMap Identifier Nat) (entries : Array (Identifier × Property)) : Prop :=
  ∀ (id : Identifier) (place : Nat),
    index[id]? = some place ↔ entries[place]?.map Prod.fst = some id

namespace Indexes

variable {index : Std.HashMap Identifier Nat} {entries : Array (Identifier × Property)}

theorem empty : Indexes ∅ #[] := by
  intro id place
  simp

/-- An entry can be added under an identifier that has no place. -/
theorem push (h : Indexes index entries) {id : Identifier} (absent : index[id]? = none)
    (property : Property) : Indexes (index.insert id entries.size) (entries.push (id, property)) := by
  intro other place
  have hid := h id place
  have hother := h other place
  rw [Std.HashMap.getElem?_insert, Array.getElem?_push]
  by_cases same : id = other
  · subst same
    by_cases hplace : place = entries.size
    · simp [hplace]
    · have : entries.size ≠ place := fun e => hplace e.symm
      simp_all
  · by_cases hplace : place = entries.size
    · subst hplace
      simp_all
    · simp_all

/-- The property at a place can be replaced. -/
theorem modify (h : Indexes index entries) (place : Nat) (property : Property) :
    Indexes index (entries.modify place fun entry => (entry.1, property)) := by
  intro id other
  rw [h id other, Array.getElem?_modify]
  split
  · cases entries[other]? <;> simp
  · rfl

/-- The entry at the place of an identifier can be removed if the places behind it move up. -/
theorem eraseIdx (h : Indexes index entries) {id : Identifier} {place : Nat}
    (present : index[id]? = some place) :
    Indexes ((index.erase id).map fun _ other => if place < other then other - 1 else other)
      (entries.eraseIdxIfInBounds place) := by
  intro other moved
  have inside : place < entries.size := by
    have := (h id place).1 present
    cases hentry : entries[place]? with
    | none => simp [hentry] at this
    | some entry => exact (Array.getElem?_eq_some_iff.1 hentry).1
  have erased : (entries.eraseIdxIfInBounds place)[moved]? =
      if moved < place then entries[moved]? else entries[moved + 1]? := by
    rw [Array.eraseIdxIfInBounds, dif_pos inside, Array.getElem?_eraseIdx]
  rw [erased, Std.HashMap.getElem?_map, Std.HashMap.getElem?_erase]
  by_cases same : id = other
  · subst same
    have unique : ∀ q, entries[q]?.map Prod.fst = some id → q = place := by
      intro q hq
      have := (h id q).2 hq
      rw [present] at this
      exact (Option.some.inj this).symm
    have left := unique moved
    have right := unique (moved + 1)
    split <;> grind
  · have key : ∀ q, index[other]? = some q → q ≠ place := by
      intro q hq e
      subst e
      have := (h id q).1 present
      rw [(h other q).1 hq] at this
      exact same (Option.some.inj this).symm
    have low := h other moved
    have high := h other (moved + 1)
    cases hother : index[other]? with
    | none => split <;> grind
    | some q =>
      have := key q hother
      split <;> grind

end Indexes

/-! ### The map -/

/-- Properties in order, and the place of each identifier among them. -/
structure PropertyMap where
  entries : Array (Identifier × Property)
  index : Std.HashMap Identifier Nat
  indexes : Indexes index entries

namespace PropertyMap

def empty : PropertyMap := ⟨#[], ∅, Indexes.empty⟩

instance : EmptyCollection PropertyMap := ⟨empty⟩

instance : Inhabited PropertyMap := ⟨empty⟩

def size (m : PropertyMap) : Nat := m.entries.size

def isEmpty (m : PropertyMap) : Bool := m.entries.isEmpty

def get? (m : PropertyMap) (id : Identifier) : Option Property :=
  (m.index[id]?).bind fun place => m.entries[place]?.map Prod.snd

def values (m : PropertyMap) : List Property := m.entries.toList.map Prod.snd

/-- The first property with a key. -/
def getByKey? (m : PropertyMap) (key : String) : Option Property := m.values.find? (·.key == key)

/-- Sets the property under an identifier, and gives the one it replaces. -/
def insert (m : PropertyMap) (id : Identifier) (property : Property) : Option Property × PropertyMap :=
  match found : m.index[id]? with
  | some place =>
    (m.entries[place]?.map Prod.snd,
      { entries := m.entries.modify place fun entry => (entry.1, property)
        index := m.index
        indexes := m.indexes.modify place property })
  | none =>
    (none,
      { entries := m.entries.push (id, property)
        index := m.index.insert id m.entries.size
        indexes := m.indexes.push found property })

/-- Removes the property under an identifier, and gives it. -/
def remove (m : PropertyMap) (id : Identifier) : Option Property × PropertyMap :=
  match found : m.index[id]? with
  | some place =>
    (m.entries[place]?.map Prod.snd,
      { entries := m.entries.eraseIdxIfInBounds place
        index := (m.index.erase id).map fun _ other => if place < other then other - 1 else other
        indexes := m.indexes.eraseIdx found })
  | none => (none, m)

/-- The map with properties set one after the other. -/
def ofList (entries : List (Identifier × Property)) : PropertyMap :=
  entries.foldl (fun m entry => (m.insert entry.1 entry.2).2) empty

def equal (m n : PropertyMap) : Bool :=
  m.entries.size == n.entries.size &&
    (m.entries.toList.zip n.entries.toList).all fun (a, b) => a.1 == b.1 && a.2.equal b.2

/-- Sets a property under the textual identifier that is its key. -/
def set (m : PropertyMap) (property : Property) : PropertyMap :=
  (m.insert (.textual property.key) property).2

/-- A property is found under an identifier if and only if it is among the entries with it. -/
theorem get?_eq_some_iff {m : PropertyMap} {id : Identifier} {property : Property} :
    m.get? id = some property ↔ (id, property) ∈ m.entries := by
  rw [Array.mem_iff_getElem?]
  unfold get?
  constructor
  · intro h
    obtain ⟨place, found, h⟩ := Option.bind_eq_some_iff.1 h
    obtain ⟨entry, hentry, rfl⟩ := Option.map_eq_some_iff.1 h
    have := (m.indexes id place).1 found
    rw [hentry] at this
    exact ⟨place, by rw [hentry, ← Option.some.inj this]⟩
  · rintro ⟨place, h⟩
    have found := (m.indexes id place).2 (by rw [h]; rfl)
    rw [found, Option.bind_some, h]
    rfl

/-- A property under a new identifier goes to the end, any other to the place of its identifier. -/
theorem entries_insert (m : PropertyMap) (id : Identifier) (property : Property) :
    (m.insert id property).2.entries =
      match m.index[id]? with
      | some place => m.entries.modify place fun entry => (entry.1, property)
      | none => m.entries.push (id, property) := by
  unfold insert
  split <;> simp_all

/-- A removed property leaves the order of the others. -/
theorem entries_remove (m : PropertyMap) (id : Identifier) :
    (m.remove id).2.entries =
      match m.index[id]? with
      | some place => m.entries.eraseIdxIfInBounds place
      | none => m.entries := by
  unfold remove
  split <;> simp_all

end PropertyMap

end PropertyGraph
