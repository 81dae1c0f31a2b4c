import Mathlib.Data.List.Nodup
import Mathlib.Data.List.Perm.Subperm
import PropertyGraph.Value

/-!
# Equality of values

Numerical equality of doubles, equality of JSON values up to the order of members, and equality of property values
are symmetric and transitive.  They are not reflexive, since a NaN differs from itself.  Objects are compared by
looking the members of one up in the other, so symmetry needs that no object has a key twice.  The key facts:
`Json.equal_symm` and `Json.equal_trans`, and from them that equal properties cannot be told apart by comparing them
with a third one (`Property.equal_congr`).
-/

namespace PropertyGraph

/-! ### Looking up -/

section Lookup

variable {α β : Type} [BEq α] [LawfulBEq α] {entries : List (α × β)} {key : α} {value : β}

theorem mem_of_lookup (h : entries.lookup key = some value) : (key, value) ∈ entries := by
  obtain ⟨before, after, rfl, -⟩ := List.lookup_eq_some_iff.1 h
  simp

/-- An entry whose key comes once is found. -/
theorem lookup_of_mem_of_once (honce : (entries.map Prod.fst).count key ≤ 1) (h : (key, value) ∈ entries) :
    entries.lookup key = some value := by
  obtain ⟨before, after, rfl⟩ := List.mem_iff_append.1 h
  rw [List.map_append, List.map_cons, List.count_append, List.count_cons_self] at honce
  have hnot : key ∉ before.map Prod.fst := List.count_eq_zero.1 (by omega)
  refine List.lookup_eq_some_iff.2 ⟨before, after, rfl, fun entry hentry => bne_iff_ne.2 fun heq => hnot ?_⟩
  exact heq ▸ List.mem_map_of_mem hentry

theorem lookup_of_mem (hkeys : (entries.map Prod.fst).Nodup) (h : (key, value) ∈ entries) :
    entries.lookup key = some value :=
  lookup_of_mem_of_once (List.nodup_iff_count_le_one.1 hkeys key) h

end Lookup

/-! ### Numbers -/

namespace Finite

variable {F : BinaryFormat} {x y z : Finite F}

theorem equal_symm (h : x.equal y = true) : y.equal x = true := by
  simp only [equal, Bool.and_eq_true, Bool.or_eq_true, beq_iff_eq] at h ⊢
  obtain ⟨hordinal, hsign⟩ := h
  exact ⟨hordinal.symm, hsign.imp Eq.symm fun hzero => hordinal ▸ hzero⟩

theorem equal_trans (h : x.equal y = true) (h' : y.equal z = true) : x.equal z = true := by
  simp only [equal, Bool.and_eq_true, Bool.or_eq_true, beq_iff_eq] at h h' ⊢
  obtain ⟨hordinal, hsign⟩ := h
  obtain ⟨hordinal', hsign'⟩ := h'
  refine ⟨hordinal.trans hordinal', ?_⟩
  rcases hsign with hsign | hzero
  · exact hsign'.imp hsign.trans hordinal.trans
  · exact .inr hzero

end Finite

namespace Binary

variable {F : BinaryFormat} {x y z : Binary F}

theorem equal_symm (h : x.equal y = true) : y.equal x = true := by
  cases x <;> cases y <;> try contradiction
  · exact beq_iff_eq.2 (beq_iff_eq.1 h).symm
  · exact Finite.equal_symm h

theorem equal_trans (h : x.equal y = true) (h' : y.equal z = true) : x.equal z = true := by
  cases x <;> cases y <;> try contradiction
  all_goals cases z <;> try contradiction
  · exact beq_iff_eq.2 ((beq_iff_eq.1 h).trans (beq_iff_eq.1 h'))
  · exact Finite.equal_trans h h'

end Binary

namespace Json

namespace Number

variable {m n k : Number}

theorem equal_symm (h : m.equal n = true) : n.equal m = true := by
  cases m <;> cases n <;> try contradiction
  · exact beq_iff_eq.2 (beq_iff_eq.1 h).symm
  · exact Finite.equal_symm h

theorem equal_trans (h : m.equal n = true) (h' : n.equal k = true) : m.equal k = true := by
  cases m <;> cases n <;> try contradiction
  all_goals cases k <;> try contradiction
  · exact beq_iff_eq.2 ((beq_iff_eq.1 h).trans (beq_iff_eq.1 h'))
  · exact Finite.equal_trans h h'

end Number

/-! ### Members -/

theorem equalMembers_iff {ms ns : List (String × Json)} :
    equalMembers ms ns = true ↔ ∀ m ∈ ms, ∃ w, ns.lookup m.1 = some w ∧ m.2.equal w = true := by
  induction ms with
  | nil => simp [equalMembers]
  | cons m ms ih =>
    obtain ⟨key, v⟩ := m
    rw [equalMembers, Bool.and_eq_true, ih, List.forall_mem_cons]
    refine and_congr_left fun _ => ?_
    cases ns.lookup key <;> simp

mutual

/-- No object in the value has a key twice, as objects are maps from keys to values. -/
def KeysDistinct : Json → Prop
  | .array items => KeysDistinctItems items
  | .object members => (members.map Prod.fst).Nodup ∧ KeysDistinctMembers members
  | _ => True

def KeysDistinctItems : List Json → Prop
  | [] => True
  | x :: xs => x.KeysDistinct ∧ KeysDistinctItems xs

def KeysDistinctMembers : List (String × Json) → Prop
  | [] => True
  | (_, v) :: ms => v.KeysDistinct ∧ KeysDistinctMembers ms

end

theorem KeysDistinctMembers.of_mem {ms : List (String × Json)} (h : KeysDistinctMembers ms) {m : String × Json}
    (hm : m ∈ ms) : m.2.KeysDistinct := by
  induction ms with
  | nil => cases hm
  | cons first ms ih =>
    rcases List.mem_cons.1 hm with rfl | hm
    · exact h.1
    · exact ih h.2 hm

/-- Of two objects of one length whose members are all found in the other, the other has no further key. -/
private theorem keys_subset {ms ns : List (String × Json)} (hkeys : (ms.map Prod.fst).Nodup)
    (hlength : ms.length = ns.length) (h : equalMembers ms ns = true) :
    ns.map Prod.fst ⊆ ms.map Prod.fst := by
  have hsub : ms.map Prod.fst ⊆ ns.map Prod.fst := by
    intro key hkey
    obtain ⟨m, hm, rfl⟩ := List.mem_map.1 hkey
    obtain ⟨w, hw, -⟩ := equalMembers_iff.1 h m hm
    exact List.mem_map.2 ⟨_, mem_of_lookup hw, rfl⟩
  exact ((hkeys.subperm hsub).perm_of_length_le (by simp [hlength])).symm.subset

/-! ### JSON values -/

mutual

theorem equal_symm {i j : Json} (hi : i.KeysDistinct) (hj : j.KeysDistinct) (h : i.equal j = true) :
    j.equal i = true := by
  cases i <;> cases j <;> try contradiction
  case null.null => rfl
  case bool.bool => exact beq_iff_eq.2 (beq_iff_eq.1 h).symm
  case number.number => exact Number.equal_symm h
  case string.string => exact beq_iff_eq.2 (beq_iff_eq.1 h).symm
  case array.array xs ys => exact equalItems_symm hi hj h
  case object.object ms ns =>
    rw [equal, Bool.and_eq_true, beq_iff_eq] at h ⊢
    refine ⟨h.1.symm, equalMembers_iff.2 fun n hn => ?_⟩
    -- the key is one of the first object too, and what it has there was found equal to this member
    obtain ⟨m, hm, hkey⟩ := List.mem_map.1 (keys_subset hi.1 h.1 h.2 (List.mem_map_of_mem hn))
    obtain ⟨w, hw, hequal⟩ := equalMembers_iff.1 h.2 m hm
    rw [hkey, lookup_of_mem hj.1 hn] at hw
    obtain rfl := Option.some.inj hw
    refine ⟨m.2, hkey ▸ lookup_of_mem hi.1 hm, ?_⟩
    exact equal_symm_of_mem hi.2 m hm (hj.2.of_mem hn) hequal

theorem equalItems_symm {xs ys : List Json} (hxs : KeysDistinctItems xs) (hys : KeysDistinctItems ys)
    (h : equalItems xs ys = true) : equalItems ys xs = true := by
  match xs, ys with
  | [], [] => rfl
  | x :: xs, y :: ys =>
    rw [equalItems, Bool.and_eq_true] at h ⊢
    exact ⟨equal_symm hxs.1 hys.1 h.1, equalItems_symm hxs.2 hys.2 h.2⟩

theorem equal_symm_of_mem {ms : List (String × Json)} (hms : KeysDistinctMembers ms) (m : String × Json) (hm : m ∈ ms)
    {w : Json} (hw : w.KeysDistinct) (h : m.2.equal w = true) : w.equal m.2 = true := by
  match ms with
  | [] => cases hm
  | (key, v) :: ms =>
    rcases List.mem_cons.1 hm with rfl | hm
    · exact equal_symm hms.1 hw h
    · exact equal_symm_of_mem hms.2 m hm hw h

end

mutual

theorem equal_trans {i j k : Json} (h : i.equal j = true) (h' : j.equal k = true) : i.equal k = true := by
  cases i <;> cases j <;> try contradiction
  all_goals cases k <;> try contradiction
  case null.null.null => rfl
  case bool.bool.bool => exact beq_iff_eq.2 ((beq_iff_eq.1 h).trans (beq_iff_eq.1 h'))
  case number.number.number => exact Number.equal_trans h h'
  case string.string.string => exact beq_iff_eq.2 ((beq_iff_eq.1 h).trans (beq_iff_eq.1 h'))
  case array.array.array => exact equalItems_trans h h'
  case object.object.object =>
    rw [equal, Bool.and_eq_true, beq_iff_eq] at h h' ⊢
    exact ⟨h.1.trans h'.1, equalMembers_trans h.2 h'.2⟩

theorem equalItems_trans {xs ys zs : List Json} (h : equalItems xs ys = true) (h' : equalItems ys zs = true) :
    equalItems xs zs = true := by
  match xs, ys, zs with
  | [], [], [] => rfl
  | x :: xs, y :: ys, z :: zs =>
    rw [equalItems, Bool.and_eq_true] at h h' ⊢
    exact ⟨equal_trans h.1 h'.1, equalItems_trans h.2 h'.2⟩

theorem equalMembers_trans {ms ns os : List (String × Json)} (h : equalMembers ms ns = true)
    (h' : equalMembers ns os = true) : equalMembers ms os = true := by
  match ms with
  | [] => rfl
  | (key, v) :: ms =>
    obtain ⟨hfirst, hrest⟩ := List.forall_mem_cons.1 (equalMembers_iff.1 h)
    obtain ⟨w, hw, hequal⟩ := hfirst
    obtain ⟨u, hu, hequal'⟩ := equalMembers_iff.1 h' _ (mem_of_lookup hw)
    rw [equalMembers, hu, Bool.and_eq_true]
    exact ⟨equal_trans hequal hequal', equalMembers_trans (equalMembers_iff.2 hrest) h'⟩

end

end Json

/-! ### Property values -/

namespace PropertyValue

mutual

/-- No object in the value has a key twice. -/
def KeysDistinct : PropertyValue → Prop
  | list items => KeysDistinctItems items
  | nested j => j.KeysDistinct
  | _ => True

def KeysDistinctItems : List PropertyValue → Prop
  | [] => True
  | v :: vs => v.KeysDistinct ∧ KeysDistinctItems vs

end

mutual

theorem equal_symm {v w : PropertyValue} (hv : v.KeysDistinct) (hw : w.KeysDistinct) (h : v.equal w = true) :
    w.equal v = true := by
  cases v <;> cases w <;> try contradiction
  case float32.float32 => exact Binary.equal_symm h
  case float64.float64 => exact Binary.equal_symm h
  case list.list => exact equalItems_symm hv hw h
  case nested.nested => exact Json.equal_symm hv hw h
  all_goals exact beq_iff_eq.2 (beq_iff_eq.1 h).symm

theorem equalItems_symm {vs ws : List PropertyValue} (hvs : KeysDistinctItems vs) (hws : KeysDistinctItems ws)
    (h : equalItems vs ws = true) : equalItems ws vs = true := by
  match vs, ws with
  | [], [] => rfl
  | v :: vs, w :: ws =>
    rw [equalItems, Bool.and_eq_true] at h ⊢
    exact ⟨equal_symm hvs.1 hws.1 h.1, equalItems_symm hvs.2 hws.2 h.2⟩

end

mutual

theorem equal_trans {u v w : PropertyValue} (h : u.equal v = true) (h' : v.equal w = true) : u.equal w = true := by
  cases u <;> cases v <;> try contradiction
  all_goals cases w <;> try contradiction
  case float32.float32.float32 => exact Binary.equal_trans h h'
  case float64.float64.float64 => exact Binary.equal_trans h h'
  case list.list.list => exact equalItems_trans h h'
  case nested.nested.nested => exact Json.equal_trans h h'
  all_goals exact beq_iff_eq.2 ((beq_iff_eq.1 h).trans (beq_iff_eq.1 h'))

theorem equalItems_trans {us vs ws : List PropertyValue} (h : equalItems us vs = true)
    (h' : equalItems vs ws = true) : equalItems us ws = true := by
  match us, vs, ws with
  | [], [], [] => rfl
  | u :: us, v :: vs, w :: ws =>
    rw [equalItems, Bool.and_eq_true] at h h' ⊢
    exact ⟨equal_trans h.1 h'.1, equalItems_trans h.2 h'.2⟩

end

end PropertyValue

namespace Property

variable {p q r : Property}

/-- No object in the value has a key twice. -/
def KeysDistinct (p : Property) : Prop := ∀ v ∈ p.value, v.KeysDistinct

theorem equal_symm (hp : p.KeysDistinct) (hq : q.KeysDistinct) (h : p.equal q = true) : q.equal p = true := by
  obtain ⟨key, v⟩ := p
  obtain ⟨key', w⟩ := q
  rw [equal, Bool.and_eq_true, beq_iff_eq] at h ⊢
  refine ⟨h.1.symm, ?_⟩
  cases v <;> cases w
  · rfl
  · cases h.2
  · cases h.2
  · exact PropertyValue.equal_symm (hp _ rfl) (hq _ rfl) h.2

theorem equal_trans (h : p.equal q = true) (h' : q.equal r = true) : p.equal r = true := by
  obtain ⟨key, u⟩ := p
  obtain ⟨key', v⟩ := q
  obtain ⟨key'', w⟩ := r
  rw [equal, Bool.and_eq_true, beq_iff_eq] at h h' ⊢
  refine ⟨h.1.trans h'.1, ?_⟩
  cases u <;> cases v <;> try cases h.2
  all_goals cases w <;> try cases h'.2
  · rfl
  · exact PropertyValue.equal_trans h.2 h'.2

/-- Equal properties cannot be told apart by comparing them with a third one. -/
theorem equal_congr (hp : p.KeysDistinct) (hq : q.KeysDistinct) (h : p.equal q = true) (r : Property) :
    p.equal r = q.equal r :=
  Bool.eq_iff_iff.2 ⟨equal_trans (equal_symm hp hq h), equal_trans h⟩

end Property

end PropertyGraph
