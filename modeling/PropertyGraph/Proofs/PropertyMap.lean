import Mathlib.Data.List.Forall2
import PropertyGraph.PropertyMap
import PropertyGraph.Proofs.Equality

/-!
# Property maps as lists

A property map answers as a plain list of entries does, on which each operation is a walk from the front.  The key
facts: one operation does the same to a map and to its list (`PropertyMap.step_toList`), so do all operations of a
run, and the maps that a run reaches have each identifier once, at the place that the index gives
(`PropertyMap.run_as_list`).  Maps that compare equal have lists whose properties no comparison tells apart
(`PropertyMap.alike_of_equal`), and every operation keeps that (`PropertyList.step_alike`).
-/

namespace PropertyGraph

/-! ### Lists of entries -/

/-- Properties under identifiers, in the order in which the identifiers came. -/
abbrev PropertyList := List (Identifier × Property)

namespace PropertyList

/-- The list after a property is set: where its identifier stands, or else at the end. -/
def set (id : Identifier) (property : Property) : PropertyList → PropertyList
  | [] => [(id, property)]
  | (other, old) :: l => if other = id then (other, property) :: l else (other, old) :: set id property l

/-- The list without the first entry of an identifier. -/
def remove (id : Identifier) (l : PropertyList) : PropertyList := l.eraseP (·.1 == id)

/-- The list of entries that are set one after the other. -/
def collect (entries : List (Identifier × Property)) : PropertyList :=
  entries.foldl (fun l entry => set entry.1 entry.2 l) []

/-- The first property with a key. -/
def getByKey? (key : String) : PropertyList → Option Property
  | [] => none
  | (_, property) :: l => if property.key == key then some property else getByKey? key l

/-- Whether two lists have equal properties under the same identifiers in the same order. -/
def equal : PropertyList → PropertyList → Bool
  | [], [] => true
  | (i, p) :: l, (j, q) :: k => i == j && p.equal q && equal l k
  | _, _ => false

variable {id : Identifier} {place : Nat} {l : PropertyList}

theorem set_of_not_mem (property : Property) (h : id ∉ l.map Prod.fst) : l.set id property = l ++ [(id, property)] := by
  induction l with
  | nil => rfl
  | cons entry l ih =>
    rw [List.map_cons, List.mem_cons, not_or] at h
    rw [set, if_neg (Ne.symm h.1), ih h.2, List.cons_append]

/-- The first of two places of an identifier cannot be another one. -/
private theorem head_ne {entry : Identifier × Property} (hids : ((entry :: l).map Prod.fst).Nodup)
    (h : l[place]?.map Prod.fst = some id) : entry.1 ≠ id := by
  obtain ⟨found, hfound, rfl⟩ := Option.map_eq_some_iff.1 h
  rw [List.map_cons, List.nodup_cons] at hids
  exact fun heq => hids.1 (heq ▸ List.mem_map_of_mem (List.mem_of_getElem? hfound))

theorem set_of_getElem? (property : Property) (hids : (l.map Prod.fst).Nodup)
    (h : l[place]?.map Prod.fst = some id) :
    l.set id property = l.modify place fun entry => (entry.1, property) := by
  induction l generalizing place with
  | nil => simp at h
  | cons entry l ih =>
    cases place with
    | zero =>
      rw [set, if_pos (Option.some.inj h), List.modify_zero_cons]
    | succ place =>
      rw [List.getElem?_cons_succ] at h
      rw [set, if_neg (head_ne hids h), ih (List.nodup_cons.1 hids).2 h, List.modify_succ_cons]

theorem remove_of_not_mem (h : id ∉ l.map Prod.fst) : l.remove id = l := by
  refine List.eraseP_of_forall_not fun entry hentry hid => h ?_
  exact beq_iff_eq.1 hid ▸ List.mem_map_of_mem hentry

theorem remove_of_getElem? (hids : (l.map Prod.fst).Nodup) (h : l[place]?.map Prod.fst = some id) :
    l.remove id = l.eraseIdx place := by
  induction l generalizing place with
  | nil => simp at h
  | cons entry l ih =>
    cases place with
    | zero =>
      rw [remove, List.eraseP_cons, beq_iff_eq.2 (Option.some.inj h), cond_true, List.eraseIdx_cons_zero]
    | succ place =>
      rw [List.getElem?_cons_succ] at h
      rw [remove, List.eraseP_cons, beq_false_of_ne (head_ne hids h), cond_false, List.eraseIdx_cons_succ]
      exact congrArg _ (ih (List.nodup_cons.1 hids).2 h)

end PropertyList

/-! ### Maps and their lists -/

namespace PropertyMap

def toList (m : PropertyMap) : PropertyList := m.entries.toList

variable {m n : PropertyMap} {id : Identifier}

/-- The index gives an identifier the place of its entry. -/
theorem index_eq_some_iff {place : Nat} :
    m.index[id]? = some place ↔ m.toList[place]?.map Prod.fst = some id := by
  rw [toList, Array.getElem?_toList, m.indexes]

theorem nodup_ids (m : PropertyMap) : (m.toList.map Prod.fst).Nodup := by
  rw [List.nodup_iff_getElem?_ne_getElem?]
  intro i j hlt hj heq
  have hid := List.getElem?_eq_getElem hj
  have hi := heq.trans hid
  -- the index gives an identifier one place only
  rw [List.getElem?_map, ← index_eq_some_iff] at hi hid
  rw [hi] at hid
  have := Option.some.inj hid
  omega

theorem index_eq_none_iff : m.index[id]? = none ↔ id ∉ m.toList.map Prod.fst := by
  rw [Option.eq_none_iff_forall_ne_some, List.mem_iff_getElem?, not_exists]
  refine forall_congr' fun place => not_congr ?_
  rw [index_eq_some_iff, List.getElem?_map]

theorem get?_eq_lookup (m : PropertyMap) (id : Identifier) : m.get? id = m.toList.lookup id := by
  ext property
  rw [get?_eq_some_iff, Array.mem_def]
  exact ⟨lookup_of_mem m.nodup_ids, mem_of_lookup⟩

theorem insert_fst (m : PropertyMap) (id : Identifier) (property : Property) :
    (m.insert id property).1 = m.get? id := by
  unfold insert get?
  split <;> simp_all

theorem remove_fst (m : PropertyMap) (id : Identifier) : (m.remove id).1 = m.get? id := by
  unfold remove get?
  split <;> simp_all

theorem toList_insert (m : PropertyMap) (id : Identifier) (property : Property) :
    (m.insert id property).2.toList = m.toList.set id property := by
  rw [toList, entries_insert]
  cases hplace : m.index[id]? with
  | none => exact Array.toList_push.trans (PropertyList.set_of_not_mem _ (index_eq_none_iff.1 hplace)).symm
  | some place =>
    exact Array.toList_modify.trans (PropertyList.set_of_getElem? _ m.nodup_ids (index_eq_some_iff.1 hplace)).symm

theorem toList_remove (m : PropertyMap) (id : Identifier) : (m.remove id).2.toList = m.toList.remove id := by
  rw [toList, entries_remove]
  cases hplace : m.index[id]? with
  | none => exact (PropertyList.remove_of_not_mem (index_eq_none_iff.1 hplace)).symm
  | some place =>
    exact Array.toList_eraseIdxIfInBounds.trans
      (PropertyList.remove_of_getElem? m.nodup_ids (index_eq_some_iff.1 hplace)).symm

theorem toList_ofList (entries : List (Identifier × Property)) :
    (ofList entries).toList = PropertyList.collect entries := by
  have hfold (m : PropertyMap) : (entries.foldl (fun m entry => (m.insert entry.1 entry.2).2) m).toList =
      entries.foldl (fun l entry => PropertyList.set entry.1 entry.2 l) m.toList := by
    induction entries generalizing m with
    | nil => rfl
    | cons entry entries ih => rw [List.foldl_cons, List.foldl_cons, ih, toList_insert]
  exact hfold empty

theorem getByKey?_eq (m : PropertyMap) (key : String) : m.getByKey? key = m.toList.getByKey? key := by
  have hlist (l : PropertyList) : (l.map Prod.snd).find? (·.key == key) = l.getByKey? key := by
    induction l with
    | nil => rfl
    | cons entry l ih =>
      rw [List.map_cons, List.find?_cons, ih, PropertyList.getByKey?]
      cases entry.2.key == key <;> rfl
  exact hlist m.toList

theorem equal_eq (m n : PropertyMap) : m.equal n = m.toList.equal n.toList := by
  have hlist (l k : PropertyList) : (l.length == k.length &&
      (l.zip k).all fun pair => pair.1.1 == pair.2.1 && pair.1.2.equal pair.2.2) = l.equal k := by
    induction l generalizing k with
    | nil => cases k <;> rfl
    | cons entry l ih =>
      cases k with
      | nil => rfl
      | cons other k =>
        rw [PropertyList.equal, ← ih, List.zip_cons_cons, List.all_cons]
        simp [Bool.and_left_comm]
  exact hlist m.toList n.toList

/-! ### Runs of operations -/

/-- What can be done to a map or asked of it. -/
inductive Operation where
  | insert (id : Identifier) (property : Property)
  | remove (id : Identifier)
  | collect (entries : List (Identifier × Property))
  | get (id : Identifier)
  | getByKey (key : String)
  | size
  | isEmpty
  | entries
  | equals (other : PropertyMap)

/-- What an operation answers. -/
inductive Outcome where
  | done
  | property (p : Option Property)
  | count (n : Nat)
  | truth (b : Bool)
  | entries (l : PropertyList)

/-- The answer to an operation, and the map after it. -/
def step (m : PropertyMap) : Operation → Outcome × PropertyMap
  | .insert id property => (.property (m.insert id property).1, (m.insert id property).2)
  | .remove id => (.property (m.remove id).1, (m.remove id).2)
  | .collect entries => (.done, ofList entries)
  | .get id => (.property (m.get? id), m)
  | .getByKey key => (.property (m.getByKey? key), m)
  | .size => (.count m.size, m)
  | .isEmpty => (.truth m.isEmpty, m)
  | .entries => (.entries m.toList, m)
  | .equals other => (.truth (m.equal other), m)

end PropertyMap

/-- The answer of a list to an operation, and the list after it. -/
def PropertyList.step (l : PropertyList) : PropertyMap.Operation → PropertyMap.Outcome × PropertyList
  | .insert id property => (.property (l.lookup id), l.set id property)
  | .remove id => (.property (l.lookup id), l.remove id)
  | .collect entries => (.done, collect entries)
  | .get id => (.property (l.lookup id), l)
  | .getByKey key => (.property (l.getByKey? key), l)
  | .size => (.count l.length, l)
  | .isEmpty => (.truth l.isEmpty, l)
  | .entries => (.entries l, l)
  | .equals other => (.truth (l.equal other.toList), l)

namespace PropertyMap

/-- The answers to operations one after the other, and what there is after the last of them. -/
def run {σ : Type} (step : σ → Operation → Outcome × σ) (s : σ) : List Operation → List Outcome × σ
  | [] => ([], s)
  | op :: ops => ((step s op).1 :: (run step (step s op).2 ops).1, (run step (step s op).2 ops).2)

/-- An operation does the same to a map and to its list. -/
theorem step_toList (m : PropertyMap) (op : Operation) :
    m.toList.step op = ((m.step op).1, (m.step op).2.toList) := by
  cases op with
  | insert id property => rw [PropertyList.step, step, toList_insert, insert_fst, get?_eq_lookup]
  | remove id => rw [PropertyList.step, step, toList_remove, remove_fst, get?_eq_lookup]
  | collect entries => rw [PropertyList.step, step, toList_ofList]
  | get id => rw [PropertyList.step, step, get?_eq_lookup]
  | getByKey key => rw [PropertyList.step, step, getByKey?_eq]
  | size => rfl
  | isEmpty => rw [PropertyList.step, step, toList, isEmpty, Array.isEmpty_toList]
  | entries => rfl
  | equals other => rw [PropertyList.step, step, equal_eq]

theorem run_toList (m : PropertyMap) (ops : List Operation) :
    run PropertyList.step m.toList ops = ((run step m ops).1, (run step m ops).2.toList) := by
  induction ops generalizing m with
  | nil => rfl
  | cons op ops ih => simp only [run, step_toList, ih]

end PropertyMap

/-! ### Properties that no comparison tells apart -/

/-- The properties are the same, or equal ones in which no object has a key twice; a property with a NaN is the
same as itself without being equal to itself. -/
def Property.Alike (p q : Property) : Prop := p = q ∨ p.KeysDistinct ∧ q.KeysDistinct ∧ p.equal q = true

namespace Property.Alike

variable {p q : Property}

theorem key_eq (h : p.Alike q) : p.key = q.key := by
  rcases h with rfl | ⟨-, -, h⟩
  · rfl
  · rw [equal, Bool.and_eq_true, beq_iff_eq] at h
    exact h.1

theorem equal_eq (h : p.Alike q) (r : Property) : p.equal r = q.equal r := by
  rcases h with rfl | ⟨hp, hq, h⟩
  · rfl
  · exact equal_congr hp hq h r

end Property.Alike

namespace PropertyList

/-- The lists have the same identifiers, and under each of them properties that no comparison tells apart. -/
def Alike : PropertyList → PropertyList → Prop := List.Forall₂ fun a b => a.1 = b.1 ∧ a.2.Alike b.2

variable {l k : PropertyList}

theorem Alike.refl (l : PropertyList) : Alike l l := List.forall₂_same.2 fun _ _ => ⟨rfl, .inl rfl⟩

theorem Alike.lookup (h : Alike l k) (id : Identifier) : Option.Rel Property.Alike (l.lookup id) (k.lookup id) := by
  induction h with
  | nil => exact .none
  | @cons a b l k hab _ ih =>
    rw [List.lookup_cons, List.lookup_cons, hab.1]
    cases id == b.1 with
    | true => exact .some hab.2
    | false => exact ih

theorem Alike.getByKey? (h : Alike l k) (key : String) :
    Option.Rel Property.Alike (getByKey? key l) (getByKey? key k) := by
  induction h with
  | nil => exact .none
  | @cons a b l k hab _ ih =>
    unfold PropertyList.getByKey?
    rw [hab.2.key_eq]
    split
    · exact .some hab.2
    · exact ih

theorem Alike.set (h : Alike l k) (id : Identifier) (property : Property) :
    Alike (l.set id property) (k.set id property) := by
  induction h with
  | nil => exact .refl _
  | @cons a b l k hab h ih =>
    unfold PropertyList.set
    rw [hab.1]
    split
    · exact .cons ⟨rfl, .inl rfl⟩ h
    · exact .cons ⟨rfl, hab.2⟩ ih

theorem Alike.remove (h : Alike l k) (id : Identifier) : Alike (l.remove id) (k.remove id) := by
  induction h with
  | nil => exact .refl _
  | @cons a b l k hab h ih =>
    unfold PropertyList.remove
    rw [List.eraseP_cons, List.eraseP_cons, hab.1]
    cases b.1 == id with
    | true => exact h
    | false => exact .cons hab ih

theorem Alike.equal_eq (h : Alike l k) (other : PropertyList) : l.equal other = k.equal other := by
  induction h generalizing other with
  | nil => rfl
  | @cons a b l k hab _ ih =>
    cases other with
    | nil => rfl
    | cons c other => rw [equal, equal, hab.1, hab.2.equal_eq, ih]

end PropertyList

/-- The answers are the same up to properties that no comparison tells apart. -/
inductive PropertyMap.Outcome.Alike : PropertyMap.Outcome → PropertyMap.Outcome → Prop
  | refl (o : PropertyMap.Outcome) : Alike o o
  | property {p q : Option Property} (h : Option.Rel Property.Alike p q) : Alike (.property p) (.property q)
  | entries {l k : PropertyList} (h : l.Alike k) : Alike (.entries l) (.entries k)

/-- An operation answers alike on lists that are alike, and leaves them alike. -/
theorem PropertyList.step_alike {l k : PropertyList} (h : l.Alike k) (op : PropertyMap.Operation) :
    (l.step op).1.Alike (k.step op).1 ∧ (l.step op).2.Alike (k.step op).2 := by
  cases op with
  | insert id property => exact ⟨.property (h.lookup id), h.set id property⟩
  | remove id => exact ⟨.property (h.lookup id), h.remove id⟩
  | collect entries => exact ⟨.refl _, .refl _⟩
  | get id => exact ⟨.property (h.lookup id), h⟩
  | getByKey key => exact ⟨.property (h.getByKey? key), h⟩
  | size =>
    rw [step, step, h.length_eq]
    exact ⟨.refl _, h⟩
  | isEmpty =>
    have hempty : l.isEmpty = k.isEmpty := by cases h <;> rfl
    rw [step, step, hempty]
    exact ⟨.refl _, h⟩
  | entries => exact ⟨.entries h, h⟩
  | equals other =>
    rw [step, step, h.equal_eq]
    exact ⟨.refl _, h⟩

theorem PropertyList.run_alike {l k : PropertyList} (h : l.Alike k) (ops : List PropertyMap.Operation) :
    List.Forall₂ PropertyMap.Outcome.Alike (PropertyMap.run step l ops).1 (PropertyMap.run step k ops).1 := by
  induction ops generalizing l k with
  | nil => exact .nil
  | cons op ops ih => exact .cons (step_alike h op).1 (ih (step_alike h op).2)

namespace PropertyMap

/-- No object in the properties has a key twice. -/
def KeysDistinct (m : PropertyMap) : Prop := ∀ entry ∈ m.toList, entry.2.KeysDistinct

theorem alike_of_equal {m n : PropertyMap} (hm : m.KeysDistinct) (hn : n.KeysDistinct) (h : m.equal n = true) :
    m.toList.Alike n.toList := by
  have hlist {l k : PropertyList} (hl : ∀ entry ∈ l, entry.2.KeysDistinct) (hk : ∀ entry ∈ k, entry.2.KeysDistinct)
      (h : l.equal k = true) : l.Alike k := by
    induction l generalizing k with
    | nil =>
      cases k with
      | nil => exact .refl _
      | cons b k => cases h
    | cons a l ih =>
      cases k with
      | nil => cases h
      | cons b k =>
        rw [PropertyList.equal, Bool.and_eq_true, Bool.and_eq_true, beq_iff_eq] at h
        obtain ⟨ha, hl⟩ := List.forall_mem_cons.1 hl
        obtain ⟨hb, hk⟩ := List.forall_mem_cons.1 hk
        exact .cons ⟨h.1.1, .inr ⟨ha, hb, h.1.2⟩⟩ (ih hl hk h.2)
  rw [equal_eq] at h
  exact hlist hm hn h

/-- Every run from the empty map answers as it does on the empty list of entries and ends in the map of the list
that it ends in there, with each identifier once and at the place that the index gives; and every run answers
alike on maps that compare equal. -/
theorem run_as_list (ops : List Operation) :
    ((run step ∅ ops).1 = (run PropertyList.step [] ops).1 ∧
      (run step ∅ ops).2.entries.toList = (run PropertyList.step [] ops).2 ∧
      ((run step ∅ ops).2.entries.toList.map Prod.fst).Nodup ∧
      ∀ id place, (run step ∅ ops).2.index[id]? = some place ↔
        ∃ h : place < (run step ∅ ops).2.entries.size, (run step ∅ ops).2.entries[place].1 = id) ∧
    ∀ m n : PropertyMap, m.KeysDistinct → n.KeysDistinct → m.equal n = true →
      List.Forall₂ Outcome.Alike (run step m ops).1 (run step n ops).1 := by
  constructor
  · have hrun : run PropertyList.step [] ops = ((run step ∅ ops).1, (run step ∅ ops).2.toList) := run_toList ∅ ops
    refine ⟨by rw [hrun], by rw [hrun]; rfl, nodup_ids _, fun id place => ?_⟩
    rw [index_eq_some_iff, toList, Array.getElem?_toList, Option.map_eq_some_iff]
    constructor
    · rintro ⟨entry, hentry, rfl⟩
      obtain ⟨hplace, rfl⟩ := Array.getElem?_eq_some_iff.1 hentry
      exact ⟨hplace, rfl⟩
    · rintro ⟨hplace, rfl⟩
      exact ⟨_, Array.getElem?_eq_getElem hplace, rfl⟩
  · intro m n hm hn hequal
    have hruns := PropertyList.run_alike (alike_of_equal hm hn hequal) ops
    rwa [run_toList, run_toList] at hruns

/-- A map with a zero of one sign. -/
def ofZero (negative : Bool) : PropertyMap :=
  (∅ : PropertyMap).set ⟨"balance", some (.float64 (.finite ⟨negative, 0, by decide⟩))⟩

/-- The zeros of both signs compare equal, so no run tells their maps apart by comparing. -/
theorem run_as_list_ofZero :
    (ofZero false).KeysDistinct ∧ (ofZero true).KeysDistinct ∧ (ofZero false).equal (ofZero true) = true ∧
      List.Forall₂ Outcome.Alike
        (run step (ofZero false)
          [.insert (.numeric 1) ⟨"name", none⟩, .remove (.textual "balance"), .equals (ofZero true), .entries]).1
        (run step (ofZero true)
          [.insert (.numeric 1) ⟨"name", none⟩, .remove (.textual "balance"), .equals (ofZero true), .entries]).1 := by
  have hlist (negative : Bool) : (ofZero negative).toList =
      [(.textual "balance", ⟨"balance", some (.float64 (.finite ⟨negative, 0, by decide⟩))⟩)] :=
    toList_insert ∅ _ _
  have hkeys (negative : Bool) : (ofZero negative).KeysDistinct := by
    intro entry hentry v hv
    rw [hlist, List.mem_singleton] at hentry
    subst hentry
    obtain rfl := Option.some.inj hv
    trivial
  have hequal : (ofZero false).equal (ofZero true) = true := by
    rw [equal_eq, hlist, hlist]
    decide +kernel
  exact ⟨hkeys false, hkeys true, hequal, (run_as_list _).2 _ _ (hkeys false) (hkeys true) hequal⟩

end PropertyMap

end PropertyGraph
