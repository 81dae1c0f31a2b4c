import PropertyGraph.Proofs.Encoding

/-!
# Elements that cannot be written

A number that is not finite and a timestamp without a date of four digits have no written form, and nothing else
is refused.  The first such value among the properties, in the order of the map and within a property from left to
right, gives the error, and what is written until then is the beginning of the text that the element has when that
value and those like it are replaced.  The key facts: writing a value breaks off at its first fault
(`PropertyValue.Mends.attempts`), and so does writing an element (`Element.attempts_write`), which tells the property
(`Element.toText_error`).
-/

namespace PropertyGraph

open JsonWriter

/-! ### Faults -/

namespace PropertyValue

mutual

/-- The values in a value that are no lists, from left to right. -/
def leaves : PropertyValue → List PropertyValue
  | list items => leavesOf items
  | v => [v]

def leavesOf : List PropertyValue → List PropertyValue
  | [] => []
  | v :: vs => v.leaves ++ leavesOf vs

end

def isList : PropertyValue → Bool
  | list _ => true
  | _ => false

/-- The error of a value that is no list, if it has no written form. -/
def fault? (r : Registry) : PropertyValue → Option EncodeError
  | float32 x => if x.isFinite then none else some (.nonFiniteFloat (x.convert .binary64))
  | float64 x => if x.isFinite then none else some (.nonFiniteFloat x)
  | timestamp t =>
    if r.timestamps = .rfc3339 ∧ ¬(Rfc3339.firstMillis ≤ t.millis.toInt ∧ t.millis.toInt ≤ Rfc3339.lastMillis) then
      some (.timestampOutOfRange t.millis)
    else none
  | _ => none

/-- The error of the first value in a value that has no written form. -/
def error? (r : Registry) (v : PropertyValue) : Option EncodeError := v.leaves.findSome? (fault? r)

/-- The first error of the items of a list. -/
def errorOf? (r : Registry) (items : List PropertyValue) : Option EncodeError :=
  (leavesOf items).findSome? (fault? r)

mutual

/-- A value in which everything without a written form is replaced by something that has one, and all else is kept. -/
inductive Mends (r : Registry) : PropertyValue → PropertyValue → Prop
  | replaced {v v' : PropertyValue} {e : EncodeError} (fault : v.fault? r = some e)
      (written : ∃ text, r.toText v' = .ok text) : Mends r v v'
  | kept {v : PropertyValue} (leaf : v.isList = false) (sound : v.fault? r = none) : Mends r v v
  | list {items items' : List PropertyValue} (each : MendsEach r items items') : Mends r (.list items) (.list items')

inductive MendsEach (r : Registry) : List PropertyValue → List PropertyValue → Prop
  | nil : MendsEach r [] []
  | cons {v v' : PropertyValue} {vs vs' : List PropertyValue} (head : Mends r v v') (tail : MendsEach r vs vs') :
      MendsEach r (v :: vs) (v' :: vs')

end

theorem leaves_of_isList {v : PropertyValue} (h : v.isList = false) : v.leaves = [v] := by
  cases v with
  | list items => cases h
  | _ => rfl

theorem isList_of_fault {r : Registry} {v : PropertyValue} {e : EncodeError} (h : v.fault? r = some e) :
    v.isList = false := by
  cases v with
  | list items => cases h
  | _ => rfl

theorem error?_of_isList {r : Registry} {v : PropertyValue} (h : v.isList = false) : v.error? r = v.fault? r := by
  rw [error?, leaves_of_isList h, List.findSome?_singleton]

theorem errorOf?_cons (r : Registry) (v : PropertyValue) (vs : List PropertyValue) :
    errorOf? r (v :: vs) = (v.error? r).or (errorOf? r vs) := by
  rw [errorOf?, leavesOf, List.findSome?_append]
  rfl

/-- A value without a written form is refused wherever it is written. -/
theorem run_write_of_fault {r : Registry} {v : PropertyValue} {e : EncodeError} (h : v.fault? r = some e)
    (w : JsonWriter) : (v.write r).run w = .error e w := by
  cases v with
  | float32 x =>
    cases x with
    | finite x => cases h
    | _ => obtain rfl := Option.some.inj h; rfl
  | float64 x =>
    cases x with
    | finite x => cases h
    | _ => obtain rfl := Option.some.inj h; rfl
  | timestamp t =>
    unfold fault? at h
    dsimp only at h
    split at h
    next hrange =>
      obtain rfl := Option.some.inj h
      have hrefused : Rfc3339.isWritable t.millis.toInt = false := by simpa [Rfc3339.isWritable] using hrange.2
      show (t.writeAs r.timestamps).run w = _
      rw [hrange.1, Timestamp.writeAs, hrefused]
      rfl
    next => cases h
  | _ => cases h

/-- A value that is no list has a tree if it has a written form. -/
theorem exists_tree?_of_fault {r : Registry} {v : PropertyValue} (hleaf : v.isList = false) (h : v.fault? r = none) :
    ∃ t, v.tree? r = some t := by
  cases v with
  | list items => cases hleaf
  | float32 x =>
    cases x with
    | finite x => exact ⟨_, rfl⟩
    | _ => cases h
  | float64 x =>
    cases x with
    | finite x => exact ⟨_, rfl⟩
    | _ => cases h
  | timestamp t =>
    obtain ⟨l, hl⟩ : ∃ l, t.leaf? r.timestamps = some l := by
      unfold Timestamp.leaf?
      cases hformat : r.timestamps with
      | epochMillis => exact ⟨_, rfl⟩
      | rfc3339 =>
        have hwritable : Rfc3339.isWritable t.millis.toInt = true := by
          by_contra hrange
          simp [fault?, hformat, Rfc3339.isWritable] at h hrange
          omega
        exact ⟨_, if_pos hwritable⟩
    exact ⟨.leaf l, by rw [tree?, hl]; rfl⟩
  | _ => exact ⟨_, rfl⟩

mutual

/-- Writing a value breaks off at its first fault; if there is none, nothing was replaced and the value is written. -/
theorem Mends.attempts {r : Registry} {v v' : PropertyValue} (h : Mends r v v') :
    ∃ t, v'.tree? r = some t ∧ Attempts (v.write r) (v.error? r) t := by
  cases h with
  | replaced fault written =>
    obtain ⟨text, htext⟩ := written
    obtain ⟨t, ht, -⟩ := Registry.toText_value_eq_ok_iff.1 htext
    refine ⟨t, ht, ?_⟩
    rw [error?_of_isList (isList_of_fault fault), fault]
    exact attempts_of_refused (run_write_of_fault fault) t
  | kept leaf sound =>
    obtain ⟨t, ht⟩ := exists_tree?_of_fault leaf sound
    refine ⟨t, ht, ?_⟩
    rw [error?_of_isList leaf, sound]
    have hputs := v.puts_write r
    rw [ht] at hputs
    exact hputs
  | list each =>
    obtain ⟨ts, hts, hitems⟩ := each.attempts
    exact ⟨.array ts, by rw [tree?, hts]; rfl, hitems.attempts_array⟩

theorem MendsEach.attempts {r : Registry} {items items' : List PropertyValue} (h : MendsEach r items items') :
    ∃ ts, trees? r items' = some ts ∧
      AttemptsItems (PropertyValue.writeItems r items) (errorOf? r items) ts := by
  cases h with
  | nil => exact ⟨[], rfl, addsItems_nil⟩
  | cons head tail =>
    obtain ⟨t, ht, hhead⟩ := head.attempts
    obtain ⟨ts, hts, htail⟩ := tail.attempts
    refine ⟨t :: ts, by rw [trees?, ht, hts]; rfl, ?_⟩
    rw [errorOf?_cons]
    exact AttemptsItems.cons hhead htail

end

mutual

/-- The value with every fault replaced by a truth value. -/
def mended (r : Registry) : PropertyValue → PropertyValue
  | list items => list (mendedEach r items)
  | v => if (v.fault? r).isSome then bool true else v

def mendedEach (r : Registry) : List PropertyValue → List PropertyValue
  | [] => []
  | v :: vs => v.mended r :: mendedEach r vs

end

mutual

theorem mends_mended (r : Registry) (v : PropertyValue) : Mends r v (v.mended r) := by
  cases hlist : v.isList with
  | true =>
    cases v with
    | list items => exact .list (mendsEach_mendedEach r items)
    | _ => cases hlist
  | false =>
    have hmended : v.mended r = if (v.fault? r).isSome then bool true else v := by
      cases v with
      | list items => cases hlist
      | _ => rfl
    rw [hmended]
    cases hfault : v.fault? r with
    | none => exact .kept hlist hfault
    | some e => exact .replaced hfault ⟨_, Registry.toText_value_eq_ok_iff.2 ⟨_, rfl, rfl⟩⟩

theorem mendsEach_mendedEach (r : Registry) (items : List PropertyValue) :
    MendsEach r items (mendedEach r items) := by
  cases items with
  | nil => exact .nil
  | cons v vs => exact .cons (mends_mended r v) (mendsEach_mendedEach r vs)

end

end PropertyValue

theorem Registry.toText_eq_error_iff_of_attempts {α : Type} [Encode α] {r : Registry} {x : α}
    {error? : Option EncodeError} {t : JsonTree} (h : Attempts (encode r x) error? t) {e : EncodeError} :
    r.toText x = .error e ↔ error? = some e := by
  have hreaches := h {} rfl
  unfold toText
  cases error? with
  | none =>
    rw [show (encode r x : Write Unit) {} = .ok () _ from hreaches]
    simp [finish_withValue]
  | some e' =>
    obtain ⟨last, more, hrun, -⟩ := hreaches
    rw [show (encode r x : Write Unit) {} = .error e' last from hrun]
    simp

/-- A value cannot be written exactly if there is a fault in it, and then for the first one. -/
theorem PropertyValue.toText_eq_error_iff {r : Registry} {v : PropertyValue} {e : EncodeError} :
    r.toText v = .error e ↔ v.error? r = some e := by
  obtain ⟨t, -, hattempts⟩ := (v.mends_mended r).attempts
  exact Registry.toText_eq_error_iff_of_attempts hattempts

theorem PropertyValue.exists_toText_iff {r : Registry} {v : PropertyValue} :
    (∃ text, r.toText v = .ok text) ↔ v.error? r = none := by
  cases htext : r.toText v with
  | ok text =>
    have hsound : v.error? r = none := Option.eq_none_iff_forall_ne_some.2 fun e he => by
      rw [toText_eq_error_iff.2 he] at htext
      cases htext
    simp [hsound]
  | error e => simp [toText_eq_error_iff.1 htext]

/-! ### Properties -/

namespace Property

/-- The values in a property that are no lists, from left to right. -/
def leaves (p : Property) : List PropertyValue := (p.value.map PropertyValue.leaves).getD []

/-- The error of the first fault in a property. -/
def error? (r : Registry) (p : Property) : Option EncodeError := p.leaves.findSome? (PropertyValue.fault? r)

/-- A property with the same key and a mended value, if it has a value. -/
structure Mends (r : Registry) (p p' : Property) : Prop where
  key : p'.key = p.key
  value : Option.Rel (PropertyValue.Mends r) p.value p'.value

theorem Mends.attempts {r : Registry} {p p' : Property} (h : Mends r p p') :
    ∃ t, p'.tree? r = some t ∧ AttemptsMembers (p.write r) (p.error? r) [(p.key, t)] := by
  obtain ⟨key, value⟩ := p
  obtain ⟨key', value'⟩ := p'
  obtain ⟨rfl, hvalue⟩ := h
  cases hvalue with
  | none => exact ⟨.leaf .null, rfl, attemptsMembers_member _ (puts_leaf .null)⟩
  | some hmends =>
    obtain ⟨t, ht, hattempts⟩ := hmends.attempts
    exact ⟨t, ht, attemptsMembers_member _ hattempts⟩

/-- The property with every fault in it replaced by a truth value. -/
def mended (r : Registry) (p : Property) : Property := ⟨p.key, p.value.map (PropertyValue.mended r)⟩

theorem mends_mended (r : Registry) (p : Property) : Mends r p (p.mended r) := by
  obtain ⟨key, value⟩ := p
  refine ⟨rfl, ?_⟩
  cases value with
  | none => exact .none
  | some v => exact .some (v.mends_mended r)

end Property

/-- The map with each property replaced under its identifier. -/
def PropertyMap.mapProperties (f : Property → Property) (m : PropertyMap) : PropertyMap where
  entries := m.entries.map fun entry => (entry.1, f entry.2)
  index := m.index
  indexes id place := by
    rw [m.indexes id place, Array.getElem?_map, Option.map_map]
    rfl

theorem PropertyMap.values_mapProperties (f : Property → Property) (m : PropertyMap) :
    (m.mapProperties f).values = m.values.map f := by
  simp [mapProperties, values]

/-! ### Elements -/

namespace Element

/-- The element with other properties. -/
def setProperties (element : Element) (m : PropertyMap) : Element :=
  match element with
  | vertex v => vertex { v with properties := m }
  | edge e => edge { e with properties := m }

/-- The error of the first property of an element that cannot be written. -/
def errorOf? (r : Registry) (element : Element) (ps : List Property) : Option EncodeError :=
  ps.findSome? fun p => (p.error? r).map (.property p.key p.displayValue element.display)

theorem errorOf?_cons (r : Registry) (element : Element) (p : Property) (ps : List Property) :
    element.errorOf? r (p :: ps) =
      ((p.error? r).map (.property p.key p.displayValue element.display)).or (element.errorOf? r ps) := by
  rw [errorOf?, List.findSome?_cons]
  cases (p.error? r).map (EncodeError.property p.key p.displayValue element.display) <;> rfl

theorem attempts_writeEach {r : Registry} (element : Element) {ps ps' : List Property}
    (h : List.Forall₂ (Property.Mends r) ps ps') :
    ∃ members, Property.members? r ps' = some members ∧
      AttemptsMembers (element.writeEach r ps) (element.errorOf? r ps) members := by
  induction h with
  | nil => exact ⟨[], rfl, addsMembers_nil⟩
  | @cons p p' ps ps' head _ ih =>
    obtain ⟨t, ht, hhead⟩ := head.attempts
    obtain ⟨members, hmembers, htail⟩ := ih
    have hproperty : AttemptsMembers (element.writeProperty r p) _ [(p.key, t)] := fun w s n =>
      (hhead w s n).adaptExcept (.property p.key p.displayValue element.display)
    refine ⟨(p.key, t) :: members, by rw [Property.members?, ht, hmembers, head.key]; rfl, ?_⟩
    rw [errorOf?_cons]
    exact hproperty.append htail

/-- Writing an element breaks off at the first fault in its properties. -/
theorem attempts_write {r : Registry} (element : Element) {m : PropertyMap}
    (h : List.Forall₂ (Property.Mends r) element.properties.values m.values) :
    ∃ t, (element.setProperties m).tree? r = some t ∧
      Attempts (element.write r) (element.errorOf? r element.properties.values) t := by
  obtain ⟨members, hmembers, heach⟩ := attempts_writeEach element h
  obtain ⟨first, hfirst, hwrite⟩ := exists_write_eq r element
  have hproperties : AttemptsMembers (element.writeProperties r) _ [("properties", .object members)] :=
    attemptsMembers_member "properties" heach.attempts_object
  have hobject := ((attemptsMembers_of_adds hfirst).append hproperties).attempts_object
  rw [← hwrite, List.append_assoc, Option.none_or] at hobject
  refine ⟨_, ?_, hobject⟩
  cases element <;> (rw [tree?, show (setProperties _ m).properties = m from rfl, hmembers]; rfl)

theorem exists_mended (r : Registry) (m : PropertyMap) :
    ∃ m' : PropertyMap, List.Forall₂ (Property.Mends r) m.values m'.values := by
  refine ⟨m.mapProperties (Property.mended r), ?_⟩
  rw [PropertyMap.values_mapProperties, List.forall₂_map_right_iff]
  exact List.forall₂_same.2 fun p _ => p.mends_mended r

/-- An element cannot be written exactly if there is a fault in its properties, and then for the first one. -/
theorem toText_eq_error_iff {r : Registry} {element : Element} {e : EncodeError} :
    r.toText element = .error e ↔ element.errorOf? r element.properties.values = some e := by
  obtain ⟨m, hm⟩ := exists_mended r element.properties
  obtain ⟨t, -, hattempts⟩ := element.attempts_write hm
  exact Registry.toText_eq_error_iff_of_attempts hattempts

/-- The error of an element names the first property with a fault and is caused by the first fault in it. -/
theorem errorOf?_eq_some_iff {r : Registry} {element : Element} {properties : List Property} {e : EncodeError} :
    element.errorOf? r properties = some e ↔
      ∃ before p after sound leaf later source,
        properties = before ++ p :: after ∧ p.leaves = sound ++ leaf :: later ∧
        (∀ q ∈ before, ∀ x ∈ q.leaves, x.fault? r = none) ∧ (∀ x ∈ sound, x.fault? r = none) ∧
        leaf.fault? r = some source ∧ e = .property p.key p.displayValue element.display source := by
  rw [errorOf?, List.findSome?_eq_some_iff]
  constructor
  · rintro ⟨before, p, after, hvalues, hp, hbefore⟩
    obtain ⟨source, hsource, rfl⟩ := Option.map_eq_some_iff.1 hp
    obtain ⟨sound, leaf, later, hleaves, hleaf, hsound⟩ := List.findSome?_eq_some_iff.1 hsource
    refine ⟨before, p, after, sound, leaf, later, source, hvalues, hleaves, fun q hq => ?_, hsound, hleaf, rfl⟩
    exact List.findSome?_eq_none_iff.1 (Option.map_eq_none_iff.1 (hbefore q hq))
  · rintro ⟨before, p, after, sound, leaf, later, source, hvalues, hleaves, hbefore, hsound, hleaf, rfl⟩
    have hsource : p.error? r = some source :=
      List.findSome?_eq_some_iff.2 ⟨sound, leaf, later, hleaves, hleaf, hsound⟩
    refine ⟨before, p, after, hvalues, by rw [hsource]; rfl, fun q hq => ?_⟩
    exact Option.map_eq_none_iff.2 (List.findSome?_eq_none_iff.2 (hbefore q hq))

/-- What is written before an error is the beginning of the text of any element that has the faults replaced. -/
theorem exists_text_of_write_error {r : Registry} {element : Element} {e : EncodeError} {last : JsonWriter}
    (hrun : (element.write r).run {} = .error e last) {m : PropertyMap}
    (hm : List.Forall₂ (Property.Mends r) element.properties.values m.values) :
    last.isComplete = false ∧ ∃ more, more ≠ "" ∧ r.toText (element.setProperties m) = .ok (last.buffer ++ more) := by
  obtain ⟨t, ht, hattempts⟩ := element.attempts_write hm
  have hreaches := hattempts {} rfl
  have herror : r.toText element = .error e := by
    rw [Registry.toText, show (encode r element : Write Unit) {} = .error e last from hrun]
  rw [toText_eq_error_iff.1 herror] at hreaches
  obtain ⟨last', more, hrun', hopen, hmore, hbuffer⟩ := hreaches
  obtain ⟨-, rfl⟩ := EStateM.Result.error.inj (hrun.symm.trans hrun')
  have htext : last.buffer ++ more = String.ofList t.compact := by simpa [withValue, separator] using hbuffer.symm
  exact ⟨hopen, more, hmore, Registry.toText_element_eq_ok_iff.2 ⟨t, ht, htext⟩⟩

/-- **Elements that cannot be written.**  An element cannot be written if and only if a value in one of its properties,
at any depth of lists, has no written form.  The error tells the first property with such a value and the first such
value in it.  What a writer holds when it breaks off is not complete, and is a proper beginning of the text of every
element in which that value and the later ones without a written form are replaced by values that have one. -/
theorem toText_error (r : Registry) (element : Element) :
    ((∃ e, r.toText element = .error e) ↔
      ∃ p ∈ element.properties.values, ∃ leaf ∈ p.leaves, (leaf.fault? r).isSome) ∧
    (∀ e, r.toText element = .error e ↔
      ∃ before p after sound leaf later source,
        element.properties.values = before ++ p :: after ∧ p.leaves = sound ++ leaf :: later ∧
        (∀ q ∈ before, ∀ x ∈ q.leaves, x.fault? r = none) ∧ (∀ x ∈ sound, x.fault? r = none) ∧
        leaf.fault? r = some source ∧ e = .property p.key p.displayValue element.display source) ∧
    ∀ e last, (element.write r).run {} = .error e last →
      r.toText element = .error e ∧ last.isComplete = false ∧
      ∀ m : PropertyMap, List.Forall₂ (Property.Mends r) element.properties.values m.values →
        ∃ more, more ≠ "" ∧ r.toText (element.setProperties m) = .ok (last.buffer ++ more) := by
  have hfails : (∃ e, r.toText element = .error e) ↔ ∃ p ∈ element.properties.values, (p.error? r).isSome := by
    simp only [toText_eq_error_iff, ← Option.isSome_iff_exists, errorOf?, List.findSome?_isSome_iff, Option.isSome_map]
  refine ⟨?_, fun e => toText_eq_error_iff.trans errorOf?_eq_some_iff, fun e last hrun => ?_⟩
  · simp only [hfails, Property.error?, List.findSome?_isSome_iff]
  · have herror : r.toText element = .error e := by
      rw [Registry.toText, show (encode r element : Write Unit) {} = .error e last from hrun]
    obtain ⟨m, hm⟩ := exists_mended r element.properties
    exact ⟨herror, (exists_text_of_write_error hrun hm).1, fun _ hm => (exists_text_of_write_error hrun hm).2⟩

end Element

end PropertyGraph
