import PropertyGraph.Proofs.Faults
import PropertyGraph.Proofs.Layout

/-!
# What a registry's settings reach

A registry says how the timestamps and the identifiers inside property values are written, and nothing else of a text
depends on it.  So two registries that agree on what stands in a value write it alike (`PropertyValue.write_eq`), and
the texts of an element under any two registries go together up to its properties and part only in the values that
hold something the registries write apart (`Registry.toText_settings`).
-/

namespace PropertyGraph

open JsonWriter

/-! ### Registries that agree -/

/-- Two registries that have the same setting for each sort of values that stands among some. -/
structure Registry.AgreeOn (r s : Registry) (leaves : List PropertyValue) : Prop where
  timestamps : ∀ t, .timestamp t ∈ leaves → r.timestamps = s.timestamps
  identifiers : ∀ i, .id i ∈ leaves → r.identifiers = s.identifiers

variable {r s : Registry}

theorem Registry.AgreeOn.mono {leaves others : List PropertyValue} (h : r.AgreeOn s leaves) (hsubset : others ⊆ leaves) :
    r.AgreeOn s others :=
  ⟨fun t ht => h.timestamps t (hsubset ht), fun i hi => h.identifiers i (hsubset hi)⟩

namespace PropertyValue

mutual

/-- Registries that agree on what stands in a value write the value alike. -/
theorem write_eq {v : PropertyValue} (h : r.AgreeOn s v.leaves) : v.write r = v.write s := by
  cases v with
  | timestamp t => rw [write, write, h.timestamps t (by simp [leaves])]
  | id i => rw [write, write, h.identifiers i (by simp [leaves])]
  | list items => rw [write, write, writeItems_eq h]
  | _ => rfl

theorem writeItems_eq {items : List PropertyValue} (h : r.AgreeOn s (leavesOf items)) :
    writeItems r items = writeItems s items := by
  cases items with
  | nil => rfl
  | cons v vs =>
    have hfirst : r.AgreeOn s v.leaves := h.mono (by simp [leavesOf])
    have hrest : r.AgreeOn s (leavesOf vs) := h.mono (by simp [leavesOf])
    rw [writeItems, writeItems, write_eq hfirst, writeItems_eq hrest]

end

theorem toText_eq {v : PropertyValue} (h : r.AgreeOn s v.leaves) : r.toText v = s.toText v := by
  have hwrite : (encode r v : Write Unit) = encode s v := write_eq h
  rw [Registry.toText, Registry.toText, hwrite]

end PropertyValue

namespace Property

/-- Whether a timestamp stands in a property, at any depth of lists. -/
def HasTimestamp (p : Property) : Prop := ∃ t, .timestamp t ∈ p.leaves

/-- Whether an identifier stands in a property, at any depth of lists. -/
def HasIdentifier (p : Property) : Prop := ∃ i, .id i ∈ p.leaves

theorem agreeOn_leaves {p : Property} (htimestamps : r.timestamps ≠ s.timestamps → ¬p.HasTimestamp)
    (hidentifiers : r.identifiers ≠ s.identifiers → ¬p.HasIdentifier) : r.AgreeOn s p.leaves where
  timestamps t ht := by
    by_contra hformat
    exact htimestamps hformat ⟨t, ht⟩
  identifiers i hi := by
    by_contra hformat
    exact hidentifiers hformat ⟨i, hi⟩

theorem write_eq {p : Property} (h : r.AgreeOn s p.leaves) : p.write r = p.write s := by
  obtain ⟨key, value⟩ := p
  cases value with
  | none => rfl
  | some v =>
    simp only [write]
    rw [PropertyValue.write_eq h]

theorem text_eq {p : Property} (h : r.AgreeOn s p.leaves) : p.text r = p.text s := by
  obtain ⟨key, value⟩ := p
  cases value with
  | none => rfl
  | some v => exact PropertyValue.toText_eq h

end Property

namespace Element

theorem writeEach_eq (element : Element) {ps : List Property} (h : ∀ p ∈ ps, r.AgreeOn s p.leaves) :
    element.writeEach r ps = element.writeEach s ps := by
  induction ps with
  | nil => rfl
  | cons p ps ih =>
    rw [List.forall_mem_cons] at h
    simp only [writeEach, writeProperty]
    rw [Property.write_eq h.1, ih h.2]

theorem write_eq {element : Element} (h : ∀ p ∈ element.properties.values, r.AgreeOn s p.leaves) :
    element.write r = element.write s := by
  simp only [write, writeProperties]
  rw [element.writeEach_eq h]

theorem toText_eq {element : Element} (h : ∀ p ∈ element.properties.values, r.AgreeOn s p.leaves) :
    r.toText element = s.toText element := by
  have hwrite : (encode r element : Write Unit) = encode s element := write_eq h
  rw [Registry.toText, Registry.toText, hwrite]

end Element

/-! ### Where texts part -/

/-- The text of an element up to its properties, with the brace that opens them. -/
def Element.opening (element : Element) : String :=
  "\x7b" ++ String.join (element.headTexts.map fun m => stringText m.1 ++ ":" ++ m.2 ++ ",") ++
    stringText "properties" ++ ":\x7b"

/-- The properties of a map as members, in its order, with given texts as values. -/
def PropertyMap.memberList (m : PropertyMap) (texts : List String) : String :=
  String.intercalate "," (((m.values.map (·.key)).zip texts).map fun m => stringText m.1 ++ ":" ++ m.2)

private theorem intercalate_concat (texts : List String) (last : String) :
    String.intercalate "," (texts ++ [last]) = String.join (texts.map (· ++ ",")) ++ last := by
  apply String.toList_injective
  induction texts with
  | nil => simp
  | cons text texts ih =>
    have hnext : texts ++ [last] ≠ [] := by simp
    obtain ⟨next, rest, hrest⟩ := List.exists_cons_of_ne_nil hnext
    rw [List.cons_append, hrest, String.intercalate_cons_cons, ← hrest]
    simp [ih]

/-- What is written behind the opening of the properties is their members and the two closing braces. -/
theorem Element.objectText_eq (element : Element) (texts : List String) :
    objectText (element.headTexts ++ [("properties", element.properties.membersText texts)]) =
      element.opening ++ element.properties.memberList texts ++ "\x7d\x7d" := by
  rw [objectText, List.map_append, List.map_singleton, intercalate_concat, PropertyMap.membersText, objectText,
    List.map_map]
  apply String.toList_injective
  simp [opening, PropertyMap.memberList, Function.comp_def]

private theorem forall₂_of_mapM {α β ε : Type} {f : α → Except ε β} {xs : List α} {ys : List β}
    (h : xs.mapM f = .ok ys) : List.Forall₂ (fun x y => f x = .ok y) xs ys := by
  induction xs generalizing ys with
  | nil =>
    obtain rfl := Except.ok.inj h
    exact .nil
  | cons x xs ih =>
    rw [List.mapM_cons] at h
    cases hx : f x with
    | error e => simp [hx, bind, Except.bind] at h
    | ok y =>
      cases hxs : xs.mapM f with
      | error e => simp [hx, hxs, bind, Except.bind] at h
      | ok rest =>
        simp only [hx, hxs, bind, Except.bind, pure, Except.pure, Except.ok.injEq] at h
        subst h
        exact .cons hx (ih hxs)

/-- The text of an element is its opening and the members that hold the texts of its properties. -/
theorem Element.exists_memberList {element : Element} {text : String} (h : r.toText element = .ok text) :
    ∃ texts, text = element.opening ++ element.properties.memberList texts ++ "\x7d\x7d" ∧
      List.Forall₂ (fun p text => p.text r = .ok text) element.properties.values texts := by
  obtain ⟨texts, htexts, rfl⟩ := (Registry.toText_element_eq_ok_iff_members element).1 h
  exact ⟨texts, element.objectText_eq texts, forall₂_of_mapM htexts⟩

/-- **A setting reaches only what it is for.**  An element has the same text, or the same error, under two registries
if no timestamp stands in its properties unless the registries write timestamps alike, and no identifier unless they
write identifiers alike; the policy on lost digits and the longest text that is read do not matter.  Any two texts of an
element are the same up to its properties, with the brace that opens them, and have the same keys in the same order.
The value under a key is written apart only if it holds a timestamp and the registries write these apart, or an
identifier and they write those apart. -/
theorem Registry.toText_settings (element : Element) :
    (∀ r s : Registry, (r.timestamps ≠ s.timestamps → ∀ p ∈ element.properties.values, ¬p.HasTimestamp) →
      (r.identifiers ≠ s.identifiers → ∀ p ∈ element.properties.values, ¬p.HasIdentifier) →
        r.toText element = s.toText element) ∧
    ∀ (r s : Registry) (text text' : String), r.toText element = .ok text → s.toText element = .ok text' →
      ∃ texts texts',
        text = element.opening ++ element.properties.memberList texts ++ "\x7d\x7d" ∧
        text' = element.opening ++ element.properties.memberList texts' ++ "\x7d\x7d" ∧
        List.Forall₂ (fun p text => p.text r = .ok text) element.properties.values texts ∧
        List.Forall₂ (fun p text => p.text s = .ok text) element.properties.values texts' ∧
        ∀ p ∈ element.properties.values, p.text r ≠ p.text s →
          (r.timestamps ≠ s.timestamps ∧ p.HasTimestamp) ∨ (r.identifiers ≠ s.identifiers ∧ p.HasIdentifier) := by
  refine ⟨fun r s htimestamps hidentifiers => ?_, fun r s text text' htext htext' => ?_⟩
  · refine Element.toText_eq fun p hp => ?_
    exact Property.agreeOn_leaves (fun hformat => htimestamps hformat p hp) fun hformat => hidentifiers hformat p hp
  · obtain ⟨texts, htexts, heach⟩ := Element.exists_memberList htext
    obtain ⟨texts', htexts', heach'⟩ := Element.exists_memberList htext'
    refine ⟨texts, texts', htexts, htexts', heach, heach', fun p _ happart => ?_⟩
    -- registries that agree on what stands in the value would write it alike
    by_contra halike
    rw [not_or, not_and, not_and] at halike
    exact happart (Property.text_eq (Property.agreeOn_leaves halike.1 halike.2))

end PropertyGraph
