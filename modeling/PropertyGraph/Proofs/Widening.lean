import PropertyGraph.Proofs.Binary.Nearest
import PropertyGraph.Proofs.PropertyKeys
import PropertyGraph.Proofs.SafeInteger

/-!
# Integer properties through a document

The text of an element says of an integer property which integer it is, but not of which kind.  A document reads it
as a double, and the double is narrowed when the property is looked up with its kind.  An integer of 8 or 32 bits
comes back from this, and so does one of 64 bits up to `2 ^ 53` on either side of zero; any other one comes back as
the double nearest to it, which stops at the ends of the range, and from `2 ^ 53` on a warning is given
(`Registry.propertyAs_of_toText`).  The key facts: looking a property up gives the warning of narrowing it and no
other (`ElementDoc.run_propertyAs`), and a document has each property under its key
(`Registry.exists_document_lookup`).
-/

namespace PropertyGraph

open BinaryFormat Json Json.Reader

/-! ### Looking up with a kind -/

namespace ElementDoc

/-- A property is looked up with a kind as what it is narrowed to, after the warning of a double that may have lost
digits. -/
theorem run_propertyAs (doc : ElementDoc) (key : String) (kind : NumberKind) (log : List Warning) :
    (doc.propertyAs key kind).run log = (.ok (doc.propertyAs? key kind),
      log ++ (((doc.property? key).bind (·.doubtful? kind)).map (Warning.mk kind)).toList) := by
  unfold propertyAs propertyAs?
  cases doc.property? key with
  | none =>
    rw [Option.bind_none, Option.map_none, Option.map_none, Option.toList_none, List.append_nil]
    rfl
  | some v =>
    rw [Option.bind_some, Option.map_some]
    show (some <$> Shape.narrow .warn v kind).run log = _
    unfold Shape.narrow
    cases v.doubtful? kind with
    | none =>
      rw [Option.map_none, Option.toList_none, List.append_nil]
      rfl
    | some x => rfl

variable {doc : ElementDoc} {key : String}

theorem property?_of_lookup_ofInt64 {n : Int64} (h : doc.properties.lookup key = some (.ofInt64 n)) :
    doc.property? key = some (.float64 (.ofInt n.toInt)) := by
  rw [property?, h]
  rfl

theorem propertyAs?_int8 {n : Int8} (h : doc.properties.lookup key = some (.ofInt64 (.ofInt n.toInt))) :
    doc.propertyAs? key .int8 = some (.int8 n) := by
  rw [propertyAs?, property?_of_lookup_ofInt64 h, Option.map_some, PropertyValue.toInt_wide8,
    PropertyValue.narrow_ofInt8]

theorem propertyAs?_int32 {n : Int32} (h : doc.properties.lookup key = some (.ofInt64 (.ofInt n.toInt))) :
    doc.propertyAs? key .int32 = some (.int32 n) := by
  rw [propertyAs?, property?_of_lookup_ofInt64 h, Option.map_some, PropertyValue.toInt_wide32,
    PropertyValue.narrow_ofInt32]

theorem propertyAs?_int64 {n : Int64} (h : doc.properties.lookup key = some (.ofInt64 n))
    (hn : n.toInt.natAbs ≤ 2 ^ 53) : doc.propertyAs? key .int64 = some (.int64 n) := by
  rw [propertyAs?, property?_of_lookup_ofInt64 h, Option.map_some, PropertyValue.narrow_ofInt64 hn]

/-- An integer of 64 bits is looked up as the double nearest to it, with a warning from `2 ^ 53` on. -/
theorem run_propertyAs_int64 {n : Int64} (h : doc.properties.lookup key = some (.ofInt64 n)) :
    ∃ (x : Finite64) (m : Int) (result : Int64), x.IsNearest n.toInt ∧ x.signed = m * binary64.one ∧
      result.toInt = max (-2 ^ 63) (min (2 ^ 63 - 1) m) ∧
      (doc.propertyAs key .int64).run [] = (.ok (some (.int64 result)),
        if 2 ^ 53 ≤ n.toInt.natAbs then [⟨.int64, .finite x⟩] else []) := by
  obtain ⟨x, hx⟩ : ∃ x : Finite64, (Binary.ofInt n.toInt : Binary64) = .finite x :=
    Number.exists_toBinary (.integer n.toInt ⟨n.le_toInt, Int.lt_trans n.toInt_lt (by decide)⟩)
  obtain ⟨m, hm⟩ := Binary.exists_signed_ofInt hx
  have htruncated : x.truncated = m := Finite.truncated_of_signed hm
  have hproperty := property?_of_lookup_ofInt64 h
  rw [hx] at hproperty
  refine ⟨x, m, .ofInt (max (-2 ^ 63) (min (2 ^ 63 - 1) m)), Binary.isNearest_ofInt (by decide) hx, hm, ?_, ?_⟩
  · exact Int64.toInt_ofInt_of_le (by omega) (by omega)
  · have hexceeds := Binary.exceeds_ofInt_iff n.toInt
    have hbound : maxSafeInteger < n.toInt.natAbs ↔ 2 ^ 53 ≤ n.toInt.natAbs := Iff.rfl
    rw [hx, hbound] at hexceeds
    have hnarrow : (PropertyValue.float64 (.finite x)).narrow .int64 =
        .int64 (.ofInt (max (-2 ^ 63) (min (2 ^ 63 - 1) m))) := by
      rw [← htruncated]
      rfl
    rw [run_propertyAs, propertyAs?, hproperty, Option.map_some, hnarrow, Option.bind_some,
      PropertyValue.doubtful?_float64]
    by_cases hlarge : 2 ^ 53 ≤ n.toInt.natAbs
    · rw [if_pos hlarge, if_pos (hexceeds.2 hlarge)]
      rfl
    · rw [if_neg hlarge, if_neg (mt hexceeds.1 hlarge)]
      rfl

end ElementDoc

/-! ### From the element to the document -/

namespace Registry

variable {r : Registry} {element : Element} {text : String}

/-- A document has each property of an element under its key, if no two of them share a key. -/
theorem exists_document_lookup (hkeys : (element.properties.values.map Property.key).Nodup)
    (htext : r.toText element = .ok text) (hlength : text.utf8ByteSize ≤ r.maxTextLength)
    (hnesting : nesting text.toList ≤ maxDepth) :
    ∃ doc, r.fromText Target.document text = .ok doc ∧
      ∀ p ∈ element.properties.values, doc.properties.lookup p.key = some (p.raw r) := by
  obtain ⟨t, ht, rfl⟩ := toText_element_eq_ok_iff.1 htext
  rw [String.toList_ofList, t.spells_compact.balanced.nesting_eq] at hnesting
  have hnames : ((element.doc r).properties.map Prod.fst).Nodup := by
    rw [element.keys_doc r]
    exact hkeys
  refine ⟨_, fromText_document ht hlength hnesting, fun p hp => ?_⟩
  show (ofMembers (element.doc r).properties).lookup p.key = _
  rw [ofMembers_eq_self hnames]
  have hmember : (p.key, p.raw r) ∈ (element.doc r).properties :=
    List.mem_map_of_mem (f := fun p : Property => (p.key, p.raw r)) hp
  exact lookup_of_mem hnames hmember

/-- **Integer properties survive a document.**  If no two properties of an element share a key and its text is within
the limits, the text is read as a document in which an integer of 8 or 32 bits is found again under its key when it
is looked up with its kind, and so is one of 64 bits up to `2 ^ 53` on either side of zero.  Every integer of 64 bits
is looked up as the double nearest to it, of two the even one, cut at the ends of the range; a warning is given for
it if and only if it is `2 ^ 53` or more on either side of zero. -/
theorem propertyAs_of_toText (hkeys : (element.properties.values.map Property.key).Nodup)
    (htext : r.toText element = .ok text) (hlength : text.utf8ByteSize ≤ r.maxTextLength)
    (hnesting : nesting text.toList ≤ maxDepth) :
    ∃ doc, r.fromText Target.document text = .ok doc ∧ ∀ p ∈ element.properties.values,
      (∀ n, p.value = some (.int8 n) → doc.propertyAs? p.key .int8 = p.value) ∧
      (∀ n, p.value = some (.int32 n) → doc.propertyAs? p.key .int32 = p.value) ∧
      ∀ n, p.value = some (.int64 n) →
        (n.toInt.natAbs ≤ 2 ^ 53 → doc.propertyAs? p.key .int64 = p.value) ∧
        ∃ (x : Finite64) (m : Int) (result : Int64), x.IsNearest n.toInt ∧ x.signed = m * binary64.one ∧
          result.toInt = max (-2 ^ 63) (min (2 ^ 63 - 1) m) ∧
          (doc.propertyAs p.key .int64).run [] = (.ok (some (.int64 result)),
            if 2 ^ 53 ≤ n.toInt.natAbs then [⟨.int64, .finite x⟩] else []) := by
  obtain ⟨doc, hdoc, hlookup⟩ := exists_document_lookup hkeys htext hlength hnesting
  refine ⟨doc, hdoc, fun p hp => ?_⟩
  have hfound := hlookup p hp
  refine ⟨fun n hn => ?_, fun n hn => ?_, fun n hn => ?_⟩
  · rw [Property.raw, hn] at hfound
    rw [hn]
    exact ElementDoc.propertyAs?_int8 hfound
  · rw [Property.raw, hn] at hfound
    rw [hn]
    exact ElementDoc.propertyAs?_int32 hfound
  · rw [Property.raw, hn] at hfound
    rw [hn]
    exact ⟨ElementDoc.propertyAs?_int64 hfound, ElementDoc.run_propertyAs_int64 hfound⟩

/-- A vertex with a small integer and with the first one that is no double. -/
def countedVertex : Element :=
  .vertex ⟨.numeric 1, "n",
    .ofList [(.numeric 7, ⟨"small", some (.int8 (-7))⟩), (.numeric 8, ⟨"large", some (.int64 9007199254740993)⟩)]⟩

/-- The theorem on this vertex. -/
theorem propertyAs_countedVertex :
    ∃ text doc result warning, default.toText countedVertex = .ok text ∧
      default.fromText Target.document text = .ok doc ∧ doc.propertyAs? "small" .int8 = some (.int8 (-7)) ∧
      (doc.propertyAs "large" .int64).run [] = (.ok (some (.int64 result)), [warning]) := by
  have hvalues : countedVertex.properties.values =
      [⟨"small", some (.int8 (-7))⟩, ⟨"large", some (.int64 9007199254740993)⟩] := values_ofList _
  have htree : countedVertex.tree? default = some (.object [("id", .leaf (.int64 1)), ("label", .leaf (.string "n")),
      ("type", .leaf (.string "vertex")),
      ("properties", .object [("small", .leaf (.int64 (-7))), ("large", .leaf (.int64 9007199254740993))])]) := by
    rw [Element.tree?, hvalues]
    rfl
  have htext := toText_element_eq_ok_iff.2 ⟨_, htree, rfl⟩
  obtain ⟨doc, hdoc, heach⟩ := propertyAs_of_toText (by rw [hvalues]; decide) htext (by decide +kernel) (by
    rw [String.toList_ofList, (JsonTree.spells_compact _).balanced.nesting_eq]
    decide +kernel)
  rw [hvalues] at heach
  obtain ⟨hsmall, -, -⟩ := heach ⟨"small", some (.int8 (-7))⟩ (by simp)
  obtain ⟨-, -, hlarge⟩ := heach ⟨"large", some (.int64 9007199254740993)⟩ (by simp)
  obtain ⟨-, x, m, result, -, -, -, hrun⟩ := hlarge 9007199254740993 rfl
  exact ⟨_, doc, result, _, htext, hdoc, hsmall (-7) rfl, hrun⟩

end Registry

end PropertyGraph
