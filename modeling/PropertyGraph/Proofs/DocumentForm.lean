import PropertyGraph.Proofs.ElementDoc

/-!
# Forms of documents

What a text can look like that a document is read from.  The shape that documents are given, an object with the name
of the kind as its type and with no endpoint member or all four, is not the only one that is accepted: a null endpoint
member counts as absent, the type may be an object with the name as its only key, and the members may stand in a list
in their order.  The key facts: there are no other forms (`Registry.fromText_document_accepts`), and which of them
have the shape of a document (`ElementKind.Accepts.shapes_iff`).
-/

namespace PropertyGraph

open Json Json.Reader

/-! ### Types of elements -/

/-- The name that a value has as a type of elements: a text, or the only key of an object with the null value. -/
def Json.typeName? : Json → Option String
  | .string name => some name
  | .object [(name, .null)] => some name
  | _ => none

theorem Json.typeName?_eq_string? {v : Json} (hobject : ∀ ms, v ≠ .object ms) : v.typeName? = v.string? := by
  cases v with
  | object ms => exact absurd rfl (hobject ms)
  | _ => rfl

namespace Json.Reader

variable {s t rest : List Char} {depth : Nat}

theorem exists_of_elementKindName {kind : ElementKind} (h : elementKindName.run s = .ok kind t) :
    ∃ u, s.dropWhile isJsonBlank = '"' :: u ∧ stringBody.run u = .ok kind.name t := by
  unfold elementKindName at h
  obtain ⟨found, behind, hlead, h⟩ := exists_of_bind h
  have hleads := leads_of_run hlead
  split at h
  · split at h
    · rename_i hkind
      cases h
      rw [← ElementKind.eq_name_of_ofName? hkind]
      generalize s.dropWhile isJsonBlank = start at hleads ⊢
      cases hleads with
      | word hword => cases hword
      | string hbody => exact ⟨_, rfl, hbody⟩
    · cases h
  · cases h

theorem run_lead_of_unit (h : unit.run s = .ok () t) : lead.run s = .ok (.scalar .null) t := by
  unfold unit at h
  obtain ⟨found, behind, hlead, h⟩ := exists_of_bind h
  split at h
  · cases h
    exact hlead
  · cases h

/-- What a kind of elements is read from, as a member, is the only member of the object. -/
private theorem written_of_elementKindMember {kind : ElementKind} {room : Room} {written : List (String × Json)}
    (h : Written depth room true s written rest) (hrun : elementKindMember.run ('\x7b' :: s) = .ok kind t) :
    written = [(kind.name, .null)] ∧ rest = '\x7d' :: t := by
  unfold elementKindMember at hrun
  rw [run_bind_of_ok (run_advance _), List.tail_cons] at hrun
  obtain ⟨named, behindName, hname, hrun⟩ := exists_of_bind hrun
  obtain ⟨_, behindColon, hcolon, hrun⟩ := exists_of_bind hrun
  obtain ⟨_, behindNull, hnull, hrun⟩ := exists_of_bind hrun
  obtain ⟨inner, hquote, hbody⟩ := exists_of_elementKindName hname
  rw [run_bind_of_ok (run_peekToken _)] at hrun
  split at hrun
  · rename_i hbrace
    obtain ⟨u, hu⟩ := List.head?_eq_some_iff.1 hbrace
    rw [hu] at hrun
    cases hrun
    cases h with
    | close hmore =>
      have hhas := hasMember_of_run hmore
      rw [hquote] at hhas
      cases hhas
    | member hmore hkey hcolon' hvalue htail =>
      have hhas := hasMember_of_run hmore
      rw [hquote] at hhas
      cases hhas
      cases hbody.symm.trans hkey
      cases hcolon.symm.trans hcolon'
      cases (run_value_scalar (run_lead_of_unit hnull)).symm.trans hvalue
      cases htail with
      | close hmore =>
        have hhas := hasMember_of_run hmore
        rw [hu] at hhas
        cases hhas
        exact ⟨rfl, rfl⟩
      | member hmore =>
        have hhas := hasMember_of_run hmore
        rw [hu] at hhas
        cases hhas
  · cases hrun
  · cases hrun

/-- A kind of elements is read from the values that name one. -/
theorem givesOnly_elementKind {v : Json} (h : (value depth).run s = .ok v rest) :
    GivesOnly (elementKind depth) s (v.typeName?.bind ElementKind.ofName?) rest := by
  by_cases hobject : ∃ ms, v = .object ms
  · obtain ⟨ms, rfl⟩ := hobject
    intro kind t hrun
    obtain ⟨found, u, hlead, hleads, hreads⟩ := readsAs_of_run h
    cases hreads with
    | scalar => exact nomatch hleads.members?_eq_none
    | @object depth inner behind _ _ hmembers hclose =>
      unfold elementKind at hrun
      rw [run_bind_of_ok (run_peekToken _), hleads.eq_of_object] at hrun
      obtain ⟨written, rfl, hwritten⟩ := exists_written hmembers
      obtain ⟨rfl, rfl⟩ := written_of_elementKindMember hwritten hrun
      cases (show endObject.run ('\x7d' :: t) = .ok () t from rfl).symm.trans hclose
      exact ⟨ElementKind.ofName?_name kind, rfl⟩
  · rw [Json.typeName?_eq_string? fun ms hms => hobject ⟨ms, hms⟩]
    exact (gives_elementKind h fun ms hms => hobject ⟨ms, hms⟩).only

end Json.Reader

/-! ### Members of a draft, whatever their form -/

namespace Json

/-- A type of elements as the name that it gives, any other value as it is. -/
def plainType (v : Json) : Json := (v.typeName?.map .string).getD v

theorem string?_plainType (v : Json) : v.plainType.string? = v.typeName? := by
  unfold plainType
  cases h : v.typeName? with
  | some name => rfl
  | none =>
    cases v with
    | string s => exact nomatch h
    | _ => rfl

theorem typeName?_of_plainType {v : Json} {name : String} (h : v.plainType = .string name) :
    v.typeName? = some name := by
  rw [← string?_plainType, h]
  rfl

end Json

namespace ElementDraft

/-- A member with a plain type, if it is the one with the type. -/
def plainMember (m : String × Json) : String × Json := (m.1, if m.1 = "type" then m.2.plainType else m.2)

/-- The draft after a member, the type of which may be an object. -/
def takePlain (d : ElementDraft) (m : String × Json) : Option ElementDraft := d.take (plainMember m)

theorem takesOnly (depth : Nat) : TakesOnly depth record.fields takePlain := by
  intro field hfield v s rest hvalue d
  have hbehind := (run_value_dropWhile depth s).trans hvalue
  simp only [record, List.mem_cons, List.not_mem_nil, or_false] at hfield
  rcases hfield with rfl | rfl | rfl | rfl | rfl | rfl | rfl | rfl
  · exact ((gives_of_ok hvalue).bind fun _ _ => gives_of_ok rfl).only
  · exact ((gives_string hvalue).bind fun _ _ => gives_of_ok rfl).only
  · show GivesOnly _ s (((v.plainType).string?.bind ElementKind.ofName?).bind _) rest
    rw [string?_plainType]
    exact (givesOnly_elementKind hvalue).bind fun _ => (gives_of_ok rfl).only
  · exact ((gives_optional hvalue (gives_of_ok hbehind)).bind fun _ _ => gives_of_ok rfl).only
  · exact ((gives_optional hvalue (gives_string hbehind)).bind fun _ _ => gives_of_ok rfl).only
  · exact ((gives_optional hvalue (gives_of_ok hbehind)).bind fun _ _ => gives_of_ok rfl).only
  · exact ((gives_optional hvalue (gives_string hbehind)).bind fun _ _ => gives_of_ok rfl).only
  · exact ((gives_object hvalue).bind fun _ _ => gives_of_ok rfl).only

theorem lookup_map_plainMember (name : String) (ms : List (String × Json)) :
    (ms.map plainMember).lookup name =
      (ms.lookup name).map fun v => if name = "type" then v.plainType else v := by
  induction ms with
  | nil => rfl
  | cons m ms ih =>
    obtain ⟨key, v⟩ := m
    rw [List.map_cons, plainMember, List.lookup_cons, List.lookup_cons, ih]
    by_cases hkey : name = key
    · rw [hkey, beq_self_eq_true]
      rfl
    · rw [beq_false_of_ne hkey]

/-- A member that a draft takes is not taken again. -/
theorem once_of_foldlM {written : List (String × Json)} {d after : ElementDraft}
    (h : written.foldlM (takeMember record.fields take) d = some after) {name : String} (hname : name ∈ names) :
    (written.map Prod.fst).count name ≤ if (d.member? name).isSome then 0 else 1 := by
  induction written generalizing d with
  | nil => exact Nat.zero_le _
  | cons m written ih =>
    rw [List.foldlM_cons] at h
    obtain ⟨next, hnext, h⟩ := Option.bind_eq_some_iff.1 h
    have htail := ih h
    rw [List.map_cons]
    by_cases hm : m.1 ∈ names
    · rw [takeMember_of_mem hm] at hnext
      split at hnext
      · cases hnext
      · rename_i hunset
        rw [member?_take hm hnext] at htail
        by_cases heq : name = m.1
        · subst heq
          rw [List.count_cons_self, if_neg hunset]
          exact Nat.succ_le_succ (htail.trans (by simp))
        · rw [if_neg heq] at htail
          rwa [List.count_cons_of_ne (Ne.symm heq)]
    · rw [takeMember_of_not_mem hm] at hnext
      obtain rfl := Option.some.inj hnext
      have hne : m.1 ≠ name := fun heq => hm (heq.symm ▸ hname)
      rwa [List.count_cons_of_ne hne]

/-- A draft holds members: each as the first of its name says, a type as the name that it gives. -/
def Holds (d : ElementDraft) (ms : List (String × Json)) : Prop :=
  ∀ name ∈ names, d.member? name = (ms.lookup name).map fun v => if name = "type" then v.plainType else v

/-- The written members of an object that are taken into a draft are held by it as the object has them. -/
theorem holds_ofMembers {written : List (String × Json)} {d : ElementDraft}
    (h : written.foldlM (takeMember record.fields takePlain) {} = some d) : d.Holds (ofMembers written) := by
  have hplain : (written.map plainMember).foldlM (takeMember record.fields take) {} = some d := by
    rw [List.foldlM_map]
    exact h
  have hnames : (written.map plainMember).map Prod.fst = written.map Prod.fst := List.map_map
  intro name hname
  have honce : (written.map Prod.fst).count name ≤ 1 := by
    rw [← hnames]
    exact (once_of_foldlM hplain hname).trans (by split <;> simp)
  rw [member?_of_foldlM hplain hname (hnames ▸ honce), member?_empty, Option.or_none, lookup_map_plainMember,
    lookup_ofMembers honce]

private theorem map_fst_zip_eq_take {α β : Type} (as : List α) (bs : List β) :
    (as.zip bs).map Prod.fst = as.take bs.length := by
  induction as generalizing bs with
  | nil => rw [List.zip_nil_left, List.map_nil, List.take_nil]
  | cons a as ih =>
    cases bs with
    | nil => rfl
    | cons b bs => rw [List.zip_cons_cons, List.map_cons, ih, List.length_cons, List.take_succ_cons]

/-- The items of a list that are taken into a draft are held by it as the members in whose places they stand. -/
theorem holds_zip {items : List Json} {d : ElementDraft}
    (h : (names.zip items).foldlM takePlain {} = some d) : d.Holds (names.zip items) := by
  have hplain : ((names.zip items).map plainMember).foldlM take {} = some d := by
    rw [List.foldlM_map]
    exact h
  have hnames : ((names.zip items).map plainMember).map Prod.fst = names.take items.length := by
    rw [← map_fst_zip_eq_take names items]
    exact List.map_map
  have hmem (m : String × Json) (hm : m ∈ (names.zip items).map plainMember) : m.1 ∈ names := by
    refine List.mem_of_mem_take (i := items.length) ?_
    rw [← hnames]
    exact List.mem_map_of_mem hm
  intro name hname
  have honce : (((names.zip items).map plainMember).map Prod.fst).count name ≤ 1 := by
    rw [hnames]
    exact List.nodup_iff_count_le_one.1 ((by decide : names.Nodup).sublist (List.take_sublist ..)) name
  rw [member?_of_foldlM_step (fun m hm d next hnext => member?_take (hmem m hm) hnext name) hplain honce, member?_empty,
    Option.or_none, lookup_map_plainMember]

end ElementDraft

/-! ### Forms -/

/-- The type is given as the kind, and the endpoint members are as the kind asks for them if null counts as absent. -/
structure ElementKind.Fits (kind : ElementKind) (ms : List (String × Json)) : Prop where
  type : (ms.lookup "type").bind Json.typeName? = some kind.name
  vertex : kind = .vertex → ∀ (field : EndpointField) (v : Json), ms.lookup field.name = some v → v = .null
  edge : kind = .edge → ∀ field : EndpointField, ∃ v, ms.lookup field.name = some v ∧ v ≠ .null

/-- The values that documents of a kind are read from: an object, or a list with the members in their order, the
properties last and if there are any. -/
inductive ElementKind.Accepts (kind : ElementKind) : Json → Prop
  | object {ms : List (String × Json)} (h : kind.Fits ms) : kind.Accepts (.object ms)
  | array {items : List Json} (hlength : items.length = 7 ∨ items.length = 8)
      (h : kind.Fits (ElementDraft.names.zip items)) : kind.Accepts (.array items)

/-- The shape of a document of a kind: an object with the name of the kind as its type, and with no endpoint member if
it is a vertex and with all four if it is an edge. -/
def ElementKind.Shapes (kind : ElementKind) (g : Json) : Prop :=
  ∃ ms, g = .object ms ∧ ms.lookup "type" = some (.string kind.name) ∧
    (kind = .vertex → ∀ field : EndpointField, ms.lookup field.name = none) ∧
      (kind = .edge → ∀ field : EndpointField, (ms.lookup field.name).isSome)

/-- What a document is read from has the shape of one if it is an object in which the type is no object and no endpoint
member is null. -/
theorem ElementKind.Accepts.shapes_iff {kind : ElementKind} {g : Json} (h : kind.Accepts g) :
    kind.Shapes g ↔ ∃ ms, g = .object ms ∧ (∀ ns, ms.lookup "type" ≠ some (.object ns)) ∧
      ∀ field : EndpointField, ms.lookup field.name ≠ some .null := by
  cases h with
  | array => exact ⟨fun ⟨_, h, _⟩ => (nomatch h), fun ⟨_, h, _⟩ => (nomatch h)⟩
  | @object ms h =>
    constructor
    · rintro ⟨_, hms, htype, hvertex, -⟩
      cases hms
      refine ⟨ms, rfl, fun ns hns => (nomatch htype.symm.trans hns), fun field hnull => ?_⟩
      cases hkind : kind with
      | vertex => exact nomatch (hvertex hkind field).symm.trans hnull
      | edge =>
        obtain ⟨v, hv, hne⟩ := h.edge hkind field
        exact hne (Option.some.inj (hv.symm.trans hnull))
    · rintro ⟨_, hms, hobject, hnull⟩
      cases hms
      refine ⟨ms, rfl, ?_, fun hkind field => ?_, fun hkind field => ?_⟩
      · obtain ⟨v, hv, hname⟩ := Option.bind_eq_some_iff.1 h.type
        rw [Json.typeName?_eq_string? fun ns hns => hobject ns (hns ▸ hv)] at hname
        rw [hv, Json.eq_of_string? hname]
      · cases hfield : ms.lookup field.name with
        | none => rfl
        | some v => exact absurd (h.vertex hkind field v hfield ▸ hfield) (hnull field)
      · obtain ⟨v, hv, -⟩ := h.edge hkind field
        rw [hv]
        rfl

theorem Json.IsIdentifier.ne_null {v : Json} (h : v.IsIdentifier) : v ≠ .null := by
  rintro rfl
  exact h

namespace ElementDraft

variable {d : ElementDraft} {ms : List (String × Json)}

theorem Holds.endpoint (h : d.Holds ms) (field : EndpointField) : d.member? field.name = ms.lookup field.name := by
  rw [h field.name (by cases field <;> simp [names, EndpointField.name])]
  cases field <;> exact Option.map_id'

theorem Holds.isSome_kind (h : d.Holds ms) {v : Json} (hv : ms.lookup "type" = some v) : d.kind.isSome := by
  have htype : d.kind.map (fun kind => Json.string kind.name) = (ms.lookup "type").map Json.plainType :=
    h "type" (by simp [names])
  rw [hv] at htype
  obtain ⟨kind, hkind, -⟩ := Option.map_eq_some_iff.1 htype
  exact Option.isSome_iff_exists.2 ⟨kind, hkind⟩

/-- The last of the fields that have no default is the seventh. -/
theorem seven_le_of_defaulted {n : Nat} (h : ∀ field ∈ record.fields.drop n, field.presence = .defaulted) :
    7 ≤ n := by
  by_contra hless
  have hsub : record.fields.drop 6 ⊆ record.fields.drop n := List.drop_subset_drop_left _ (by omega)
  exact nomatch h _ (hsub List.mem_cons_self)

/-- What counts as absent is null if it is there. -/
private theorem eq_null_of_join {α : Type} {o : Option (Option α)} {f : Option α → Json} {v : Json} (h : o.join = none)
    (hv : o.map f = some v) : v = f none := by
  match o with
  | none => cases hv
  | some none => exact (Option.some.inj hv).symm

private theorem map_of_join {α β : Type} {o : Option (Option α)} {a : α} (h : o.join = some a) (f : Option α → β) :
    o.map f = some (f (some a)) := by
  match o with
  | some (some _) =>
    cases h
    rfl

/-- A document is made only of a draft whose members tell its kind. -/
theorem Holds.fits (h : d.Holds ms) (hkind : d.kind.isSome) {doc : ElementDoc} (hdoc : d.toDoc = .ok doc) :
    doc.kind.Fits ms := by
  obtain ⟨-, hends, hdoc⟩ := toDoc_eq_ok_iff.1 hdoc
  obtain ⟨kind, hkind⟩ := Option.isSome_iff_exists.1 hkind
  rw [hkind, Option.getD_some] at hends hdoc
  rw [congrArg ElementDoc.kind hdoc]
  refine ⟨?_, fun hvertex field v hv => ?_, fun hedge field => ?_⟩
  · have htype : d.kind.map (fun kind => Json.string kind.name) = (ms.lookup "type").map Json.plainType :=
      h "type" (by simp [names])
    rw [hkind] at htype
    obtain ⟨v, hv, hplain⟩ := Option.map_eq_some_iff.1 htype.symm
    rw [hv]
    exact Json.typeName?_of_plainType hplain
  · obtain rfl : kind = .vertex := hvertex
    obtain ⟨-, houtV, houtVLabel, hinV, hinVLabel⟩ := endsOf_vertex_eq_ok_iff.1 hends
    rw [← h.endpoint field] at hv
    cases field with
    | outV => exact eq_null_of_join houtV hv
    | outVLabel => exact eq_null_of_join houtVLabel hv
    | inV => exact eq_null_of_join hinV hv
    | inVLabel => exact eq_null_of_join hinVLabel hv
  · obtain rfl : kind = .edge := hedge
    obtain ⟨ends, -, hends⟩ := endsOf_edge_eq_ok_iff.1 hends
    obtain ⟨houtV, houtVLabel, hinV, hinVLabel, hout, hin⟩ := ends_eq_ok_iff.1 hends
    rw [← h.endpoint field]
    cases field with
    | outV => exact ⟨_, map_of_join houtV _, hout.ne_null⟩
    | outVLabel => exact ⟨_, map_of_join houtVLabel _, Json.IsIdentifier.ne_null trivial⟩
    | inV => exact ⟨_, map_of_join hinV _, hin.ne_null⟩
    | inVLabel => exact ⟨_, map_of_join hinVLabel _, Json.IsIdentifier.ne_null trivial⟩

end ElementDraft

/-! ### Whole texts -/

/-- What is read as a document, and as a value, has one of the forms. -/
theorem ElementDoc.accepts_of_read {depth : Nat} {s t rest : List Char} {g : Json} {doc : ElementDoc}
    (hvalue : (value depth).run s = .ok g rest) (hrun : (ElementDoc.read depth).run s = .ok doc t) :
    doc.kind.Accepts g := by
  unfold ElementDoc.read at hrun
  obtain ⟨d, behind, hrecord, hrun⟩ := exists_of_bind hrun
  have hdoc : d.toDoc = .ok doc := by
    split at hrun
    · rename_i hdoc
      cases hrun
      exact hdoc
    · cases hrun
  obtain ⟨depth, rfl, ⟨items, rfl⟩ | ⟨ms, rfl⟩⟩ := array_or_object_of_record hvalue hrecord
  · obtain ⟨hfold, hmost, hdefaults⟩ := (writtenList_of_run hvalue).takes_record (ElementDraft.takesOnly depth) hrecord
    have hholds := ElementDraft.holds_zip hfold
    have hmost : items.length ≤ 8 := hmost
    have hleast := ElementDraft.seven_le_of_defaulted hdefaults
    have hkind : d.kind.isSome := by
      match items, hleast with
      | _ :: _ :: _ :: _, _ => exact hholds.isSome_kind rfl
    exact .array (by omega) (hholds.fits hkind hdoc)
  · obtain ⟨written, rfl, hobject⟩ := exists_writtenObject hvalue
    obtain ⟨hfold, hcomplete⟩ := hobject.takes_record (ElementDraft.takesOnly depth) hrecord
    rw [ElementDraft.complete_eq] at hcomplete
    split at hcomplete
    · rename_i hset
      exact .object ((ElementDraft.holds_ofMembers hfold).fits (Bool.and_eq_true_iff.1 hset).2 hdoc)
    · cases hcomplete

namespace Registry

/-- **What documents are read from.**  A text that is read as a document, and as a value, holds one of the forms that
are accepted for the kind of the document; and it holds the shape of a document exactly if the value is an object in
which the type is no object and no endpoint member is null. -/
theorem fromText_document_accepts {r : Registry} {text : String} {doc : ElementDoc} {g : Json}
    (hdoc : r.fromText Target.document text = .ok doc) (hvalue : r.fromText Target.value text = .ok g) :
    doc.kind.Accepts g ∧
      (doc.kind.Shapes g ↔ ∃ ms, g = .object ms ∧ (∀ ns, ms.lookup "type" ≠ some (.object ns)) ∧
        ∀ field : EndpointField, ms.lookup field.name ≠ some .null) := by
  obtain ⟨_, hdoc, -⟩ := ofText_eq_ok_iff.1 (fromText_eq_ok_iff.1 hdoc).2
  obtain ⟨_, hvalue, -⟩ := ofText_eq_ok_iff.1 (fromText_eq_ok_iff.1 hvalue).2
  have haccepts := ElementDoc.accepts_of_read hvalue hdoc
  exact ⟨haccepts, haccepts.shapes_iff⟩

/-- A vertex with no endpoint members. -/
def bareVertex : JsonTree :=
  .object [("id", .leaf (.int64 1)), ("label", .leaf (.string "a")), ("type", .leaf (.string "vertex"))]

/-- A vertex with an endpoint member that is null. -/
def nullEndedVertex : JsonTree :=
  .object [("id", .leaf (.int64 1)), ("label", .leaf (.string "a")), ("type", .leaf (.string "vertex")),
    ("outV", .leaf .null)]

/-- A vertex whose type is an object. -/
def keyedVertex : JsonTree :=
  .object [("id", .leaf (.int64 1)), ("label", .leaf (.string "a")), ("type", .object [("vertex", .leaf .null)])]

/-- A vertex whose members stand in a list. -/
def listedVertex : JsonTree :=
  .array [.leaf (.int64 1), .leaf (.string "a"), .leaf (.string "vertex"), .leaf .null, .leaf .null, .leaf .null,
    .leaf .null]

private theorem exists_document_of_kind {r : Registry} {text : String} {kind : ElementKind}
    (h : (r.fromText Target.document text).toOption.map ElementDoc.kind = some kind) :
    ∃ doc, r.fromText Target.document text = .ok doc ∧ doc.kind = kind := by
  cases hread : r.fromText Target.document text with
  | error e =>
    rw [hread] at h
    cases h
  | ok doc =>
    rw [hread] at h
    exact ⟨doc, rfl, Option.some.inj h⟩

private theorem fromText_value_compact {tree : JsonTree}
    (hlength : (String.ofList tree.compact).utf8ByteSize ≤ default.maxTextLength) (hdepth : tree.depth ≤ maxDepth) :
    default.fromText Target.value (String.ofList tree.compact) = .ok tree.reread :=
  (default.fromText_compact Target.value.name hdepth).trans (if_pos hlength)

/-- The theorem on the text of a vertex with no endpoint members, which has the shape of one. -/
theorem fromText_document_bareVertex :
    ∃ doc, default.fromText Target.document (String.ofList bareVertex.compact) = .ok doc ∧
      default.fromText Target.value (String.ofList bareVertex.compact) = .ok bareVertex.reread ∧
        doc.kind.Accepts bareVertex.reread ∧ doc.kind.Shapes bareVertex.reread := by
  obtain ⟨doc, hdoc, -⟩ : ∃ doc, default.fromText Target.document (String.ofList bareVertex.compact) = .ok doc ∧
      doc.kind = .vertex := exists_document_of_kind (by decide +kernel)
  have hvalue : default.fromText Target.value (String.ofList bareVertex.compact) = .ok bareVertex.reread :=
    fromText_value_compact (by decide +kernel) (by decide +kernel)
  obtain ⟨haccepts, hshapes⟩ := fromText_document_accepts hdoc hvalue
  refine ⟨doc, hdoc, hvalue, haccepts, hshapes.2 ⟨_, rfl, fun _ h => (nomatch h), fun field h => ?_⟩⟩
  cases field <;> cases h

/-- A text is read as a document, and as a value that has not the shape of one. -/
def ReadsUnshaped (r : Registry) (text : String) : Prop :=
  ∃ doc g, r.fromText Target.document text = .ok doc ∧ r.fromText Target.value text = .ok g ∧ ¬doc.kind.Shapes g

private theorem readsUnshaped_of_vertex {tree : JsonTree}
    (hdoc : (default.fromText Target.document (String.ofList tree.compact)).toOption.map ElementDoc.kind =
      some .vertex)
    (hlength : (String.ofList tree.compact).utf8ByteSize ≤ default.maxTextLength) (hdepth : tree.depth ≤ maxDepth)
    (h : ¬ElementKind.vertex.Shapes tree.reread) : default.ReadsUnshaped (String.ofList tree.compact) := by
  obtain ⟨doc, hread, hkind⟩ := exists_document_of_kind hdoc
  exact ⟨doc, _, hread, fromText_value_compact hlength hdepth, hkind ▸ h⟩

/-- Documents are read from texts that have not the shape of one, in each of the three ways. -/
theorem readsUnshaped_vertices :
    default.ReadsUnshaped (String.ofList nullEndedVertex.compact) ∧
      default.ReadsUnshaped (String.ofList keyedVertex.compact) ∧
        default.ReadsUnshaped (String.ofList listedVertex.compact) := by
  refine ⟨readsUnshaped_of_vertex (by decide +kernel) (by decide +kernel) (by decide +kernel) ?_,
    readsUnshaped_of_vertex (by decide +kernel) (by decide +kernel) (by decide +kernel) ?_,
    readsUnshaped_of_vertex (by decide +kernel) (by decide +kernel) (by decide +kernel) ?_⟩
  · rintro ⟨_, hms, -, hvertex, -⟩
    cases hms
    exact nomatch hvertex rfl .outV
  · rintro ⟨_, hms, htype, -⟩
    cases hms
    exact nomatch htype
  · rintro ⟨_, hms, -⟩
    exact nomatch hms

end Registry

end PropertyGraph
