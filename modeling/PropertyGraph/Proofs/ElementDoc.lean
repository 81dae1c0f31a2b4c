import PropertyGraph.Proofs.Document
import PropertyGraph.Proofs.Json.Agreement

/-!
# Documents and objects

A text that is read as an object, with the fields of a document written once at most, is read as a document exactly
if the object has the members of one, in any order and among any others; and the document is then what these
members say.  The key facts: the members of the object are taken into a draft that has them
(`ElementDraft.member?_of_foldlM`), a draft is a document exactly if its members describe one
(`ElementDraft.toDoc_eq_ok_iff_describes`), and from both what a text is read as (`Registry.fromText_document_iff`).
-/

namespace PropertyGraph

open Json Json.Reader

/-! ### Members that are written once -/

namespace Json

theorem lookup_insert (key other : String) (v : Json) (ms : List (String × Json)) :
    (insert key v ms).lookup other = if other = key then some v else ms.lookup other := by
  split
  · rename_i h
    rw [h, lookup_insert_self]
  · rename_i h
    induction ms with
    | nil => simp [insert, List.lookup_cons, beq_false_of_ne h]
    | cons m ms ih =>
      obtain ⟨k, w⟩ := m
      unfold insert
      split
      · rename_i hk
        rw [List.lookup_cons, List.lookup_cons, hk, beq_false_of_ne h]
      · rw [List.lookup_cons, List.lookup_cons, ih]

/-- The key of a member that is written once does not come again. -/
private theorem lookup_eq_none_of_once {m : String × Json} {ms : List (String × Json)}
    (honce : ((m :: ms).map Prod.fst).count m.1 ≤ 1) : ms.lookup m.1 = none := by
  rw [List.map_cons, List.count_cons_self] at honce
  have hnot : m.1 ∉ ms.map Prod.fst := List.count_eq_zero.1 (by omega)
  refine List.lookup_eq_none_iff.2 fun n hn => bne_iff_ne.2 fun heq => hnot ?_
  exact heq ▸ List.mem_map_of_mem hn

private theorem once_of_cons {key : String} {m : String × Json} {ms : List (String × Json)}
    (honce : ((m :: ms).map Prod.fst).count key ≤ 1) : (ms.map Prod.fst).count key ≤ 1 :=
  Nat.le_trans (List.count_le_count_cons ..) honce

private theorem lookup_foldl_insert {key : String} {ms : List (String × Json)} (before : List (String × Json))
    (honce : (ms.map Prod.fst).count key ≤ 1) :
    (ms.foldl (fun before m => insert m.1 m.2 before) before).lookup key =
      (ms.lookup key).or (before.lookup key) := by
  induction ms generalizing before with
  | nil => rfl
  | cons m ms ih =>
    rw [List.foldl_cons, ih _ (once_of_cons honce), lookup_insert, List.lookup_cons]
    split
    · rename_i hkey
      subst hkey
      rw [lookup_eq_none_of_once honce, beq_self_eq_true]
      rfl
    · rename_i hkey
      rw [beq_false_of_ne hkey]

/-- A member that is written once is found in the object as it is written. -/
theorem lookup_ofMembers {key : String} {ms : List (String × Json)} (honce : (ms.map Prod.fst).count key ≤ 1) :
    (ofMembers ms).lookup key = ms.lookup key := by
  rw [ofMembers, lookup_foldl_insert [] honce, List.lookup_nil, Option.or_none]

end Json

/-! ### What values are taken as -/

namespace Json

variable {v : Json}

theorem eq_of_string? {s : String} (h : v.string? = some s) : v = .string s := by
  cases v <;> cases h
  rfl

theorem eq_of_members? {ms : List (String × Json)} (h : v.members? = some ms) : v = .object ms := by
  cases v <;> cases h
  rfl

theorem getD_of_nullable {w : Option Json} (h : v.nullable (some v) = some w) : w.getD .null = v := by
  cases v <;> cases h <;> rfl

theorem string_of_nullable {w : Option String} (h : v.nullable v.string? = some w) :
    (w.map Json.string).getD .null = v := by
  cases v <;> cases h <;> rfl

end Json

theorem ElementKind.eq_name_of_ofName? {s : String} {kind : ElementKind} (h : ofName? s = some kind) :
    s = kind.name := by
  unfold ofName? at h
  split at h
  · cases h
    assumption
  · split at h <;> cases h
    assumption

/-! ### Members of a draft -/

namespace ElementDraft

/-- The draft after a member of an object is taken as the field that it names. -/
def take (d : ElementDraft) (m : String × Json) : Option ElementDraft :=
  match m.1 with
  | "id" => some { d with id := some m.2 }
  | "label" => m.2.string?.bind fun s => some { d with label := some s }
  | "type" => (m.2.string?.bind ElementKind.ofName?).bind fun kind => some { d with kind := some kind }
  | "outV" => (m.2.nullable (some m.2)).bind fun v => some { d with outV := some v }
  | "outVLabel" => (m.2.nullable m.2.string?).bind fun s => some { d with outVLabel := some s }
  | "inV" => (m.2.nullable (some m.2)).bind fun v => some { d with inV := some v }
  | "inVLabel" => (m.2.nullable m.2.string?).bind fun s => some { d with inVLabel := some s }
  | "properties" => m.2.members?.bind fun ms => some { d with properties := some ms }
  | _ => some d

/-- The member of an object that a field of a draft was taken from. -/
def member? (d : ElementDraft) : String → Option Json
  | "id" => d.id
  | "label" => d.label.map .string
  | "type" => d.kind.map fun kind => .string kind.name
  | "outV" => d.outV.map (·.getD .null)
  | "outVLabel" => d.outVLabel.map fun label => (label.map .string).getD .null
  | "inV" => d.inV.map (·.getD .null)
  | "inVLabel" => d.inVLabel.map fun label => (label.map .string).getD .null
  | "properties" => d.properties.map .object
  | _ => none

theorem member?_empty (name : String) : ({} : ElementDraft).member? name = none := by
  unfold member?
  split <;> rfl

/-- The names of the members that a document is read from. -/
def names : List String := ["id", "label", "type", "outV", "outVLabel", "inV", "inVLabel", "properties"]

theorem names_eq : record.fields.map (·.name) = names := rfl

theorem isSet_iff {field : Json.Reader.Field ElementDraft} (hfield : field ∈ record.fields) (d : ElementDraft) :
    field.isSet d = (d.member? field.name).isSome := by
  simp only [record, List.mem_cons, List.not_mem_nil, or_false] at hfield
  rcases hfield with rfl | rfl | rfl | rfl | rfl | rfl | rfl | rfl <;> simp [member?]

theorem takesFields {depth : Nat} {written : List (String × Json)}
    (hkind : ∀ v, ("type", v) ∈ written → ∀ ms, v ≠ .object ms) :
    TakesFields depth record.fields take written := by
  intro m hm field hfield hname s rest hvalue d
  obtain ⟨key, v⟩ := m
  have hbehind := (run_value_dropWhile depth s).trans hvalue
  simp only [record, List.mem_cons, List.not_mem_nil, or_false] at hfield
  rcases hfield with rfl | rfl | rfl | rfl | rfl | rfl | rfl | rfl <;> subst hname
  · exact (gives_of_ok hvalue).bind fun _ _ => gives_of_ok rfl
  · exact (gives_string hvalue).bind fun _ _ => gives_of_ok rfl
  · exact (gives_elementKind hvalue (hkind v hm)).bind fun _ _ => gives_of_ok rfl
  · exact (gives_optional hvalue (gives_of_ok hbehind)).bind fun _ _ => gives_of_ok rfl
  · exact (gives_optional hvalue (gives_string hbehind)).bind fun _ _ => gives_of_ok rfl
  · exact (gives_optional hvalue (gives_of_ok hbehind)).bind fun _ _ => gives_of_ok rfl
  · exact (gives_optional hvalue (gives_string hbehind)).bind fun _ _ => gives_of_ok rfl
  · exact (gives_object hvalue).bind fun _ _ => gives_of_ok rfl

theorem member?_take {d after : ElementDraft} {name : String} {v : Json} (hname : name ∈ names)
    (h : d.take (name, v) = some after) (other : String) :
    after.member? other = if other = name then some v else d.member? other := by
  simp only [names, List.mem_cons, List.not_mem_nil, or_false] at hname
  -- what each field is taken as stands for the value again
  rcases hname with rfl | rfl | rfl | rfl | rfl | rfl | rfl | rfl
  · obtain rfl := Option.some.inj h
    unfold member?
    split <;> simp_all
  · obtain ⟨s, hs, h⟩ := Option.bind_eq_some_iff.1 h
    obtain rfl := Option.some.inj h
    obtain rfl := eq_of_string? hs
    unfold member?
    split <;> simp_all
  · obtain ⟨kind, hkind, h⟩ := Option.bind_eq_some_iff.1 h
    obtain rfl := Option.some.inj h
    obtain ⟨s, hs, hkind⟩ := Option.bind_eq_some_iff.1 hkind
    obtain rfl := eq_of_string? hs
    obtain rfl := ElementKind.eq_name_of_ofName? hkind
    unfold member?
    split <;> simp_all
  · obtain ⟨w, hw, h⟩ := Option.bind_eq_some_iff.1 h
    obtain rfl := Option.some.inj h
    obtain rfl := getD_of_nullable hw
    unfold member?
    split <;> simp_all
  · obtain ⟨w, hw, h⟩ := Option.bind_eq_some_iff.1 h
    obtain rfl := Option.some.inj h
    obtain rfl := string_of_nullable hw
    unfold member?
    split <;> simp_all
  · obtain ⟨w, hw, h⟩ := Option.bind_eq_some_iff.1 h
    obtain rfl := Option.some.inj h
    obtain rfl := getD_of_nullable hw
    unfold member?
    split <;> simp_all
  · obtain ⟨w, hw, h⟩ := Option.bind_eq_some_iff.1 h
    obtain rfl := Option.some.inj h
    obtain rfl := string_of_nullable hw
    unfold member?
    split <;> simp_all
  · obtain ⟨ms, hms, h⟩ := Option.bind_eq_some_iff.1 h
    obtain rfl := Option.some.inj h
    obtain rfl := eq_of_members? hms
    unfold member?
    split <;> simp_all

theorem takeMember_of_not_mem {m : String × Json} (hname : m.1 ∉ names) (d : ElementDraft) :
    takeMember record.fields take d m = some d := by
  have hnone : record.fields.find? (·.name == m.1) = none := by
    refine List.find?_eq_none.2 fun field hfield heq => hname ?_
    rw [← names_eq, ← beq_iff_eq.1 heq]
    exact List.mem_map_of_mem hfield
  unfold takeMember
  rw [hnone]

theorem takeMember_of_mem {m : String × Json} (hname : m.1 ∈ names) (d : ElementDraft) :
    takeMember record.fields take d m = if (d.member? m.1).isSome then none else d.take m := by
  rw [← names_eq] at hname
  obtain ⟨field, hfield, heq⟩ := List.mem_map.1 hname
  unfold takeMember
  cases hfind : record.fields.find? (·.name == m.1) with
  | none => exact absurd (beq_iff_eq.2 heq) (List.find?_eq_none.1 hfind field hfield)
  | some found =>
    have hfound : found.name = m.1 := by simpa using List.find?_some hfind
    dsimp only
    rw [isSet_iff (List.mem_of_find?_eq_some hfind), hfound]

/-- A draft that a step takes each member into as it is has the members, and those that it had before. -/
theorem member?_of_foldlM_step {step : ElementDraft → String × Json → Option ElementDraft}
    {written : List (String × Json)} {name : String}
    (hstep : ∀ m ∈ written, ∀ d next : ElementDraft, step d m = some next →
      next.member? name = if name = m.1 then some m.2 else d.member? name)
    {d after : ElementDraft} (h : written.foldlM step d = some after) (honce : (written.map Prod.fst).count name ≤ 1) :
    after.member? name = (written.lookup name).or (d.member? name) := by
  induction written generalizing d with
  | nil =>
    cases h
    rfl
  | cons m written ih =>
    obtain ⟨hstepHead, hstep⟩ := List.forall_mem_cons.1 hstep
    rw [List.foldlM_cons] at h
    obtain ⟨next, hnext, h⟩ := Option.bind_eq_some_iff.1 h
    rw [ih hstep h (once_of_cons honce), hstepHead d next hnext, List.lookup_cons]
    split
    · rename_i heq
      subst heq
      rw [lookup_eq_none_of_once honce, beq_self_eq_true]
      rfl
    · rename_i hne
      rw [beq_false_of_ne hne]

/-- A draft that members are taken into has the members, and those that it had before. -/
theorem member?_of_foldlM {written : List (String × Json)} {d after : ElementDraft}
    (h : written.foldlM (takeMember record.fields take) d = some after) {name : String} (hname : name ∈ names)
    (honce : (written.map Prod.fst).count name ≤ 1) :
    after.member? name = (written.lookup name).or (d.member? name) := by
  refine member?_of_foldlM_step (fun m _ d next hnext => ?_) h honce
  by_cases hm : m.1 ∈ names
  · rw [takeMember_of_mem hm] at hnext
    split at hnext
    · cases hnext
    · exact member?_take hm hnext name
  · rw [takeMember_of_not_mem hm] at hnext
    obtain rfl := Option.some.inj hnext
    have hne : name ≠ m.1 := fun heq => hm (heq ▸ hname)
    rw [if_neg hne]

/-- Members that are written once and can be taken, each for itself, are taken one after the other. -/
theorem exists_foldlM {written : List (String × Json)}
    (htake : ∀ m ∈ written, m.1 ∈ names → ∀ d : ElementDraft, ∃ after, d.take m = some after)
    (honce : ∀ name ∈ names, (written.map Prod.fst).count name ≤ 1) {d : ElementDraft}
    (hunset : ∀ m ∈ written, m.1 ∈ names → d.member? m.1 = none) :
    ∃ after, written.foldlM (takeMember record.fields take) d = some after := by
  induction written generalizing d with
  | nil => exact ⟨d, rfl⟩
  | cons m written ih =>
    obtain ⟨htakeHead, htake⟩ := List.forall_mem_cons.1 htake
    obtain ⟨hunsetHead, hunset⟩ := List.forall_mem_cons.1 hunset
    have honceTail : ∀ name ∈ names, (written.map Prod.fst).count name ≤ 1 := fun name hname =>
      once_of_cons (honce name hname)
    by_cases hm : m.1 ∈ names
    · obtain ⟨next, hnext⟩ := htakeHead hm d
      -- the key of the first member does not come again
      have hnone := lookup_eq_none_of_once (honce m.1 hm)
      obtain ⟨after, hafter⟩ := ih htake honceTail (d := next) fun n hn hname => by
        have hne : n.1 ≠ m.1 := (bne_iff_ne.1 (List.lookup_eq_none_iff.1 hnone n hn)).symm
        rw [member?_take hm hnext, if_neg hne, hunset n hn hname]
      refine ⟨after, ?_⟩
      rw [List.foldlM_cons, takeMember_of_mem hm, hunsetHead hm]
      exact (congrArg (Option.bind · _) hnext).trans hafter
    · obtain ⟨after, hafter⟩ := ih htake honceTail hunset
      refine ⟨after, ?_⟩
      rw [List.foldlM_cons, takeMember_of_not_mem hm]
      exact hafter

end ElementDraft

/-! ### Documents and the members that they consist of -/

/-- A number or a text, as an identifier has to be. -/
def Json.IsIdentifier : Json → Prop
  | .number _ | .string _ => True
  | _ => False

/-- The ends of an edge are the four endpoint members of an object. -/
structure Ends.IsOf (ends : Ends) (g : List (String × Json)) : Prop where
  outV : g.lookup "outV" = some ends.outV
  outVLabel : g.lookup "outVLabel" = some (.string ends.outVLabel)
  inV : g.lookup "inV" = some ends.inV
  inVLabel : g.lookup "inVLabel" = some (.string ends.inVLabel)
  outV_isIdentifier : ends.outV.IsIdentifier
  inV_isIdentifier : ends.inV.IsIdentifier

/-- A document is what the members of an object say. -/
structure ElementDoc.IsOf (doc : ElementDoc) (g : List (String × Json)) : Prop where
  id : g.lookup "id" = some doc.id
  id_isIdentifier : doc.id.IsIdentifier
  label : g.lookup "label" = some (.string doc.label)
  kind : g.lookup "type" = some (.string doc.kind.name)
  properties : g.lookup "properties" = none ∧ doc.properties = [] ∨
    g.lookup "properties" = some (.object doc.properties)
  vertex : doc.kind = .vertex → doc.ends = none ∧ ∀ field : EndpointField, g.lookup field.name = none
  edge : doc.kind = .edge → ∃ ends, doc.ends = some ends ∧ ends.IsOf g

/-- An object has the members of a document: an identifier, a label and properties, if any, of their types, and as
its type asks none of the endpoint members or all four. -/
structure Json.IsDocument (g : List (String × Json)) : Prop where
  id : ∃ v, g.lookup "id" = some v ∧ v.IsIdentifier
  label : ∃ s, g.lookup "label" = some (.string s)
  properties : g.lookup "properties" = none ∨ ∃ ms, g.lookup "properties" = some (.object ms)
  type : g.lookup "type" = some (.string "vertex") ∧ (∀ field : EndpointField, g.lookup field.name = none) ∨
    g.lookup "type" = some (.string "edge") ∧ (∃ v, g.lookup "outV" = some v ∧ v.IsIdentifier) ∧
      (∃ s, g.lookup "outVLabel" = some (.string s)) ∧ (∃ v, g.lookup "inV" = some v ∧ v.IsIdentifier) ∧
        ∃ s, g.lookup "inVLabel" = some (.string s)

theorem ElementDoc.exists_isOf_iff {g : List (String × Json)} :
    (∃ doc : ElementDoc, doc.IsOf g) ↔ Json.IsDocument g := by
  constructor
  · rintro ⟨doc, h⟩
    refine ⟨⟨_, h.id, h.id_isIdentifier⟩, ⟨_, h.label⟩, h.properties.imp And.left fun hsome => ⟨_, hsome⟩, ?_⟩
    have htype := h.kind
    cases hkind : doc.kind with
    | vertex =>
      rw [hkind] at htype
      exact .inl ⟨htype, (h.vertex hkind).2⟩
    | edge =>
      rw [hkind] at htype
      obtain ⟨ends, -, hends⟩ := h.edge hkind
      exact .inr ⟨htype, ⟨_, hends.outV, hends.outV_isIdentifier⟩, ⟨_, hends.outVLabel⟩,
        ⟨_, hends.inV, hends.inV_isIdentifier⟩, ⟨_, hends.inVLabel⟩⟩
  · rintro ⟨⟨id, hid, hidentifier⟩, ⟨label, hlabel⟩, hproperties, htype⟩
    obtain ⟨ms, hms⟩ : ∃ ms, g.lookup "properties" = none ∧ ms = [] ∨ g.lookup "properties" = some (.object ms) := by
      rcases hproperties with hnone | ⟨ms, hsome⟩
      · exact ⟨[], .inl ⟨hnone, rfl⟩⟩
      · exact ⟨ms, .inr hsome⟩
    rcases htype with ⟨htype, hnone⟩ | ⟨htype, ⟨outV, houtV, hout⟩, ⟨outVLabel, houtVLabel⟩, ⟨inV, hinV, hin⟩,
      ⟨inVLabel, hinVLabel⟩⟩
    · exact ⟨⟨id, label, .vertex, none, ms⟩, hid, hidentifier, hlabel, htype, hms, fun _ => ⟨rfl, hnone⟩, nofun⟩
    · exact ⟨⟨id, label, .edge, some ⟨outV, outVLabel, inV, inVLabel⟩, ms⟩, hid, hidentifier, hlabel, htype, hms, nofun,
        fun _ => ⟨_, rfl, houtV, houtVLabel, hinV, hinVLabel, hout, hin⟩⟩

/-- Objects that agree in the members of a document are read as the same document. -/
theorem ElementDoc.IsOf.congr {doc : ElementDoc} {g g' : List (String × Json)}
    (hlookup : ∀ name ∈ ElementDraft.names, g'.lookup name = g.lookup name) (h : doc.IsOf g) : doc.IsOf g' := by
  have hendpoint (field : EndpointField) : g'.lookup field.name = g.lookup field.name :=
    hlookup field.name (by cases field <;> simp [ElementDraft.names, EndpointField.name])
  refine ⟨?_, h.id_isIdentifier, ?_, ?_, ?_, fun hvertex => ?_, fun hedge => ?_⟩
  · exact (hlookup "id" (by simp [ElementDraft.names])).trans h.id
  · exact (hlookup "label" (by simp [ElementDraft.names])).trans h.label
  · exact (hlookup "type" (by simp [ElementDraft.names])).trans h.kind
  · rw [hlookup "properties" (by simp [ElementDraft.names])]
    exact h.properties
  · exact ⟨(h.vertex hvertex).1, fun field => (hendpoint field).trans ((h.vertex hvertex).2 field)⟩
  · obtain ⟨ends, hsome, hends⟩ := h.edge hedge
    exact ⟨ends, hsome, (hendpoint .outV).trans hends.outV, (hendpoint .outVLabel).trans hends.outVLabel,
      (hendpoint .inV).trans hends.inV, (hendpoint .inVLabel).trans hends.inVLabel, hends.outV_isIdentifier,
      hends.inV_isIdentifier⟩

namespace ElementDraft

variable {d : ElementDraft}

theorem checkId_eq_ok_iff {v : Json} : checkId v = .ok () ↔ v.IsIdentifier := by
  cases v <;> simp [checkId, IsIdentifier]

theorem endsOf_vertex_eq_ok_iff {ends : Option Ends} :
    d.endsOf .vertex = .ok ends ↔ ends = none ∧ d.outV.join = none ∧ d.outVLabel.join = none ∧ d.inV.join = none ∧
      d.inVLabel.join = none := by
  unfold endsOf presentEndpoint?
  cases d.outV.join <;> cases d.outVLabel.join <;> cases d.inV.join <;> cases d.inVLabel.join <;> simp [eq_comm]

private theorem checkId_bind_eq_ok_iff {α : Type} {v : Json} {next : Except FormatError α} {a : α} :
    (checkId v >>= fun _ => next) = .ok a ↔ v.IsIdentifier ∧ next = .ok a := by
  rw [← checkId_eq_ok_iff]
  cases checkId v with
  | error e => exact ⟨nofun, fun h => nomatch h.1⟩
  | ok => exact ⟨fun h => ⟨rfl, h⟩, fun h => h.2⟩

private theorem endpoint_bind_eq_ok_iff {α β : Type} {field : EndpointField} {member : Option (Option α)}
    {next : α → Except FormatError β} {b : β} :
    (endpoint field member >>= next) = .ok b ↔ ∃ a, member.join = some a ∧ next a = .ok b := by
  unfold endpoint
  cases member.join with
  | none => exact ⟨nofun, fun ⟨_, h, _⟩ => nomatch h⟩
  | some a => exact ⟨fun h => ⟨a, rfl, h⟩, fun ⟨_, h, hnext⟩ => Option.some.inj h ▸ hnext⟩

theorem endsOf_edge_eq_ok_iff {ends : Option Ends} :
    d.endsOf .edge = .ok ends ↔ ∃ e, ends = some e ∧ d.ends = .ok e := by
  show some <$> d.ends = .ok ends ↔ _
  cases d.ends with
  | error e => exact ⟨nofun, fun ⟨_, _, h⟩ => nomatch h⟩
  | ok e =>
    constructor
    · intro h
      exact ⟨e, (Except.ok.inj h).symm, rfl⟩
    · rintro ⟨_, rfl, h⟩
      exact congrArg _ (congrArg some (Except.ok.inj h))

theorem ends_eq_ok_iff {ends : Ends} :
    d.ends = .ok ends ↔ d.outV.join = some ends.outV ∧ d.outVLabel.join = some ends.outVLabel ∧
      d.inV.join = some ends.inV ∧ d.inVLabel.join = some ends.inVLabel ∧ ends.outV.IsIdentifier ∧
      ends.inV.IsIdentifier := by
  unfold ElementDraft.ends
  simp only [endpoint_bind_eq_ok_iff, checkId_bind_eq_ok_iff]
  constructor
  · rintro ⟨outV, hout, outVLabel, houtLabel, inV, hin, inVLabel, hinLabel, houtId, hinId, h⟩
    obtain rfl := Except.ok.inj h
    exact ⟨hout, houtLabel, hin, hinLabel, houtId, hinId⟩
  · rintro ⟨hout, houtLabel, hin, hinLabel, houtId, hinId⟩
    exact ⟨_, hout, _, houtLabel, _, hin, _, hinLabel, houtId, hinId, rfl⟩

theorem complete_eq (d : ElementDraft) :
    complete record.fields d = if d.id.isSome && d.label.isSome && d.kind.isSome then some d else none := by
  obtain ⟨id, label, kind, _⟩ := d
  cases id <;> cases label <;> cases kind <;> rfl

theorem toDoc_eq_ok_iff {doc : ElementDoc} :
    d.toDoc = .ok doc ↔ (d.id.getD .null).IsIdentifier ∧ d.endsOf (d.kind.getD .vertex) = .ok doc.ends ∧
      doc = ⟨d.id.getD .null, d.label.getD "", d.kind.getD .vertex, doc.ends, d.properties.getD []⟩ := by
  unfold toDoc
  simp only [checkId_bind_eq_ok_iff]
  refine and_congr_right fun _ => ?_
  cases d.endsOf (d.kind.getD .vertex) with
  | error e => exact ⟨nofun, fun h => nomatch h.1⟩
  | ok ends =>
    constructor
    · intro h
      obtain rfl := Except.ok.inj h
      exact ⟨rfl, rfl⟩
    · rintro ⟨h, hdoc⟩
      obtain rfl := Except.ok.inj h
      exact congrArg _ hdoc.symm

theorem complete_toDoc_eq_some_iff {doc : ElementDoc} :
    ((complete record.fields d).bind fun d => d.toDoc.toOption) = some doc ↔
      d.id = some doc.id ∧ doc.id.IsIdentifier ∧ d.label = some doc.label ∧ d.kind = some doc.kind ∧
        d.endsOf doc.kind = .ok doc.ends ∧ d.properties.getD [] = doc.properties := by
  have hoption {o : Except FormatError ElementDoc} : o.toOption = some doc ↔ o = .ok doc := by
    cases o <;> simp [Except.toOption]
  rw [complete_eq]
  cases hid : d.id with
  | none => simp
  | some id =>
    cases hlabel : d.label with
    | none => simp
    | some label =>
      cases hkind : d.kind with
      | none => simp
      | some kind =>
        simp only [Option.isSome_some, Bool.and_self, if_true, Option.bind_some, hoption, toDoc_eq_ok_iff, hid, hlabel,
          hkind, Option.getD_some]
        obtain ⟨docId, docLabel, docKind, ends, properties⟩ := doc
        constructor
        · rintro ⟨hidentifier, hends, hdoc⟩
          obtain ⟨rfl, rfl, rfl, -, rfl⟩ := ElementDoc.mk.inj hdoc
          exact ⟨rfl, hidentifier, rfl, rfl, hends, rfl⟩
        · rintro ⟨hid, hidentifier, hlabel, hkind, hends, hproperties⟩
          obtain rfl := Option.some.inj hid
          obtain rfl := Option.some.inj hlabel
          obtain rfl := Option.some.inj hkind
          exact ⟨hidentifier, hends, congrArg _ hproperties.symm⟩

/-- A member that is not null is there or absent as it is in the object. -/
private theorem join_eq_of_ne_null {o : Option (Option Json)} {m : Option Json} (h : o.map (·.getD .null) = m)
    (hnull : m ≠ some .null) : o.join = m := by
  subst h
  match o with
  | none => rfl
  | some none => exact absurd rfl hnull
  | some (some v) => rfl

private theorem join_map_eq_of_ne_null {o : Option (Option String)} {m : Option Json}
    (h : (o.map fun label => (label.map Json.string).getD .null) = m) (hnull : m ≠ some .null) :
    o.join.map .string = m := by
  subst h
  match o with
  | none => rfl
  | some none => exact absurd rfl hnull
  | some (some s) => rfl

theorem map_string_eq_some_iff {o : Option String} {s : String} :
    o.map Json.string = some (.string s) ↔ o = some s := by
  cases o <;> simp

section Members

variable {g : List (String × Json)} (hmember : ∀ name ∈ names, d.member? name = g.lookup name)
  (hnull : ∀ field : EndpointField, g.lookup field.name ≠ some .null)
include hmember hnull

private theorem ends_eq_ok_iff_isOf (ends : Ends) : d.ends = .ok ends ↔ ends.IsOf g := by
  rw [ends_eq_ok_iff, ← map_string_eq_some_iff, ← map_string_eq_some_iff,
    join_eq_of_ne_null (hmember "outV" (by simp [names])) (hnull .outV),
    join_map_eq_of_ne_null (hmember "outVLabel" (by simp [names])) (hnull .outVLabel),
    join_eq_of_ne_null (hmember "inV" (by simp [names])) (hnull .inV),
    join_map_eq_of_ne_null (hmember "inVLabel" (by simp [names])) (hnull .inVLabel)]
  constructor
  · rintro ⟨houtV, houtVLabel, hinV, hinVLabel, hout, hin⟩
    exact ⟨houtV, houtVLabel, hinV, hinVLabel, hout, hin⟩
  · intro h
    exact ⟨h.outV, h.outVLabel, h.inV, h.inVLabel, h.outV_isIdentifier, h.inV_isIdentifier⟩

private theorem joins_eq_none_iff :
    (d.outV.join = none ∧ d.outVLabel.join = none ∧ d.inV.join = none ∧ d.inVLabel.join = none) ↔
      ∀ field : EndpointField, g.lookup field.name = none := by
  rw [← Option.map_eq_none_iff (f := Json.string), ← Option.map_eq_none_iff (f := Json.string),
    join_eq_of_ne_null (hmember "outV" (by simp [names])) (hnull .outV),
    join_map_eq_of_ne_null (hmember "outVLabel" (by simp [names])) (hnull .outVLabel),
    join_eq_of_ne_null (hmember "inV" (by simp [names])) (hnull .inV),
    join_map_eq_of_ne_null (hmember "inVLabel" (by simp [names])) (hnull .inVLabel)]
  constructor
  · rintro ⟨houtV, houtVLabel, hinV, hinVLabel⟩ field
    cases field <;> assumption
  · intro h
    exact ⟨h .outV, h .outVLabel, h .inV, h .inVLabel⟩

/-- A draft that has the members of an object is a document exactly if the document is what the members say. -/
theorem complete_toDoc_iff_isOf (doc : ElementDoc) :
    ((complete record.fields d).bind fun d => d.toDoc.toOption) = some doc ↔ doc.IsOf g := by
  have hid : d.id = g.lookup "id" := hmember "id" (by simp [names])
  have hlabel : d.label.map .string = g.lookup "label" := hmember "label" (by simp [names])
  have hkind : (d.kind.map fun kind => Json.string kind.name) = g.lookup "type" := hmember "type" (by simp [names])
  have hproperties : d.properties.map .object = g.lookup "properties" := hmember "properties" (by simp [names])
  rw [complete_toDoc_eq_some_iff]
  constructor
  · rintro ⟨hdocId, hidentifier, hdocLabel, hdocKind, hdocEnds, hdocProperties⟩
    refine ⟨hid ▸ hdocId, hidentifier, ?_, ?_, ?_, fun heq => ?_, fun heq => ?_⟩
    · rw [← hlabel, hdocLabel]
      rfl
    · rw [← hkind, hdocKind]
      rfl
    · rw [← hproperties, ← hdocProperties]
      cases d.properties with
      | none => exact .inl ⟨rfl, rfl⟩
      | some ms => exact .inr rfl
    · rw [heq, endsOf_vertex_eq_ok_iff, joins_eq_none_iff hmember hnull] at hdocEnds
      exact hdocEnds
    · rw [heq, endsOf_edge_eq_ok_iff] at hdocEnds
      obtain ⟨ends, hsome, hok⟩ := hdocEnds
      exact ⟨ends, hsome, (ends_eq_ok_iff_isOf hmember hnull ends).1 hok⟩
  · intro h
    refine ⟨hid.trans h.id, h.id_isIdentifier, ?_, ?_, ?_, ?_⟩
    · exact map_string_eq_some_iff.1 (hlabel.trans h.label)
    · obtain ⟨kind, hsome, hname⟩ := Option.map_eq_some_iff.1 (hkind.trans h.kind)
      have hsame := congrArg ElementKind.ofName? (Json.string.inj hname)
      rw [ElementKind.ofName?_name, ElementKind.ofName?_name] at hsame
      exact hsome.trans hsame
    · cases hdocKind : doc.kind with
      | vertex =>
        rw [endsOf_vertex_eq_ok_iff, joins_eq_none_iff hmember hnull]
        exact h.vertex hdocKind
      | edge =>
        obtain ⟨ends, hsome, hisOf⟩ := h.edge hdocKind
        exact endsOf_edge_eq_ok_iff.2 ⟨ends, hsome, (ends_eq_ok_iff_isOf hmember hnull ends).2 hisOf⟩
    · rcases h.properties with ⟨hnone, hempty⟩ | hsome
      · rw [← hproperties, Option.map_eq_none_iff] at hnone
        rw [hnone, hempty]
        rfl
      · obtain ⟨ms, hms, heq⟩ := Option.map_eq_some_iff.1 (hproperties.trans hsome)
        rw [hms]
        exact Json.object.inj heq

end Members

/-- A label at an end of a document, if it is there, is a text. -/
private theorem exists_string_of_isOf {doc : ElementDoc} {g : List (String × Json)} (h : doc.IsOf g)
    (field : EndpointField) (hlabel : field = .outVLabel ∨ field = .inVLabel) {v : Json}
    (hv : g.lookup field.name = some v) : ∃ s, v = .string s := by
  cases hkind : doc.kind with
  | vertex =>
    rw [(h.vertex hkind).2 field] at hv
    cases hv
  | edge =>
    obtain ⟨ends, -, hends⟩ := h.edge hkind
    rcases hlabel with rfl | rfl
    · exact ⟨_, Option.some.inj (hv.symm.trans hends.outVLabel)⟩
    · exact ⟨_, Option.some.inj (hv.symm.trans hends.inVLabel)⟩

/-- The members that a document consists of can be taken as fields. -/
theorem exists_take_of_isOf {doc : ElementDoc} {g : List (String × Json)} (h : doc.IsOf g) {name : String}
    {v : Json} (hname : name ∈ names) (hv : g.lookup name = some v) (d : ElementDraft) :
    ∃ after, d.take (name, v) = some after := by
  have hnullable : ∃ w, v.nullable (some v) = some w := by
    cases v <;> exact ⟨_, rfl⟩
  obtain ⟨w, hw⟩ := hnullable
  simp only [names, List.mem_cons, List.not_mem_nil, or_false] at hname
  rcases hname with rfl | rfl | rfl | rfl | rfl | rfl | rfl | rfl
  · exact ⟨_, rfl⟩
  · obtain rfl := Option.some.inj (hv.symm.trans h.label)
    exact ⟨_, rfl⟩
  · obtain rfl := Option.some.inj (hv.symm.trans h.kind)
    exact ⟨{ d with kind := some doc.kind }, by simp [take, string?, ElementKind.ofName?_name]⟩
  · exact ⟨{ d with outV := some w }, by simp [take, hw]⟩
  · obtain ⟨s, rfl⟩ := exists_string_of_isOf h .outVLabel (.inl rfl) hv
    exact ⟨_, rfl⟩
  · exact ⟨{ d with inV := some w }, by simp [take, hw]⟩
  · obtain ⟨s, rfl⟩ := exists_string_of_isOf h .inVLabel (.inr rfl) hv
    exact ⟨_, rfl⟩
  · rcases h.properties with ⟨hnone, -⟩ | hsome
    · exact nomatch hv.symm.trans hnone
    · obtain rfl := Option.some.inj (hv.symm.trans hsome)
      exact ⟨_, rfl⟩

end ElementDraft

/-! ### Whole texts -/

/-- A text is read as what a reader gives, if only blanks are left. -/
private theorem ofText_eq_ok_iff_of_gives {α : Type} {read : Json.Reader α} {text rest : List Char} {o : Option α}
    (h : Gives read text o rest) (hblanks : rest.dropWhile isJsonBlank = []) (a : α) :
    ofText read text = .ok a ↔ o = some a := by
  rw [ofText_eq_ok_iff]
  constructor
  · rintro ⟨last, hread, -⟩
    exact ((h a last).1 hread).1
  · intro ho
    exact ⟨rest, (h a rest).2 ⟨ho, rfl⟩, hblanks⟩

namespace Registry

theorem fromText_eq_ok_iff {α : Type} {r : Registry} {target : Target α} {text : String} {a : α} :
    r.fromText target text = .ok a ↔
      (isBlankText text.toList = false ∧ text.utf8ByteSize ≤ r.maxTextLength) ∧
        ofText target.read text.toList = .ok a := by
  cases hblank : isBlankText text.toList with
  | true => simp [fromText_blank r target hblank]
  | false =>
    by_cases hlength : r.maxTextLength < text.utf8ByteSize
    · simp [fromText_tooLong r target hblank hlength, Nat.not_le.2 hlength]
    · have hread : r.fromText target text = .ok a ↔ ofText target.read text.toList = .ok a := by
        rw [fromText_eq_read r target hblank (Nat.not_lt.1 hlength)]
        cases ofText target.read text.toList with
        | ok b => simp
        | error fault => simp
      exact hread.trans (and_iff_right ⟨rfl, Nat.not_lt.1 hlength⟩).symm

/-- The names of the members of the object that a text holds, as they are written. -/
def writtenNames (text : String) : List String :=
  match ofText (writtenMembers maxDepth) text.toList with
  | .ok written => written.map Prod.fst
  | .error _ => []

/-- A text is read as an object; the fields of a document are written once at most in it, no endpoint member is null,
and the type is no object. -/
structure HoldsObject (r : Registry) (text : String) (g : List (String × Json)) : Prop where
  read : r.fromText Target.value text = .ok (.object g)
  once : ∀ name ∈ ElementDraft.names, (writtenNames text).count name ≤ 1
  endpoint_ne_null : ∀ field : EndpointField, g.lookup field.name ≠ some .null
  type_ne_object : ∀ ms, g.lookup "type" ≠ some (.object ms)

private theorem gives_read {depth : Nat} {s rest : List Char} {o : Option ElementDraft}
    (h : Gives (record ElementDraft.record {} depth) s o rest) :
    Gives (ElementDoc.read depth) s (o.bind fun d => d.toDoc.toOption) rest := by
  refine h.bind fun d _ => ?_
  cases d.toDoc with
  | ok doc => exact gives_of_ok rfl
  | error e => exact gives_reject _

private theorem fromText_eq_ok_iff_isOf {r : Registry} {text : String} {g : List (String × Json)}
    (h : r.HoldsObject text g) (doc : ElementDoc) : r.fromText Target.document text = .ok doc ↔ doc.IsOf g := by
  obtain ⟨hinput, hread⟩ := fromText_eq_ok_iff.1 h.read
  obtain ⟨rest, hvalue, hblanks⟩ := ofText_eq_ok_iff.1 hread
  obtain ⟨written, rfl, hobject⟩ := exists_writtenObject hvalue
  have honce (name : String) (hname : name ∈ ElementDraft.names) : (written.map Prod.fst).count name ≤ 1 := by
    have hcount := h.once name hname
    have hmembers : ofText (writtenMembers maxDepth) text.toList = .ok written :=
      ofText_eq_ok_iff.2 ⟨rest, hobject.run_writtenMembers, hblanks⟩
    rwa [writtenNames, hmembers] at hcount
  have hlookup (m : String × Json) (hm : m ∈ written) (hname : m.1 ∈ ElementDraft.names) :
      (ofMembers written).lookup m.1 = some m.2 :=
    (lookup_ofMembers (honce _ hname)).trans (lookup_of_mem_of_once (honce _ hname) hm)
  have hkind (v : Json) (hv : ("type", v) ∈ written) (ms : List (String × Json)) : v ≠ .object ms := by
    rintro rfl
    exact h.type_ne_object ms (hlookup _ hv (by simp [ElementDraft.names]))
  have hgives := gives_read (hobject.gives_record (ElementDraft.takesFields hkind) {})
  rw [fromText_eq_ok_iff, and_iff_right hinput]
  refine (ofText_eq_ok_iff_of_gives hgives hblanks doc).trans ?_
  rw [Option.bind_assoc]
  cases hfold : written.foldlM (takeMember ElementDraft.record.fields ElementDraft.take) {} with
  | some d =>
    refine ElementDraft.complete_toDoc_iff_isOf (fun name hname => ?_) h.endpoint_ne_null doc
    rw [ElementDraft.member?_of_foldlM hfold hname (honce name hname), ElementDraft.member?_empty, Option.or_none,
      lookup_ofMembers (honce name hname)]
  | none =>
    refine ⟨nofun, fun hisOf => ?_⟩
    obtain ⟨after, hafter⟩ := ElementDraft.exists_foldlM
      (fun m hm hname d => ElementDraft.exists_take_of_isOf hisOf hname (hlookup m hm hname) d) honce
      (d := {}) (fun m _ _ => ElementDraft.member?_empty m.1)
    exact nomatch hfold.symm.trans hafter

/-- **Reading a document and reading an object agree.**  A text that holds an object is read as a document exactly if
the object has the members of a document, and the document is what these members say; so texts whose objects agree in
these members are read as the same document, however the members are ordered and whatever else is among them. -/
theorem fromText_document_iff {r : Registry} {text : String} {g : List (String × Json)} (h : r.HoldsObject text g) :
    ((∃ doc, r.fromText Target.document text = .ok doc) ↔ Json.IsDocument g) ∧
      (∀ doc, r.fromText Target.document text = .ok doc ↔ doc.IsOf g) ∧
        ∀ text' g', r.HoldsObject text' g' → (∀ name ∈ ElementDraft.names, g'.lookup name = g.lookup name) →
          ∀ doc, r.fromText Target.document text' = .ok doc ↔ r.fromText Target.document text = .ok doc := by
  refine ⟨?_, fromText_eq_ok_iff_isOf h, fun text' g' h' hlookup doc => ?_⟩
  · rw [← ElementDoc.exists_isOf_iff]
    exact exists_congr (fromText_eq_ok_iff_isOf h)
  · rw [fromText_eq_ok_iff_isOf h, fromText_eq_ok_iff_isOf h']
    exact ⟨.congr fun name hname => (hlookup name hname).symm, .congr hlookup⟩

/-- An edge without properties, with its members in another order than they are written in and a member of another
name among them. -/
def shuffledEdge : JsonTree :=
  .object [("inVLabel", .leaf (.string "person")), ("type", .leaf (.string "edge")), ("note", .array [.leaf .null]),
    ("outV", .leaf (.int64 7)), ("label", .leaf (.string "knows")), ("outVLabel", .leaf (.string "person")),
    ("id", .leaf (.string "e")), ("inV", .leaf (.int64 8))]

/-- The object that the text of this edge holds. -/
def shuffledMembers : List (String × Json) :=
  [("inVLabel", .string "person"), ("type", .string "edge"), ("note", .array [.null]), ("outV", .ofInt64 7),
    ("label", .string "knows"), ("outVLabel", .string "person"), ("id", .string "e"), ("inV", .ofInt64 8)]

/-- The theorem on the text of this edge and the default registry. -/
theorem fromText_document_shuffledEdge :
    default.HoldsObject (String.ofList shuffledEdge.compact) shuffledMembers ∧
      default.fromText Target.document (String.ofList shuffledEdge.compact) =
        .ok ⟨.string "e", "knows", .edge, some ⟨.ofInt64 7, "person", .ofInt64 8, "person"⟩, []⟩ := by
  have hspells := shuffledEdge.spells_compact
  have hlength : (String.ofList shuffledEdge.compact).utf8ByteSize ≤ default.maxTextLength := by decide +kernel
  have hread : default.fromText Target.value (String.ofList shuffledEdge.compact) = .ok shuffledEdge.reread :=
    fromText_of_reads hspells.starts hlength (hspells.reads maxDepth (by decide +kernel))
  have honce : ∀ name ∈ ElementDraft.names, (writtenNames (String.ofList shuffledEdge.compact)).count name ≤ 1 := by
    decide +kernel
  have hholds : default.HoldsObject (String.ofList shuffledEdge.compact) shuffledMembers := by
    refine ⟨hread, honce, fun field h => ?_, fun _ h => nomatch h⟩
    cases field <;> cases h
  exact ⟨hholds, ((fromText_document_iff hholds).2.1 _).2
    ⟨rfl, trivial, rfl, rfl, .inl ⟨rfl, rfl⟩, nofun, fun _ => ⟨_, rfl, rfl, rfl, rfl, rfl, trivial, trivial⟩⟩⟩

end Registry

end PropertyGraph
