import PropertyGraph.Proofs.ElementDoc
import PropertyGraph.Proofs.Shape

/-!
# What a shape makes of a value

A text is read with a shape in two steps: the value in it is read as any value is, and the shape makes something of
it.  What it makes is known for each sort of shape and of value (`Shape.Makes`), and that is all that a reading can
give (`Registry.fromTextShape_eq_ok_iff`): what holds of every result of a computation is handed on by the parts of
the computation (`Ensures.bind`, `Ensures.mapM`).  For shapes without timestamps and identifiers it is what the value
is when nothing is known of it, with the numbers narrowed where the shape names a kind
(`Registry.fromTextShape_eq_narrowed`).
-/

namespace PropertyGraph

/-! ### Postconditions -/

/-- The result of a computation, if it has one, has a property. -/
def Ensures {α : Type} (x : Logged α) (property : α → Prop) : Prop :=
  ∀ log after a, x.run log = (.ok a, after) → property a

namespace Ensures

variable {α β : Type}

theorem pure {a : α} {property : α → Prop} (h : property a) : Ensures (Pure.pure a) property := by
  intro log after b hrun
  obtain rfl : a = b := Except.ok.inj (congrArg Prod.fst hrun)
  exact h

theorem throw (e : FormatError) (property : α → Prop) : Ensures (throw e) property := by
  intro log after a hrun
  cases congrArg Prod.fst hrun

theorem quiet {result : Except FormatError α} {property : α → Prop} (h : ∀ a, result = .ok a → property a) :
    Ensures (Shape.quiet result) property := fun _ _ a hrun => h a (congrArg Prod.fst hrun)

theorem bind {x : Logged α} {f : α → Logged β} {property : α → Prop} {next : β → Prop} (h : Ensures x property)
    (hnext : ∀ a, property a → Ensures (f a) next) : Ensures (x >>= f) next := by
  intro log after b hrun
  rw [Logged.run_bind] at hrun
  split at hrun
  next a mid hx => exact hnext a (h log mid a hx) mid after b hrun
  next e mid hx => cases congrArg Prod.fst hrun

theorem map {x : Logged α} {f : α → β} {property : β → Prop} (h : Ensures x (property ∘ f)) :
    Ensures (f <$> x) property := by
  rw [map_eq_pure_bind]
  exact h.bind fun a ha => pure ha

theorem mapM {f : α → Logged β} {related : α → β → Prop} (h : ∀ a, Ensures (f a) (related a)) (xs : List α) :
    Ensures (xs.mapM f) (List.Forall₂ related xs) := by
  induction xs with
  | nil => exact pure .nil
  | cons x xs ih =>
    rw [List.mapM_cons]
    exact (h x).bind fun y hy => ih.bind fun ys hys => pure (.cons hy hys)

end Ensures

namespace Shape

/-! ### Sorts of shapes and of values -/

mutual

/-- What a shape makes of a JSON value under a registry.  A number whose double may have lost digits is something
only if that is no error. -/
inductive Makes (r : Registry) : Shape → Json → Option PropertyValue → Prop
  | null (s : Shape) : Makes r s .null none
  | any (j : Json) : Makes r any j (PropertyValue.ofJson? j)
  | number {kind : NumberKind} {n : Json.Number}
      (safe : r.precision = .reject → (PropertyValue.float64 n.toBinary).doubtful? kind = none) :
      Makes r (number kind) (.number n) (some ((PropertyValue.float64 n.toBinary).narrow kind))
  | timestamp {j : Json} {t : Timestamp} (read : Timestamp.ofJson r.timestamps j = .ok t) :
      Makes r timestamp j (some (.timestamp t))
  | text (s : String) : Makes r text (.string s) (some (.text s))
  | bool (b : Bool) : Makes r bool (.bool b) (some (.bool b))
  | textualId (s : String) : Makes r id (.string s) (some (.id (.textual s)))
  | numericId {n : Json.Number} {i : Int64} (read : numericId n = .ok i) :
      Makes r id (.number n) (some (.id (.numeric i)))
  | list {inner : Shape} {items : List Json} {values : List (Option PropertyValue)}
      (each : MakesEach r inner items values) :
      Makes r (list inner) (.array items) (some (.list (values.map (·.getD (.nested .null)))))

/-- What a shape makes of the items of a list, one by one. -/
inductive MakesEach (r : Registry) : Shape → List Json → List (Option PropertyValue) → Prop
  | nil (inner : Shape) : MakesEach r inner [] []
  | cons {inner : Shape} {j : Json} {v : Option PropertyValue} {items : List Json}
      {values : List (Option PropertyValue)} (first : Makes r inner j v) (rest : MakesEach r inner items values) :
      MakesEach r inner (j :: items) (v :: values)

end

variable {r : Registry}

theorem makesEach_of_forall₂ {inner : Shape} {items : List Json} {values : List (Option PropertyValue)}
    (h : List.Forall₂ (Makes r inner) items values) : MakesEach r inner items values := by
  induction h with
  | nil => exact .nil inner
  | cons hfirst _ ih => exact .cons hfirst ih

theorem ensures_narrow (policy : PrecisionPolicy) (v : PropertyValue) (kind : NumberKind) :
    Ensures (narrow policy v kind) fun w => w = v.narrow kind ∧ (policy = .reject → v.doubtful? kind = none) := by
  unfold narrow
  split
  · rename_i hnone
    exact .pure ⟨rfl, fun _ => hnone⟩
  · intro log after w hrun
    exact ⟨(Except.ok.inj (congrArg Prod.fst hrun)).symm, fun h => nomatch h⟩
  · exact .throw _ _

/-- A result of a shape is one of those that are known. -/
theorem ensures_makes (r : Registry) (s : Shape) (j : Json) : Ensures (s.apply r j) (s.Makes r j) := by
  induction s generalizing j with
  | any =>
    rw [apply_any]
    exact .pure (.any j)
  | number kind =>
    cases j with
    | null => exact .pure (.null _)
    | number n =>
      refine .map fun log after v hrun => ?_
      obtain ⟨rfl, hsafe⟩ := ensures_narrow r.precision _ kind log after v hrun
      exact .number hsafe
    | _ => exact .throw _ _
  | timestamp =>
    cases j with
    | null => exact .pure (.null _)
    | _ => exact .map (.quiet fun t ht => .timestamp ht)
  | text =>
    cases j with
    | null => exact .pure (.null _)
    | string s => exact .pure (.text s)
    | _ => exact .throw _ _
  | bool =>
    cases j with
    | null => exact .pure (.null _)
    | bool b => exact .pure (.bool b)
    | _ => exact .throw _ _
  | id =>
    cases j with
    | null => exact .pure (.null _)
    | string s => exact .pure (.textualId s)
    | number n => exact .map (.quiet fun i hi => .numericId hi)
    | _ => exact .throw _ _
  | list inner ih =>
    cases j with
    | null => exact .pure (.null _)
    | array items => exact (Ensures.mapM ih items).bind fun values h => .pure (.list (makesEach_of_forall₂ h))
    | _ => exact .throw _ _

mutual

/-- What a shape makes of a value is its result. -/
theorem Makes.exists_run {s : Shape} {j : Json} {v : Option PropertyValue} (h : Makes r s j v) (log : List Warning) :
    ∃ after, (s.apply r j).run log = (.ok v, after) := by
  cases h with
  | null s =>
    rw [apply_null]
    exact ⟨log, rfl⟩
  | any j =>
    rw [apply_any]
    exact ⟨log, rfl⟩
  | number hsafe =>
    unfold apply narrow
    split
    · exact ⟨log, rfl⟩
    · exact ⟨_, rfl⟩
    · rename_i hpolicy hdoubtful
      rw [hsafe hpolicy] at hdoubtful
      cases hdoubtful
  | timestamp ht =>
    rw [apply_of_ofJson ht]
    exact ⟨log, rfl⟩
  | text s => exact ⟨log, rfl⟩
  | bool b => exact ⟨log, rfl⟩
  | textualId s => exact ⟨log, rfl⟩
  | numericId hi =>
    rw [apply, hi]
    exact ⟨log, rfl⟩
  | list each =>
    obtain ⟨after, hrun⟩ := each.exists_run_mapM log
    refine ⟨after, ?_⟩
    rw [apply, Logged.run_bind, hrun]
    rfl

theorem MakesEach.exists_run_mapM {inner : Shape} {items : List Json} {values : List (Option PropertyValue)}
    (h : MakesEach r inner items values) (log : List Warning) :
    ∃ after, (items.mapM (apply r inner)).run log = (.ok values, after) := by
  cases h with
  | nil => exact ⟨log, rfl⟩
  | cons first rest =>
    obtain ⟨mid, hfirst⟩ := first.exists_run log
    obtain ⟨after, hrest⟩ := rest.exists_run_mapM mid
    refine ⟨after, ?_⟩
    rw [List.mapM_cons, Logged.run_bind, hfirst]
    dsimp only
    rw [Logged.run_bind, hrest]
    rfl

end

/-! ### Numbers of a kind -/

/-- A shape that asks for no timestamp and no identifier anywhere. -/
def isGeneric : Shape → Bool
  | timestamp | id => false
  | list inner => inner.isGeneric
  | _ => true

/-- A value of which nothing was known, with the numbers narrowed where a shape names a kind. -/
def narrowed : Shape → PropertyValue → PropertyValue
  | number kind, v => v.narrow kind
  | list inner, .list items => .list (items.map inner.narrowed)
  | _, v => v

/-- A null item stays as it is. -/
theorem narrowed_null (s : Shape) : s.narrowed (.nested .null) = .nested .null := by
  cases s <;> rfl

mutual

/-- What a shape makes of a value is what the value is when nothing is known of it, narrowed. -/
theorem Makes.eq_narrowed {s : Shape} {j : Json} {v : Option PropertyValue} (h : Makes r s j v)
    (hs : s.isGeneric = true) : v = (PropertyValue.ofJson? j).map s.narrowed := by
  cases h with
  | any j =>
    have hid : any.narrowed = fun v => v := funext fun v => by cases v <;> rfl
    rw [hid, Option.map_id']
  | timestamp ht => cases hs
  | textualId s => cases hs
  | numericId hi => cases hs
  | list each =>
    rw [PropertyValue.ofJson?, Option.map_some, narrowed, each.map_eq_narrowed hs]
  | _ => rfl

theorem MakesEach.map_eq_narrowed {inner : Shape} {items : List Json} {values : List (Option PropertyValue)}
    (h : MakesEach r inner items values) (hs : inner.isGeneric = true) :
    values.map (·.getD (.nested .null)) = (PropertyValue.ofItems items).map inner.narrowed := by
  cases h with
  | nil => rfl
  | @cons _ j _ _ _ first rest =>
    have hhead : ((PropertyValue.ofJson? j).map inner.narrowed).getD (.nested .null) =
        inner.narrowed ((PropertyValue.ofJson? j).getD (.nested .null)) := by
      cases PropertyValue.ofJson? j with
      | none => exact inner.narrowed_null.symm
      | some v => rfl
    rw [List.map_cons, PropertyValue.ofItems, List.map_cons, first.eq_narrowed hs, hhead, rest.map_eq_narrowed hs]

end

end Shape

/-! ### Texts -/

namespace Registry

variable {r : Registry} {s : Shape} {text : String}

theorem ok_of_toOption {α : Type} {result : Except DecodeError α} {a : α} (h : result.toOption = some a) :
    result = .ok a := by
  cases result with
  | error e => cases h
  | ok b => rw [show b = a from Option.some.inj h]

theorem eq_ok_of_toOption {result : Except DecodeError (Option PropertyValue)} {v : PropertyValue}
    (h : result.toOption.join = some v) : result = .ok (some v) := ok_of_toOption (Option.join_eq_some_iff.1 h)

/-- The name of a target counts for errors alone. -/
theorem fromText_eq_ok_congr {α : Type} {read : Json.Reader α} (name other : String) {a : α} :
    r.fromText ⟨name, read⟩ text = .ok a ↔ r.fromText ⟨other, read⟩ text = .ok a := by
  rw [fromText_eq_ok_iff, fromText_eq_ok_iff]

/-- What a text is read as with a shape is what the shape makes of the value in it. -/
theorem fromTextShape_eq_ok_iff {v : Option PropertyValue} :
    (r.fromTextShape s text).1 = .ok v ↔ ∃ j, r.fromText Target.value text = .ok j ∧ s.Makes r j v := by
  have hname (name : String) (j : Json) : r.fromText ⟨name, Json.Reader.value Json.maxDepth⟩ text = .ok j ↔
      r.fromText Target.value text = .ok j := fromText_eq_ok_congr name Target.value.name
  constructor
  · intro h
    cases hj : r.fromText ⟨s.name, Json.Reader.value Json.maxDepth⟩ text with
    | error e =>
      rw [fromTextShape_of_error hj] at h
      cases h
    | ok j =>
      rw [fromTextShape_of_ok hj] at h
      rcases hrun : (s.apply r j).run [] with ⟨e | w, after⟩
      · rw [hrun] at h
        cases h
      · rw [hrun] at h
        obtain rfl := Except.ok.inj h
        exact ⟨j, (hname _ j).1 hj, s.ensures_makes r j [] after w hrun⟩
  · rintro ⟨j, hj, hmakes⟩
    obtain ⟨after, hrun⟩ := hmakes.exists_run []
    rw [fromTextShape_of_ok ((hname s.name j).2 hj), hrun]
    rfl

/-- **Reading with a shape is reading without one and then narrowing.**  A text that is read with a shape without
timestamps and identifiers is also read without one, and from what it is read as then the value of the shape is got
by narrowing the numbers where the shape names a kind; nulls in lists stay, and so does all that the shape says
nothing of.  So a number that is read with a kind is what a document gives for a property that holds the same JSON
value if it is asked for the kind. -/
theorem fromTextShape_eq_narrowed (hs : s.isGeneric = true) {v : Option PropertyValue}
    (h : (r.fromTextShape s text).1 = .ok v) :
    ∃ j, r.fromText Target.value text = .ok j ∧
      r.fromTextShape .any text = (.ok (PropertyValue.ofJson? j), []) ∧
      v = (PropertyValue.ofJson? j).map s.narrowed ∧
      ∀ kind, s = .number kind → ∀ (doc : ElementDoc) (key : String), doc.properties.lookup key = some j →
        doc.propertyAs? key kind = v := by
  obtain ⟨j, hj, hmakes⟩ := fromTextShape_eq_ok_iff.1 h
  have hnarrowed := hmakes.eq_narrowed hs
  have hany : r.fromText ⟨Shape.any.name, Json.Reader.value Json.maxDepth⟩ text = .ok j :=
    (fromText_eq_ok_congr Target.value.name _).1 hj
  refine ⟨j, hj, ?_, hnarrowed, ?_⟩
  · rw [fromTextShape_of_ok hany, Shape.apply_any]
    rfl
  · rintro kind rfl doc key hlookup
    rw [hnarrowed, ElementDoc.propertyAs?, ElementDoc.property?, hlookup]
    rfl

/-- The theorem on lists in a list, with nulls on both levels. -/
theorem fromTextShape_eq_narrowed_lists : ∃ v w,
    (fromTextShape {} (.list (.list (.number .int32))) "[[1,null,2.5],null]").1 = .ok (some v) ∧
      fromTextShape {} .any "[[1,null,2.5],null]" = (.ok (some w), []) ∧
      v = (Shape.list (.list (.number .int32))).narrowed w := by
  have hread : (fromTextShape {} (.list (.list (.number .int32))) "[[1,null,2.5],null]").1.toOption.join.isSome =
      true := by
    decide +kernel
  obtain ⟨v, hjoin⟩ := Option.isSome_iff_exists.1 hread
  have hv := eq_ok_of_toOption hjoin
  obtain ⟨j, -, hany, hnarrowed, -⟩ := fromTextShape_eq_narrowed rfl hv
  obtain ⟨w, hw, rfl⟩ := Option.map_eq_some_iff.1 hnarrowed.symm
  rw [hw] at hany
  exact ⟨_, w, hv, hany, rfl⟩

end Registry

end PropertyGraph
