import PropertyGraph.Json.Record
import PropertyGraph.Proofs.Json.Skipping
import PropertyGraph.Proofs.Json.Values

/-!
# Readers of a known type and readers of values

What a reader that asks for a type makes of a text that is read as a value: it fails, or gives what the value holds
and leaves the same rest.  `Gives read s o rest` says which, and `GivesOnly read s o rest` says it of a reader that may
also fail for reasons of its own.  The key facts: strings, objects, kinds of elements and values that may be null are
given as the value has them (`gives_string`, `gives_object`, `gives_elementKind`, `gives_optional`); the members of an
object, which `exists_writtenObject` finds in the text, are taken into a record one after the other
(`WrittenObject.gives_record`); and the items of a list are taken in the order of the fields
(`WrittenList.takes_record`).
-/

namespace PropertyGraph.Json.Reader

variable {α β σ : Type} {s t u rest : List Char}

/-! ### What a reader gives -/

/-- A reader gives a value and leaves a rest, or it fails if there is no value. -/
def Gives (read : Reader α) (s : List Char) (o : Option α) (rest : List Char) : Prop :=
  ∀ a t, read.run s = .ok a t ↔ o = some a ∧ rest = t

theorem gives_of_ok {read : Reader α} {a : α} (h : read.run s = .ok a rest) : Gives read s (some a) rest := by
  intro b t
  rw [h]
  constructor
  · intro heq
    cases heq
    exact ⟨rfl, rfl⟩
  · rintro ⟨heq, rfl⟩
    cases heq
    rfl

theorem gives_none {read : Reader α} (h : ∀ a t, read.run s ≠ .ok a t) : Gives read s none rest :=
  fun a t => ⟨fun hok => absurd hok (h a t), fun hnone => nomatch hnone.1⟩

theorem gives_mismatch (found : Lead) (expected : String) : Gives (mismatch found expected : Reader α) s none rest :=
  gives_none fun _ _ h => nomatch h

theorem gives_reject (fault : ValueFault) : Gives (reject fault : Reader α) s none rest :=
  gives_none fun _ _ h => nomatch h

theorem Gives.bind {read : Reader α} {o : Option α} {f : α → Reader β} {k : α → Option β} (h : Gives read s o t)
    (hf : ∀ a, o = some a → Gives (f a) t (k a) rest) : Gives (read >>= f) s (o.bind k) rest := by
  intro b u
  rw [Option.bind_eq_some_iff]
  constructor
  · intro hrun
    obtain ⟨a, v, hread, hrun⟩ := exists_of_bind hrun
    obtain ⟨ho, rfl⟩ := (h a v).1 hread
    obtain ⟨hk, hrest⟩ := (hf a ho b u).1 hrun
    exact ⟨⟨a, ho, hk⟩, hrest⟩
  · rintro ⟨⟨a, ho, hk⟩, hrest⟩
    rw [run_bind_of_ok ((h a t).2 ⟨ho, rfl⟩)]
    exact (hf a ho b u).2 ⟨hk, hrest⟩

theorem Gives.map {read : Reader α} {o : Option α} (h : Gives read s o rest) (f : α → β) :
    Gives (f <$> read) s (o.map f) rest := by
  rw [map_eq_pure_bind, Option.map_eq_bind]
  exact h.bind fun a _ => gives_of_ok rfl

theorem gives_bind_of_ok {read : Reader α} {a : α} (h : read.run s = .ok a t) {f : α → Reader β} {o : Option β}
    (hf : Gives (f a) t o rest) : Gives (read >>= f) s o rest := by
  intro b u
  rw [run_bind_of_ok h]
  exact hf b u

/-- What stands between an opening and its closing is given if the closing is there. -/
theorem gives_enclosed {close : Reader Unit} {inside : Reader α} {o : Option α} {c : Char}
    (h : Gives inside s o t) (hclose : close.run t = .ok () rest) : Gives (enclosed close inside) (c :: s) o rest := by
  intro a u
  constructor
  · intro hrun
    obtain ⟨v, hinside, hshut⟩ := exists_of_enclosed hrun
    obtain ⟨ho, rfl⟩ := (h a v).1 hinside
    rw [hclose] at hshut
    cases hshut
    exact ⟨ho, rfl⟩
  · rintro ⟨ho, rfl⟩
    exact run_enclosed_of_ok ((h a t).2 ⟨ho, rfl⟩) hclose

/-- If a reader succeeds it gives a value and leaves a rest; it may also fail. -/
def GivesOnly (read : Reader α) (s : List Char) (o : Option α) (rest : List Char) : Prop :=
  ∀ a t, read.run s = .ok a t → o = some a ∧ rest = t

theorem Gives.only {read : Reader α} {o : Option α} (h : Gives read s o rest) : GivesOnly read s o rest :=
  fun a t hrun => (h a t).1 hrun

theorem GivesOnly.bind {read : Reader α} {o : Option α} {f : α → Reader β} {k : α → Option β}
    (h : GivesOnly read s o t) (hf : ∀ a, GivesOnly (f a) t (k a) rest) : GivesOnly (read >>= f) s (o.bind k) rest := by
  intro b u hrun
  obtain ⟨a, v, hread, hrun⟩ := exists_of_bind hrun
  obtain ⟨rfl, rfl⟩ := h a v hread
  exact hf a b u hrun

/-! ### Values of a known type -/

end Reader

/-- The text that a value is. -/
def string? : Json → Option String
  | .string s => some s
  | _ => none

/-- The members of the object that a value is. -/
def members? : Json → Option (List (String × Json))
  | .object members => some members
  | _ => none

/-- Nothing for the null value, and what any other value holds. -/
def nullable {α : Type} (o : Option α) : Json → Option (Option α)
  | .null => some none
  | _ => o.map some

namespace Reader

variable {depth : Nat} {v : Json}

theorem gives_string (h : (value depth).run s = .ok v rest) : Gives string s v.string? rest := by
  obtain ⟨found, t, hlead, -, hreads⟩ := readsAs_of_run h
  unfold string
  refine gives_bind_of_ok hlead ?_
  cases hreads with
  | scalar =>
    cases v with
    | string x => exact gives_of_ok rfl
    | _ => exact gives_mismatch _ _
  | list => exact gives_mismatch _ _
  | object => exact gives_mismatch _ _

/-- A scalar has no members. -/
theorem Leads.members?_eq_none (h : Leads s (.scalar v) rest) : v.members? = none := by
  cases h with
  | word hword => cases hword <;> rfl
  | _ => rfl

theorem gives_object (h : (value depth).run s = .ok v rest) : Gives (object depth) s v.members? rest := by
  obtain ⟨found, t, hlead, hleads, hreads⟩ := readsAs_of_run h
  unfold object
  refine gives_bind_of_ok hlead ?_
  cases hreads with
  | scalar =>
    rw [hleads.members?_eq_none]
    exact gives_mismatch _ _
  | list => exact gives_mismatch _ _
  | object hmembers hclose => exact gives_enclosed (gives_of_ok hmembers) hclose

/-- The name of a kind of elements gives the kind; the other form, an object, is left out here. -/
theorem gives_elementKind (h : (value depth).run s = .ok v rest) (hobject : ∀ ms, v ≠ .object ms) :
    Gives (elementKind depth) s (v.string?.bind ElementKind.ofName?) rest := by
  obtain ⟨found, t, hlead, hleads, hreads⟩ := readsAs_of_run h
  rw [← run_lead_dropWhile] at hlead
  unfold elementKind
  refine gives_bind_of_ok (run_peekToken _) ?_
  generalize s.dropWhile isJsonBlank = start at hlead hleads
  have hother (fault : SyntaxFault) : Gives (failAtNext fault : Reader ElementKind) start none rest :=
    gives_none fun _ _ h => nomatch h
  cases hleads with
  | word hword =>
    cases hreads
    cases hword <;> exact hother _
  | string =>
    cases hreads
    refine gives_bind_of_ok hlead ?_
    show Gives _ _ (ElementKind.ofName? _) _
    dsimp only
    cases ElementKind.ofName? _ with
    | none => exact gives_none fun _ _ h => nomatch h
    | some kind => exact gives_of_ok rfl
  | negative =>
    cases hreads
    exact hother _
  | @number c t _ n hdigit _ =>
    cases hreads
    rw [List.head?_cons]
    split
    · rename_i heq
      obtain rfl := Option.some.inj heq
      contradiction
    · rename_i heq
      obtain rfl := Option.some.inj heq
      contradiction
    · exact hother _
    · exact hother _
  | list =>
    cases hreads
    exact hother _
  | object =>
    cases hreads
    exact absurd rfl (hobject _)

/-- A value that may be null is given as nothing if it is null, and as the value otherwise. -/
theorem gives_optional {read : Reader α} {o : Option α} (h : (value depth).run s = .ok v rest)
    (hread : Gives read (s.dropWhile isJsonBlank) o rest) : Gives (optional read) s (v.nullable o) rest := by
  obtain ⟨found, t, -, hleads, hreads⟩ := readsAs_of_run h
  unfold optional
  refine gives_bind_of_ok (run_peekToken _) ?_
  generalize s.dropWhile isJsonBlank = start at hleads hread
  cases hleads with
  | word hword hliteral =>
    cases hreads
    cases hword
    · refine gives_bind_of_ok (run_advance _) (gives_bind_of_ok hliteral (gives_of_ok rfl))
    · exact hread.map some
    · exact hread.map some
  | string =>
    cases hreads
    exact hread.map some
  | negative =>
    cases hreads
    exact hread.map some
  | @number c t _ n hdigit _ =>
    cases hreads
    rw [List.head?_cons]
    split
    · rename_i heq
      obtain rfl := Option.some.inj heq
      contradiction
    · exact hread.map some
  | list =>
    cases hreads
    exact hread.map some
  | object =>
    cases hreads
    exact hread.map some

/-! ### Members -/

/-- The members of an object as they are written, from one on: each has a key and, behind a colon, a value. -/
inductive Written (depth : Nat) : Room → Bool → List Char → List (String × Json) → List Char → Prop
  | close {c : Char} {room : Room} {first : Bool} {s rest : List Char} (h : (hasMember first).run s = .ok false rest) :
      Written depth (c :: room) first s [] rest
  | member {c : Char} {room : Room} {first : Bool} {s behindQuote behindKey behindColon behindValue rest : List Char}
      {key : String} {v : Json} {written : List (String × Json)}
      (hmore : (hasMember first).run s = .ok true behindQuote)
      (hkey : stringBody.run behindQuote = .ok key behindKey) (hcolon : colon.run behindKey = .ok () behindColon)
      (hvalue : (value depth).run behindColon = .ok v behindValue)
      (htail : Written depth room false behindValue written rest) :
      Written depth (c :: room) first s ((key, v) :: written) rest

/-- An object is read from members that are written in the text. -/
theorem exists_written {room : Room} {first : Bool} {before ms : List (String × Json)}
    (h : (membersAfter (memberWith (value depth)) room first before).run s = .ok ms rest) :
    ∃ written : List (String × Json), ms = written.foldl (fun before m => insert m.1 m.2 before) before ∧
      Written depth room first s written rest := by
  induction room generalizing s first before with
  | nil => cases h
  | cons _ room ih =>
    unfold membersAfter at h
    obtain ⟨more, t, hmore, h⟩ := exists_of_bind h
    cases more with
    | false =>
      cases h
      exact ⟨[], rfl, .close hmore⟩
    | true =>
      rw [if_pos rfl] at h
      obtain ⟨key, behindKey, hkey, h⟩ := exists_of_bind h
      obtain ⟨next, behindValue, hmember, h⟩ := exists_of_bind h
      obtain ⟨_, behindColon, hcolon, hmember⟩ := exists_of_bind hmember
      obtain ⟨v, _, hvalue, hpure⟩ := exists_of_bind hmember
      cases hpure
      obtain ⟨written, rfl, hwritten⟩ := ih h
      exact ⟨(key, v) :: written, rfl, .member hmore hkey hcolon hvalue hwritten⟩

/-- A reader of members does with each member of a list, whose value stands behind a colon, what `step` says. -/
def Follows (depth : Nat) (written : List (String × Json)) (member : String → σ → Reader σ)
    (step : σ → String × Json → Option σ) : Prop :=
  ∀ m ∈ written, ∀ {s t rest : List Char}, colon.run s = .ok () t → (value depth).run t = .ok m.2 rest →
    ∀ state, Gives (member m.1 state) s (step state m) rest

theorem Written.gives {room : Room} {first : Bool} {written : List (String × Json)}
    (h : Written depth room first s written rest) {member : String → σ → Reader σ}
    {step : σ → String × Json → Option σ} (hfollows : Follows depth written member step) (state : σ) :
    Gives (membersAfter member room first state) s (written.foldlM step state) rest := by
  induction h generalizing state with
  | close hmore =>
    unfold membersAfter
    exact gives_bind_of_ok hmore (gives_of_ok rfl)
  | member hmore hkey hcolon hvalue _ ih =>
    unfold membersAfter
    refine gives_bind_of_ok hmore (gives_bind_of_ok hkey ?_)
    obtain ⟨hhead, htail⟩ := List.forall_mem_cons.1 hfollows
    exact (hhead hcolon hvalue state).bind fun after _ => ih htail after

/-! ### Records -/

/-- The draft after a member: a field that is read for the first time, or a member that is skipped. -/
def takeMember (fields : List (Field σ)) (take : σ → String × Json → Option σ) (draft : σ) (m : String × Json) :
    Option σ :=
  match fields.find? (·.name == m.1) with
  | some field => if field.isSet draft then none else take draft m
  | none => some draft

/-- A draft in which no required field is missing. -/
def complete (fields : List (Field σ)) (draft : σ) : Option σ :=
  match fields.find? fun field => field.presence == .required && !field.isSet draft with
  | some _ => none
  | none => some draft

/-- The values of fields that are among the members are taken into the draft as `take` says. -/
def TakesFields (depth : Nat) (fields : List (Field σ)) (take : σ → String × Json → Option σ)
    (written : List (String × Json)) : Prop :=
  ∀ m ∈ written, ∀ field ∈ fields, field.name = m.1 → ∀ {s rest : List Char}, (value depth).run s = .ok m.2 rest →
    ∀ draft, Gives (field.read depth draft) s (take draft m) rest

theorem TakesFields.follows {fields : List (Field σ)} {take : σ → String × Json → Option σ}
    {written : List (String × Json)} (h : TakesFields depth fields take written) :
    Follows depth written (readMember depth fields) (takeMember fields take) := by
  intro m hm s t rest hcolon hvalue draft
  unfold readMember takeMember
  cases hfind : fields.find? (·.name == m.1) with
  | none => exact gives_bind_of_ok hcolon (gives_bind_of_ok (run_skip_of_value hvalue) (gives_of_ok rfl))
  | some field =>
    dsimp only
    unfold readField
    split
    · exact gives_reject _
    · have hname : field.name = m.1 := by simpa using List.find?_some hfind
      exact gives_bind_of_ok hcolon (h m hm field (List.mem_of_find?_eq_some hfind) hname hvalue draft)

/-- The fields that take a value at all take it as `take` says. -/
def TakesOnly (depth : Nat) (fields : List (Field σ)) (take : σ → String × Json → Option σ) : Prop :=
  ∀ field ∈ fields, ∀ {v : Json} {s rest : List Char}, (value depth).run s = .ok v rest →
    ∀ draft, GivesOnly (field.read depth draft) s (take draft (field.name, v)) rest

/-- A member that is read, its value behind a colon, is taken into the draft, and what comes behind it is left. -/
theorem TakesOnly.eq_of_readMember {fields : List (Field σ)} {take : σ → String × Json → Option σ}
    (h : TakesOnly depth fields take) {key : String} (hcolon : colon.run s = .ok () t)
    (hvalue : (value depth).run t = .ok v rest) {draft next : σ}
    (hrun : (readMember depth fields key draft).run s = .ok next u) :
    takeMember fields take draft (key, v) = some next ∧ rest = u := by
  unfold readMember at hrun
  unfold takeMember
  cases hfind : fields.find? (·.name == key) with
  | none =>
    rw [hfind] at hrun
    dsimp only at hrun
    rw [run_bind_of_ok hcolon, run_bind_of_ok (run_skip_of_value hvalue)] at hrun
    cases hrun
    exact ⟨rfl, rfl⟩
  | some field =>
    rw [hfind] at hrun
    obtain rfl : field.name = key := by simpa using List.find?_some hfind
    dsimp only at hrun ⊢
    unfold readField at hrun
    split at hrun
    · cases hrun
    · rename_i hunset
      rw [run_bind_of_ok hcolon] at hrun
      rw [if_neg hunset]
      exact h field (List.mem_of_find?_eq_some hfind) hvalue draft next u hrun

private theorem gives_readMembers {form : Record σ} {take : σ → String × Json → Option σ}
    {written : List (String × Json)} {draft : σ}
    (h : Gives (members (readMember depth form.fields) draft) s (written.foldlM (takeMember form.fields take) draft)
      rest) : Gives (readMembers depth form draft) s
        ((written.foldlM (takeMember form.fields take) draft).bind (complete form.fields)) rest := by
  unfold readMembers
  refine h.bind fun after _ => ?_
  unfold complete
  cases form.fields.find? fun field => field.presence == .required && !field.isSet after with
  | some field => exact gives_reject _
  | none => exact gives_of_ok rfl

/-! ### Objects -/

/-- Reads a member of an object behind the members that came before, whatever their keys. -/
def memberBehind (depth : Nat) (key : String) (before : List (String × Json)) : Reader (List (String × Json)) := do
  colon
  let v ← value depth
  pure (before ++ [(key, v)])

/-- Reads the members of an object as they are written, each of those that share a key. -/
def writtenMembers (depth : Nat) : Reader (List (String × Json)) := do
  match ← lead with
  | .object => nested depth fun depth => enclosed endObject (members (memberBehind depth) [])
  | found => mismatch found "a map"

theorem follows_memberBehind (depth : Nat) (written : List (String × Json)) :
    Follows depth written (memberBehind depth) fun before m => some (before ++ [m]) := by
  intro m _ s t rest hcolon hvalue before
  exact gives_bind_of_ok hcolon (gives_bind_of_ok hvalue (gives_of_ok rfl))

private theorem foldlM_behind (written before : List (String × Json)) :
    written.foldlM (fun before m => some (before ++ [m])) before = some (before ++ written) := by
  induction written generalizing before with
  | nil =>
    rw [List.append_nil]
    rfl
  | cons m written ih =>
    rw [List.foldlM_cons]
    exact (ih (before ++ [m])).trans (by rw [List.append_assoc, List.singleton_append])

/-- The fields of a record that are read from members are taken one after the other. -/
theorem Written.takes_fields {fields : List (Field σ)} {take : σ → String × Json → Option σ}
    {room : Room} {first : Bool} {written : List (String × Json)} {draft after : σ}
    (h : Written depth room first s written rest) (htakes : TakesOnly depth fields take)
    (hrun : (membersAfter (readMember depth fields) room first draft).run s = .ok after u) :
    written.foldlM (takeMember fields take) draft = some after := by
  induction h generalizing draft with
  | close hmore =>
    unfold membersAfter at hrun
    rw [run_bind_of_ok hmore, if_neg Bool.false_ne_true] at hrun
    cases hrun
    rfl
  | member hmore hkey hcolon hvalue _ ih =>
    unfold membersAfter at hrun
    rw [run_bind_of_ok hmore, if_pos rfl, run_bind_of_ok hkey] at hrun
    obtain ⟨next, behind, hread, hrun⟩ := exists_of_bind hrun
    obtain ⟨hnext, rfl⟩ := htakes.eq_of_readMember hcolon hvalue hread
    rw [List.foldlM_cons]
    exact (congrArg (Option.bind · _) hnext).trans (ih hrun)

/-- An object as it is written between its braces. -/
inductive WrittenObject (depth : Nat) (s : List Char) (written : List (String × Json)) (rest : List Char) : Prop
  | intro {inner behind : List Char} (hlead : lead.run s = .ok .object ('\x7b' :: inner))
      (hmembers : Written depth (' ' :: inner) true inner written behind) (hclose : endObject.run behind = .ok () rest)

theorem exists_writtenObject {ms : List (String × Json)} (h : (value (depth + 1)).run s = .ok (.object ms) rest) :
    ∃ written : List (String × Json), ms = ofMembers written ∧ WrittenObject depth s written rest := by
  obtain ⟨found, t, hlead, hleads, hreads⟩ := readsAs_of_run h
  cases hreads with
  | scalar => exact nomatch hleads.members?_eq_none
  | object hmembers hclose =>
    obtain ⟨written, hms, hwritten⟩ := exists_written hmembers
    exact ⟨written, hms, .intro hlead hwritten hclose⟩

namespace WrittenObject

variable {written : List (String × Json)}

theorem run_writtenMembers (h : WrittenObject depth s written rest) :
    (writtenMembers (depth + 1)).run s = .ok written rest := by
  obtain ⟨hlead, hmembers, hclose⟩ := h
  have hbehind := hmembers.gives (follows_memberBehind depth written) []
  rw [foldlM_behind, List.nil_append] at hbehind
  exact ((gives_bind_of_ok hlead (gives_enclosed hbehind hclose) : Gives (writtenMembers (depth + 1)) s _ _)
    written rest).2 ⟨rfl, rfl⟩

/-- A record takes the written members one after the other and then has to be complete. -/
theorem gives_record (h : WrittenObject depth s written rest) {form : Record σ}
    {take : σ → String × Json → Option σ} (htakes : TakesFields depth form.fields take written) (draft : σ) :
    Gives (record form draft (depth + 1)) s
      ((written.foldlM (takeMember form.fields take) draft).bind (complete form.fields)) rest := by
  obtain ⟨hlead, hmembers, hclose⟩ := h
  exact gives_bind_of_ok hlead (gives_enclosed (gives_readMembers (hmembers.gives htakes.follows draft)) hclose)

/-- A record that is read from an object has taken the written members one after the other and is complete. -/
theorem takes_record (h : WrittenObject depth s written rest) {form : Record σ}
    {take : σ → String × Json → Option σ} (htakes : TakesOnly depth form.fields take) {draft after : σ}
    (hrun : (record form draft (depth + 1)).run s = .ok after t) :
    written.foldlM (takeMember form.fields take) draft = some after ∧ complete form.fields after = some after := by
  obtain ⟨hlead, hmembers, hclose⟩ := h
  unfold record at hrun
  rw [run_bind_of_ok hlead] at hrun
  obtain ⟨u, hread, -⟩ := exists_of_enclosed hrun
  unfold readMembers at hread
  obtain ⟨last, behind, hread, hcheck⟩ := exists_of_bind hread
  unfold complete
  split at hcheck
  · cases hcheck
  · rename_i hnone
    cases hcheck
    exact ⟨hmembers.takes_fields htakes hread, by rw [hnone]⟩

end WrittenObject

/-! ### Lists -/

/-- The items of a list as they are written, from one on. -/
inductive WrittenItems (depth : Nat) : Room → Bool → List Char → List Json → List Char → Prop
  | close {c : Char} {room : Room} {first : Bool} {s rest : List Char} (h : (hasItem first).run s = .ok false rest) :
      WrittenItems depth (c :: room) first s [] rest
  | item {c : Char} {room : Room} {first : Bool} {s t behindValue rest : List Char} {v : Json} {items : List Json}
      (hmore : (hasItem first).run s = .ok true t) (hvalue : (value depth).run t = .ok v behindValue)
      (htail : WrittenItems depth room false behindValue items rest) :
      WrittenItems depth (c :: room) first s (v :: items) rest

theorem exists_writtenItems {room : Room} {first : Bool} {before vs : List Json}
    (h : (itemsAfter (value depth) room first before).run s = .ok vs rest) :
    ∃ items : List Json, vs = before.reverse ++ items ∧ WrittenItems depth room first s items rest := by
  induction room generalizing s first before with
  | nil => cases h
  | cons _ room ih =>
    unfold itemsAfter at h
    obtain ⟨more, t, hmore, h⟩ := exists_of_bind h
    cases more with
    | false =>
      cases h
      exact ⟨[], (List.append_nil _).symm, .close hmore⟩
    | true =>
      rw [if_pos rfl] at h
      obtain ⟨v, behindValue, hvalue, h⟩ := exists_of_bind h
      obtain ⟨items, rfl, hitems⟩ := ih h
      exact ⟨v :: items, by rw [List.reverse_cons, List.append_assoc, List.singleton_append], .item hmore hvalue hitems⟩

/-- A list as it is written between its brackets. -/
inductive WrittenList (depth : Nat) (s : List Char) (items : List Json) (rest : List Char) : Prop
  | intro {inner behind : List Char} (hlead : lead.run s = .ok .list ('[' :: inner))
      (hitems : WrittenItems depth (' ' :: inner) true inner items behind) (hclose : endList.run behind = .ok () rest)

theorem writtenList_of_run {items : List Json} (h : (value (depth + 1)).run s = .ok (.array items) rest) :
    WrittenList depth s items rest := by
  obtain ⟨found, t, hlead, hleads, hreads⟩ := readsAs_of_run h
  generalize s.dropWhile isJsonBlank = start at hleads
  cases hreads with
  | scalar =>
    cases hleads with
    | word hword => cases hword
  | list hitems hclose =>
    obtain ⟨written, rfl, hwritten⟩ := exists_writtenItems hitems
    exact .intro hlead hwritten hclose

/-- Where a list can be closed it has no further item. -/
theorem WrittenItems.eq_nil_of_close {room : Room} {first : Bool} {items : List Json}
    (h : WrittenItems depth room first s items t) (hclose : endList.run s = .ok () rest) : items = [] := by
  cases h with
  | close => rfl
  | item hmore =>
    have hhas := hasItem_of_run hmore
    rw [eq_of_endList hclose] at hhas
    cases hhas with
    | first _ hc => exact absurd rfl hc

/-- The fields of a record that are read from a list are its items in order: there is no item behind them, and
fields without an item have a default. -/
theorem WrittenItems.takes_fields {form : Record σ} {take : σ → String × Json → Option σ} {fields : List (Field σ)}
    {room : Room} {index : Nat} {items : List Json} {draft after : σ}
    (h : WrittenItems depth room (index == 0) s items t)
    (htakes : TakesOnly depth fields take) {u : List Char}
    (hrun : (readItems depth form index fields draft).run s = .ok after u)
    (hclose : endList.run u = .ok () rest) :
    ((fields.map (·.name)).zip items).foldlM take draft = some after ∧ items.length ≤ fields.length ∧
      ∀ field ∈ fields.drop items.length, field.presence = .defaulted := by
  induction fields generalizing s room index items draft with
  | nil =>
    cases hrun
    obtain rfl := h.eq_nil_of_close hclose
    exact ⟨rfl, Nat.le_refl 0, nofun⟩
  | cons field fields ih =>
    obtain ⟨htakesHead, htakes⟩ := List.forall_mem_cons.1 htakes
    unfold readItems at hrun
    cases h with
    | @close c room first s behind hmore =>
      rw [run_bind_of_ok hmore, if_neg Bool.false_ne_true] at hrun
      split at hrun
      · rename_i hdefault
        -- the closing bracket stays for the fields that follow
        obtain ⟨v, rfl⟩ := exists_eq_of_hasItem_false hmore
        have hnone : WrittenItems depth (c :: room) (index + 1 == 0) (']' :: v) [] (']' :: v) :=
          .close (run_hasItem_close _ v)
        obtain ⟨hfold, -, hdefaults⟩ := ih hnone htakes hrun
        rw [List.zip_nil_right] at hfold ⊢
        exact ⟨hfold, Nat.zero_le _, List.forall_mem_cons.2 ⟨hdefault, hdefaults⟩⟩
      · cases hrun
    | @item _ room _ _ _ behindValue _ v items hmore hvalue htail =>
      rw [run_bind_of_ok hmore, if_pos rfl] at hrun
      have htail : WrittenItems depth room (index + 1 == 0) behindValue items t := htail
      obtain ⟨next, behind, hread, hrun⟩ := exists_of_bind hrun
      obtain ⟨hnext, rfl⟩ := htakesHead hvalue draft next behind hread
      obtain ⟨hfold, hlength, hdefaults⟩ := ih htail htakes hrun
      rw [List.map_cons, List.zip_cons_cons, List.foldlM_cons]
      exact ⟨(congrArg (Option.bind · _) hnext).trans hfold, Nat.succ_le_succ hlength, hdefaults⟩

/-- A record that is read from a list has taken the items in order as its fields. -/
theorem WrittenList.takes_record {items : List Json} (h : WrittenList depth s items rest) {form : Record σ}
    {take : σ → String × Json → Option σ} (htakes : TakesOnly depth form.fields take) {draft after : σ}
    (hrun : (record form draft (depth + 1)).run s = .ok after t) :
    ((form.fields.map (·.name)).zip items).foldlM take draft = some after ∧ items.length ≤ form.fields.length ∧
      ∀ field ∈ form.fields.drop items.length, field.presence = .defaulted := by
  obtain ⟨hlead, hitems, hclose⟩ := h
  unfold record at hrun
  rw [run_bind_of_ok hlead] at hrun
  obtain ⟨u, hread, hshut⟩ := exists_of_enclosed hrun
  have hfirst : WrittenItems depth _ (0 == 0) _ items _ := hitems
  exact hfirst.takes_fields htakes hread hshut

/-- A value that is read as a record is a list or an object. -/
theorem array_or_object_of_record {form : Record σ} {draft after : σ} (h : (value depth).run s = .ok v rest)
    (hrun : (record form draft depth).run s = .ok after t) :
    ∃ n, depth = n + 1 ∧ ((∃ items, v = .array items) ∨ ∃ ms, v = .object ms) := by
  obtain ⟨found, u, hlead, -, hreads⟩ := readsAs_of_run h
  unfold record at hrun
  rw [run_bind_of_ok hlead] at hrun
  cases hreads with
  | scalar => exact nomatch hrun
  | list => exact ⟨_, rfl, .inl ⟨_, rfl⟩⟩
  | object => exact ⟨_, rfl, .inr ⟨_, rfl⟩⟩

end PropertyGraph.Json.Reader
