import PropertyGraph.Shape

/-!
# What the policy on lost digits changes

A reading that warns of lost digits and one that refuses them go along together until a warning would be given;
there the one that refuses stops, whatever the other does later.  This is a relation between two computations that
their parts hand on to the whole (`Stricter.bind`, `Stricter.mapM`), so it holds of every shape
(`Shape.stricter_apply`) and of the reading of a text (`Registry.fromTextShape_reject`).
-/

namespace PropertyGraph

/-- The error that stands for a warning if lost digits are refused. -/
def Warning.refusal (w : Warning) : FormatError := .precisionLoss w.value w.kind

/-- What is left of a result if the first of the warnings before it is an error. -/
def refusing {α : Type} (result : Except FormatError α) : List Warning → Except FormatError α
  | [] => result
  | w :: _ => .error w.refusal

/-- A computation that stops with an error where another one gives its first warning, and otherwise does the same.
The other one never fails for lost digits. -/
def Stricter {α : Type} (strict lenient : Logged α) : Prop :=
  ∀ log, ∃ result warnings, lenient.run log = (result, log ++ warnings) ∧
    strict.run log = (refusing result warnings, log) ∧
    ∀ w : Warning, result ≠ .error w.refusal

variable {α β : Type}

namespace Stricter

/-- Computations without warnings are the same if neither fails for lost digits. -/
theorem of_quiet {x : Logged α} {result : Except FormatError α} (hrun : ∀ log, x.run log = (result, log))
    (hresult : ∀ w : Warning, result ≠ .error w.refusal) : Stricter x x := fun log =>
  ⟨result, [], by rw [hrun, List.append_nil], hrun log, hresult⟩

theorem pure (a : α) : Stricter (Pure.pure a) (Pure.pure a) := of_quiet (fun _ => rfl) (fun _ h => nomatch h)

theorem throw {e : FormatError} (he : ∀ w : Warning, e ≠ w.refusal) :
    Stricter (throw e : Logged α) (throw e) :=
  of_quiet (fun _ => rfl) fun w h => he w (Except.error.inj h)

theorem bind {strict lenient : Logged α} {f g : α → Logged β} (h : Stricter strict lenient)
    (hnext : ∀ a, Stricter (f a) (g a)) : Stricter (strict >>= f) (lenient >>= g) := by
  intro log
  obtain ⟨result, warnings, hlenient, hstrict, hresult⟩ := h log
  rw [Logged.run_bind, Logged.run_bind, hlenient, hstrict]
  cases result with
  | error e =>
    refine ⟨.error e, warnings, rfl, ?_, fun w he => hresult w (by rw [Except.error.inj he])⟩
    cases warnings <;> rfl
  | ok a =>
    obtain ⟨last, more, hlenient', -, hlast⟩ := hnext a (log ++ warnings)
    cases warnings with
    | cons w warnings =>
      -- the strict one has stopped here
      exact ⟨last, w :: warnings ++ more, by rw [← List.append_assoc]; exact hlenient', rfl, hlast⟩
    | nil =>
      obtain ⟨last', more', hlenient'', hstrict', hlast'⟩ := hnext a log
      refine ⟨last', more', ?_, hstrict', hlast'⟩
      rw [List.append_nil]
      exact hlenient''

theorem map {strict lenient : Logged α} (h : Stricter strict lenient) (f : α → β) :
    Stricter (f <$> strict) (f <$> lenient) := by
  rw [map_eq_pure_bind, map_eq_pure_bind]
  exact h.bind fun a => pure (f a)

theorem mapM {f g : α → Logged β} (h : ∀ a, Stricter (f a) (g a)) (xs : List α) :
    Stricter (xs.mapM f) (xs.mapM g) := by
  induction xs with
  | nil => exact pure []
  | cons x xs ih =>
    rw [List.mapM_cons, List.mapM_cons]
    exact (h x).bind fun y => ih.bind fun ys => pure (y :: ys)

end Stricter

/-! ### Shapes -/

/-- A timestamp is never refused for lost digits. -/
theorem Timestamp.ofJson_ne_refusal (format : TimestampFormat) (j : Json) (w : Warning) :
    ofJson format j ≠ .error w.refusal := by
  have hnumber (n : Json.Number) : ofNumber n ≠ .error w.refusal := by
    unfold ofNumber ofBinary
    repeat' split
    all_goals exact fun h => nomatch h
  unfold ofJson ofText
  repeat' split
  all_goals first | exact hnumber _ | exact fun h => nomatch h

theorem Shape.numericId_ne_refusal (n : Json.Number) (w : Warning) : numericId n ≠ .error w.refusal := by
  unfold numericId
  repeat' split
  all_goals exact fun h => nomatch h

namespace Shape

theorem stricter_quiet {α : Type} {result : Except FormatError α}
    (h : ∀ w : Warning, result ≠ .error w.refusal) : Stricter (quiet result) (quiet result) :=
  .of_quiet (fun _ => rfl) h

/-- The policies differ in one step: where one warns, the other refuses. -/
theorem stricter_narrow (v : PropertyValue) (kind : NumberKind) :
    Stricter (narrow .reject v kind) (narrow .warn v kind) := by
  unfold narrow
  cases v.doubtful? kind with
  | none => exact .pure _
  | some x => exact fun log => ⟨.ok (v.narrow kind), [⟨kind, x⟩], rfl, rfl, fun _ h => nomatch h⟩

/-- A registry that refuses lost digits is stricter than one that warns of them and is otherwise the same. -/
theorem stricter_apply (r : Registry) (s : Shape) (j : Json) :
    Stricter (s.apply { r with precision := .reject } j) (s.apply { r with precision := .warn } j) := by
  induction s generalizing j with
  | any =>
    rw [apply_any, apply_any]
    exact .pure _
  | number kind =>
    cases j with
    | null => exact .pure none
    | number n => exact (stricter_narrow (.float64 n.toBinary) kind).map some
    | _ => exact .throw fun _ h => nomatch h
  | timestamp =>
    cases j with
    | null => exact .pure none
    | _ => exact (stricter_quiet (Timestamp.ofJson_ne_refusal r.timestamps _)).map _
  | text =>
    cases j with
    | null => exact .pure none
    | string s => exact .pure _
    | _ => exact .throw fun _ h => nomatch h
  | bool =>
    cases j with
    | null => exact .pure none
    | bool b => exact .pure _
    | _ => exact .throw fun _ h => nomatch h
  | id =>
    cases j with
    | null => exact .pure none
    | string s => exact .pure _
    | number n => exact (stricter_quiet (numericId_ne_refusal n)).map _
    | _ => exact .throw fun _ h => nomatch h
  | list inner ih =>
    cases j with
    | null => exact .pure none
    | array items => exact (Stricter.mapM ih items).bind fun values => .pure _
    | _ => exact .throw fun _ h => nomatch h

end Shape

/-- **Warnings and refusals.**  Of two registries of which one warns of lost digits and the other refuses them, and
which are otherwise the same, both read a text with the same result if no warning is given.  If one is given, the
result of the other is the error for the value and the kind of the first warning, which the one that warns never
gives itself. -/
theorem Registry.fromTextShape_reject (r : Registry) (s : Shape) (text : String) :
    ∃ result warnings, fromTextShape { r with precision := .warn } s text = (result, warnings) ∧
      (warnings = [] → fromTextShape { r with precision := .reject } s text = (result, [])) ∧
      ∀ w later, warnings = w :: later →
        fromTextShape { r with precision := .reject } s text =
            (.error (.format (.precisionLoss w.value w.kind)), []) ∧
          ∀ value kind, result ≠ .error (.format (.precisionLoss value kind)) := by
  cases hj : r.fromText ⟨s.name, Json.Reader.value Json.maxDepth⟩ text with
  | error e =>
    refine ⟨.error e, [], fromTextShape_of_error hj, fun _ => fromTextShape_of_error hj, fun w later h => ?_⟩
    cases h
  | ok j =>
    obtain ⟨result, warnings, hlenient, hstrict, hresult⟩ := s.stricter_apply r j []
    rw [List.nil_append] at hlenient
    have hread (policy : PrecisionPolicy) : fromTextShape { r with precision := policy } s text =
        (((s.apply { r with precision := policy } j).run []).1.mapError .format,
          ((s.apply { r with precision := policy } j).run []).2) := fromTextShape_of_ok hj
    refine ⟨result.mapError .format, warnings, ?_, ?_, ?_⟩
    · rw [hread, hlenient]
    · rintro rfl
      rw [hread, hstrict]
      rfl
    · rintro w later rfl
      refine ⟨?_, fun value kind he => ?_⟩
      · rw [hread, hstrict]
        rfl
      · cases result with
        | error e => exact hresult ⟨kind, value⟩ (by rw [DecodeError.format.inj (Except.error.inj he), Warning.refusal])
        | ok v => cases he

/-- A warning counts although the reading fails later for another reason. -/
example : (Registry.fromTextShape { precision := .warn } (.list (.number .int64)) "[9007199254740993,true]").1.isOk =
      false ∧
    (Registry.fromTextShape { precision := .warn } (.list (.number .int64)) "[9007199254740993,true]").2 =
      [⟨.int64, .ofInt 9007199254740992⟩] := by
  decide +kernel

end PropertyGraph
