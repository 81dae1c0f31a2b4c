import PropertyGraph.Proofs.Json.Agreement

/-!
# Readers of a type and the values that they accept

A reader that asks for a type succeeds where a value is read that has the type, and nowhere else.  `Agrees read depth
holds` says so of a reader, for what it takes from a value: unlike `Gives` it does not start from a value that was
read.  The key facts: a timestamp is taken from a number (`agrees_timestamp`), a value that may be null or the items
of a list from a value in the same way (`Agrees.optional`, `Agrees.list`), and so a text is read with the type if it
is read as a value that has it (`Agrees.ofText_eq_ok_iff`).
-/

namespace PropertyGraph.Json.Reader

variable {β : Type} {depth : Nat} {s t rest : List Char}

/-- A reader succeeds where a value is read that holds something, with that and with the same rest. -/
def Agrees (read : Reader β) (depth : Nat) (holds : Json → β → Prop) : Prop :=
  ∀ s b rest, read.run s = .ok b rest ↔ ∃ j, (value depth).run s = .ok j rest ∧ holds j b

theorem agrees_value (depth : Nat) : Agrees (value depth) depth (· = ·) := by
  intro s b rest
  constructor
  · intro h
    exact ⟨b, h, rfl⟩
  · rintro ⟨j, h, rfl⟩
    exact h

/-! ### Timestamps -/

theorem run_value_number_iff {n : Number} :
    (value depth).run s = .ok (.number n) rest ↔ lead.run s = .ok (.scalar (.number n)) rest := by
  constructor
  · intro h
    obtain ⟨found, t, hlead, -, hreads⟩ := readsAs_of_run h
    cases hreads
    exact hlead
  · exact run_value_scalar

/-- Where a number stands the fault of a timestamp is the error of the number, placed behind it. -/
theorem run_timestamp_of_number {n : Number} (h : lead.run s = .ok (.scalar (.number n)) rest) (levels : Nat) :
    (timestamp levels).run s = match Timestamp.ofRead n with
      | .ok t => .ok t rest
      | .error e => .error ⟨.value (.format e), some (byteLength rest)⟩ rest := by
  unfold timestamp
  rw [run_bind_of_ok h]
  dsimp only
  cases Timestamp.ofRead n <;> rfl

private theorem not_enclosed_reject_ok {close : Reader Unit} {fault : ValueFault} {b : β} :
    ¬(enclosed close (reject fault)).run s = .ok b rest := by
  intro h
  rw [run_enclosed, show (reject fault : Reader β).run s.tail = .error ⟨.value fault, none⟩ s.tail from rfl] at h
  dsimp only at h
  split at h <;> exact absurd h not_placed_throw_ok

theorem agrees_timestamp (levels depth : Nat) :
    Agrees (timestamp levels) depth fun j t => ∃ n, j = .number n ∧ Timestamp.ofRead n = .ok t := by
  intro s t rest
  constructor
  · intro h
    obtain ⟨found, u, hlead, hread⟩ := exists_of_bind h
    cases found with
    | scalar j =>
      cases j with
      | number n =>
        rw [run_timestamp_of_number hlead] at h
        cases hn : Timestamp.ofRead n with
        | ok t' =>
          rw [hn] at h
          cases h
          exact ⟨.number n, run_value_scalar hlead, n, rfl, hn⟩
        | error e =>
          rw [hn] at h
          cases h
      | _ => cases hread
    | list =>
      cases levels with
      | zero => cases hread
      | succ levels => exact absurd hread not_enclosed_reject_ok
    | object =>
      cases levels with
      | zero => cases hread
      | succ levels => exact absurd hread not_enclosed_reject_ok
  · rintro ⟨j, hj, n, rfl, hn⟩
    rw [run_timestamp_of_number (run_value_number_iff.1 hj), hn]

/-! ### Lists and values that may be null -/

namespace Agrees

variable {read : Reader β} {item : Nat → Reader β} {holds : Json → β → Prop}

theorem run_itemsAfter_iff (h : Agrees read depth holds) {room : Room} {first : Bool} {before bs : List β} :
    (itemsAfter read room first before).run s = .ok bs rest ↔
      ∃ js ys, WrittenItems depth room first s js rest ∧ List.Forall₂ holds js ys ∧ bs = before.reverse ++ ys := by
  induction room generalizing s first before with
  | nil =>
    constructor
    · intro hrun
      cases hrun
    · rintro ⟨js, ys, hitems, -⟩
      cases hitems
  | cons _ room ih =>
    unfold itemsAfter
    constructor
    · intro hrun
      obtain ⟨more, t, hmore, hrun⟩ := exists_of_bind hrun
      cases more with
      | false =>
        cases hrun
        exact ⟨[], [], .close hmore, .nil, (List.append_nil _).symm⟩
      | true =>
        rw [if_pos rfl] at hrun
        obtain ⟨b, u, hread, hrun⟩ := exists_of_bind hrun
        obtain ⟨j, hvalue, hb⟩ := (h t b u).1 hread
        obtain ⟨js, ys, hitems, hys, rfl⟩ := ih.1 hrun
        refine ⟨j :: js, b :: ys, .item hmore hvalue hitems, .cons hb hys, ?_⟩
        rw [List.reverse_cons, List.append_assoc, List.singleton_append]
    · rintro ⟨js, ys, hitems, hys, rfl⟩
      cases hitems with
      | close hmore =>
        cases hys
        rw [run_bind_of_ok hmore, if_neg Bool.false_ne_true, List.append_nil]
        rfl
      | item hmore hvalue hitems =>
        rename_i t u j js
        cases hys with
        | cons hb hys =>
          rename_i b ys
          rw [run_bind_of_ok hmore, if_pos rfl, run_bind_of_ok ((h t b u).2 ⟨j, hvalue, hb⟩)]
          refine ih.2 ⟨js, ys, hitems, hys, ?_⟩
          rw [List.reverse_cons, List.append_assoc, List.singleton_append]

/-- A list of a type is read where a list of values is read all of which have the type. -/
theorem list (h : Agrees (item depth) depth holds) :
    Agrees (list item (depth + 1)) (depth + 1) fun j bs => ∃ js, j = .array js ∧ List.Forall₂ holds js bs := by
  intro s bs rest
  constructor
  · intro hrun
    obtain ⟨found, t, hlead, hrun⟩ := exists_of_bind hrun
    have hleads := leads_of_run hlead
    generalize s.dropWhile isJsonBlank = start at hleads
    cases hleads with
    | list u =>
      obtain ⟨v, hitems, hclose⟩ := exists_of_enclosed hrun
      obtain ⟨js, ys, hwritten, hys, rfl⟩ := h.run_itemsAfter_iff.1 hitems
      have hvalues : (items (value depth)).run u = .ok js v :=
        (agrees_value depth).run_itemsAfter_iff.2 ⟨js, js, hwritten, List.forall₂_refl js, rfl⟩
      refine ⟨.array js, ?_, js, rfl, hys⟩
      unfold value valueWith
      rw [run_bind_of_ok hlead]
      exact run_map_of_ok (run_enclosed_of_ok hvalues hclose) _
    | _ => cases hrun
  · rintro ⟨j, hj, js, rfl, hys⟩
    obtain ⟨hlead, hitems, hclose⟩ := writtenList_of_run hj
    unfold Reader.list
    rw [run_bind_of_ok hlead]
    exact run_enclosed_of_ok (h.run_itemsAfter_iff.2 ⟨js, bs, hitems, hys, rfl⟩) hclose

/-- What may be null is read where a null value is read or a value that has the type. -/
theorem optional (h : Agrees read depth holds) (hnull : ∀ b, ¬holds .null b) :
    Agrees (optional read) depth fun j o => (j = .null ∧ o = none) ∨ ∃ b, holds j b ∧ o = some b := by
  intro s o rest
  constructor
  · intro hrun
    unfold Reader.optional at hrun
    rw [run_bind_of_ok (run_peekToken _)] at hrun
    split at hrun
    · rename_i hhead
      obtain ⟨t, ht⟩ := List.head?_eq_some_iff.1 hhead
      rw [ht, run_bind_of_ok (run_advance _), List.tail_cons] at hrun
      obtain ⟨_, u, hliteral, hpure⟩ := exists_of_bind hrun
      cases hpure
      have hlead : lead.run s = .ok (.scalar .null) rest := by
        rw [← run_lead_dropWhile, ht, eq_of_literal hliteral]
        rfl
      exact ⟨.null, run_value_scalar hlead, .inl ⟨rfl, rfl⟩⟩
    · obtain ⟨b, hread, rfl⟩ := exists_of_map hrun
      obtain ⟨j, hj, hb⟩ := (h _ b rest).1 hread
      rw [run_value_dropWhile] at hj
      exact ⟨j, hj, .inr ⟨b, hb, rfl⟩⟩
  · rintro ⟨j, hj, ⟨rfl, rfl⟩ | ⟨b, hb, rfl⟩⟩
    · have hnone : Gives read (s.dropWhile isJsonBlank) none rest := by
        refine gives_none fun b t hread => ?_
        obtain ⟨j, hother, hb⟩ := (h _ b t).1 hread
        rw [run_value_dropWhile, hj] at hother
        cases hother
        exact hnull b hb
      exact (gives_optional hj hnone none rest).2 ⟨rfl, rfl⟩
    · have hread : read.run (s.dropWhile isJsonBlank) = .ok b rest :=
        (h _ b rest).2 ⟨j, by rw [run_value_dropWhile, hj], hb⟩
      have hholds : j.nullable (some b) = some (some b) := by
        cases j with
        | null => exact absurd hb (hnull b)
        | _ => rfl
      exact (gives_optional hj (gives_of_ok hread) (some b) rest).2 ⟨hholds, rfl⟩

theorem ofText_eq_ok_iff (h : Agrees read depth holds) {text : List Char} {b : β} :
    ofText read text = .ok b ↔ ∃ j, ofText (value depth) text = .ok j ∧ holds j b := by
  rw [Reader.ofText_eq_ok_iff]
  constructor
  · rintro ⟨rest, hrun, hblanks⟩
    obtain ⟨j, hj, hb⟩ := (h text b rest).1 hrun
    exact ⟨j, Reader.ofText_eq_ok_iff.2 ⟨rest, hj, hblanks⟩, hb⟩
  · rintro ⟨j, hj, hb⟩
    obtain ⟨rest, hrun, hblanks⟩ := Reader.ofText_eq_ok_iff.1 hj
    exact ⟨rest, (h text b rest).2 ⟨j, hrun, hb⟩, hblanks⟩

end Agrees

end PropertyGraph.Json.Reader
