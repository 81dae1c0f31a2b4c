import PropertyGraph.Proofs.Json.Values

/-!
# Levels that are used up

A reader of values goes down a number of levels and no further.  A smaller number changes nothing but this: the
reader does what it did, or it stops because its levels are used up, and its fault says so.  The relation between
the two readers is handed on by everything that readers are put together from (`Limits.bind`, `Limits.enclosed`,
`Limits.items`, `Limits.members`), so it holds of the readers of values (`limits_value`); and so a text that nests
deeper than there are levels is refused for just that (`Spells.exhausted`).
-/

namespace PropertyGraph.Json.Reader

variable {α β σ : Type}

/-- A run that stops because all levels are used up. -/
def Exhausted (read : Reader α) (s : List Char) : Prop :=
  ∃ unread rest, read.run s = .error ⟨.text .depth, some unread⟩ rest

/-- A reader that does what another one does, or stops because its levels are used up. -/
def Limits (low high : Reader α) : Prop := ∀ s, low.run s = high.run s ∨ Exhausted low s

theorem exhausted_failAtNext (s : List Char) : Exhausted (failAtNext .depth : Reader α) s := ⟨_, _, rfl⟩

theorem Exhausted.bind {read : Reader α} {s : List Char} (h : Exhausted read s) (f : α → Reader β) :
    Exhausted (read >>= f) s := by
  obtain ⟨unread, rest, hread⟩ := h
  exact ⟨unread, rest, by rw [EStateM.run_bind, hread]⟩

theorem exhausted_bind_of_ok {read : Reader α} {s t : List Char} {a : α} (h : read.run s = .ok a t)
    {f : α → Reader β} (hnext : Exhausted (f a) t) : Exhausted (read >>= f) s := by
  obtain ⟨unread, rest, hrun⟩ := hnext
  exact ⟨unread, rest, by rw [run_bind_of_ok h, hrun]⟩

namespace Limits

theorem refl (read : Reader α) : Limits read read := fun _ => .inl rfl

theorem bind {low high : Reader α} {f g : α → Reader β} (h : Limits low high) (hnext : ∀ a, Limits (f a) (g a)) :
    Limits (low >>= f) (high >>= g) := by
  intro s
  rcases h s with hsame | hexhausted
  · cases hlow : low.run s with
    | error fault rest =>
      left
      rw [EStateM.run_bind, EStateM.run_bind, ← hsame, hlow]
    | ok a t =>
      rcases hnext a t with hsame' | hexhausted
      · left
        rw [run_bind_of_ok hlow, run_bind_of_ok (hsame ▸ hlow), hsame']
      · exact .inr (exhausted_bind_of_ok hlow hexhausted)
  · exact .inr (hexhausted.bind f)

theorem map {low high : Reader α} (h : Limits low high) (f : α → β) : Limits (f <$> low) (f <$> high) := by
  rw [map_eq_pure_bind, map_eq_pure_bind]
  exact h.bind fun a => refl _

theorem withRoom {low high : Room → Reader α} (h : ∀ room, Limits (low room) (high room)) :
    Limits (withRoom low) (withRoom high) := fun s => h (' ' :: s) s

/-- A fault inside a list or an object that has its place is told as it is, whether or not the closing follows. -/
theorem enclosed (close : Reader Unit) {low high : Reader α} (h : Limits low high) :
    Limits (enclosed close low) (enclosed close high) := by
  intro s
  rcases h s.tail with hsame | ⟨unread, rest, hlow⟩
  · left
    rw [run_enclosed, run_enclosed, hsame]
  · right
    cases hclose : close.run rest with
    | ok u after => exact ⟨unread, after, by rw [run_enclosed, hlow]; dsimp only; rw [hclose]; rfl⟩
    | error fault after => exact ⟨unread, after, by rw [run_enclosed, hlow]; dsimp only; rw [hclose]; rfl⟩

theorem itemsAfter {low high : Reader α} (h : Limits low high) (room : Room) (first : Bool) (before : List α) :
    Limits (itemsAfter low room first before) (itemsAfter high room first before) := by
  induction room generalizing first before with
  | nil => exact refl _
  | cons _ room ih =>
    refine (refl (hasItem first)).bind fun more => ?_
    cases more with
    | false => exact refl _
    | true => exact h.bind fun x => ih false (x :: before)

theorem items {low high : Reader α} (h : Limits low high) : Limits (items low) (items high) :=
  withRoom fun room => itemsAfter h room true []

theorem membersAfter {low high : String → σ → Reader σ} (h : ∀ key state, Limits (low key state) (high key state))
    (room : Room) (first : Bool) (state : σ) :
    Limits (membersAfter low room first state) (membersAfter high room first state) := by
  induction room generalizing first state with
  | nil => exact refl _
  | cons _ room ih =>
    refine (refl (hasMember first)).bind fun more => ?_
    cases more with
    | false => exact refl _
    | true => exact (refl stringBody).bind fun key => (h key state).bind fun state => ih false state

theorem members {low high : String → σ → Reader σ} (h : ∀ key state, Limits (low key state) (high key state))
    (state : σ) : Limits (members low state) (members high state) :=
  withRoom fun room => membersAfter h room true state

theorem memberWith {low high : Reader Json} (h : Limits low high) (key : String) (ms : List (String × Json)) :
    Limits (memberWith low key ms) (memberWith high key ms) :=
  (refl colon).bind fun _ => h.bind fun _ => refl _

end Limits

/-- A reader of values with fewer levels does what one with more levels does, or its levels are used up. -/
theorem limits_value {m n : Nat} (h : m ≤ n) : Limits (value m) (value n) := by
  induction m generalizing n with
  | zero =>
    cases n with
    | zero => exact .refl _
    | succ n =>
      refine (Limits.refl lead).bind fun found => ?_
      cases found with
      | scalar v => exact .refl _
      | _ => exact fun s => .inr (exhausted_failAtNext s)
  | succ m ih =>
    obtain ⟨n, rfl⟩ : ∃ k, n = k + 1 := ⟨n - 1, by omega⟩
    have hinner : Limits (value m) (value n) := ih (by omega)
    refine (Limits.refl lead).bind fun found => ?_
    cases found with
    | scalar v => exact .refl _
    | list => exact (hinner.items.enclosed endList).map Json.array
    | object => exact ((Limits.members hinner.memberWith []).enclosed endObject).map Json.object

end PropertyGraph.Json.Reader

namespace PropertyGraph.Json

open Reader

/-- A text that nests deeper than there are levels is refused because they are used up. -/
theorem Spells.exhausted {text : List Char} {n : Nat} {v : Json} (h : Spells text n v) {depth : Nat}
    (hdepth : depth < n) {rest : List Char} (hrest : Ends rest) : Exhausted (value depth) (text ++ rest) := by
  rcases limits_value (Nat.le_of_lt hdepth) (text ++ rest) with hsame | hexhausted
  · rw [h.reads n (Nat.le_refl n) rest hrest] at hsame
    exact absurd (h.needs depth rest hrest v rest hsame) (Nat.not_le.2 hdepth)
  · exact hexhausted

end PropertyGraph.Json
