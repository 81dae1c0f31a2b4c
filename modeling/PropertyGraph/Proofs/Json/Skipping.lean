import PropertyGraph.Proofs.Json.Runs

/-!
# Values that are skipped

A value that can be read can be skipped, and skipping it takes the same characters: the escapes of a pair one by
one, a number without its value, and lists and objects to any depth.  The key fact: if a text is read as a value,
skipping leaves what reading leaves (`run_skip_of_value`).
-/

namespace PropertyGraph.Json.Reader

variable {α : Type} {s t u rest : List Char}

/-! ### Strings -/

/-- The rest of a string is skipped in every room that is longer than the text. -/
def SkipsString (s rest : List Char) : Prop :=
  ∀ room : Room, s.length < room.length → (skipStringItems room).run s = .ok () rest

/-- From the first of two places on a string is skipped as it is from the second, which is further on. -/
def SkipsOver (s t : List Char) : Prop := t.length < s.length ∧ ∀ rest, SkipsString t rest → SkipsString s rest

theorem SkipsOver.trans (h : SkipsOver s t) (h' : SkipsOver t u) : SkipsOver s u :=
  ⟨Nat.lt_trans h'.1 h.1, fun rest hrest => h.2 rest (h'.2 rest hrest)⟩

private theorem skipsOver_plain {c : Char} (hquote : c ≠ '"') (hslash : c ≠ '\\') (hc : ¬c.toNat < 0x20)
    (t : List Char) : SkipsOver (c :: t) t := by
  refine ⟨Nat.lt_succ_self _, fun rest hrest room hroom => ?_⟩
  obtain ⟨_, room, rfl⟩ := List.exists_cons_of_length_pos (Nat.zero_lt_of_lt hroom)
  unfold skipStringItems
  rw [run_bind_of_ok (run_peek _), List.head?_cons]
  split
  · rename_i h
    cases h
  · rename_i h
    exact absurd (Option.some.inj h) hquote
  · rename_i h
    exact absurd (Option.some.inj h) hslash
  · rename_i h
    obtain rfl := Option.some.inj h
    rw [if_neg hc, run_bind_of_ok (run_advance _)]
    exact hrest room (Nat.lt_of_succ_lt_succ hroom)

private theorem skipsOver_escape (hlength : t.length < s.length) (h : skipEscape.run s = .ok () t) :
    SkipsOver ('\\' :: s) t := by
  refine ⟨Nat.lt_succ_of_lt hlength, fun rest hrest room hroom => ?_⟩
  obtain ⟨_, room, rfl⟩ := List.exists_cons_of_length_pos (Nat.zero_lt_of_lt hroom)
  unfold skipStringItems
  rw [run_bind_of_ok (run_peek _)]
  show EStateM.run (advance >>= fun _ => skipEscape >>= fun _ => skipStringItems room) ('\\' :: s) = _
  rw [run_bind_of_ok (run_advance _), List.tail_cons, run_bind_of_ok h]
  exact hrest room (Nat.lt_trans hlength (Nat.lt_of_succ_lt_succ hroom))

private theorem skipsOver_unit {n : Nat} (h : hexEscape.run s = .ok n t) : SkipsOver ('\\' :: 'u' :: s) t := by
  obtain ⟨a, b, c, d, rfl, -⟩ := exists_of_hexEscape h
  refine skipsOver_escape (by simp only [List.length_cons]; omega) ?_
  show EStateM.run (advance >>= fun _ => hexEscape >>= fun _ => pure ()) ('u' :: a :: b :: c :: d :: t) = _
  rw [run_bind_of_ok (run_advance _), List.tail_cons, run_bind_of_ok h]
  rfl

/-- An escape is skipped, that of a pair in two steps. -/
private theorem skipsOver_of_escape {c : Char} (h : escape.run s = .ok c rest) : SkipsOver ('\\' :: s) rest := by
  rcases exists_of_escape h with ⟨t, rfl, hunit⟩ | ⟨d, hd, rfl, hsimple⟩
  · obtain ⟨_, u, hfirst, rfl | ⟨_, hlow⟩⟩ := exists_of_unicodeEscape hunit
    · exact skipsOver_unit hfirst
    · obtain ⟨u, rfl, hsecond⟩ := exists_of_secondHalf hlow
      exact (skipsOver_unit hfirst).trans (skipsOver_unit hsecond)
  · refine skipsOver_escape (Nat.lt_succ_self _) ?_
    unfold skipEscape
    rw [run_bind_of_ok (run_peek _), List.head?_cons]
    split
    · rename_i h
      cases h
    · rename_i h
      exact absurd (Option.some.inj h) hd
    · rename_i h
      obtain rfl := Option.some.inj h
      rw [hsimple]
      rfl

private theorem skipsString_of_stringItems {room : Room} {before chars : List Char}
    (h : (stringItems room before).run s = .ok chars rest) : rest.length < s.length ∧ SkipsString s rest := by
  induction room generalizing s before with
  | nil => cases h
  | cons _ room ih =>
    obtain ⟨item, t, hitem, hitems⟩ := exists_of_bind h
    have hover {c : Char} (hover : SkipsOver s t) (h : (stringItems room (c :: before)).run t = .ok chars rest) :
        rest.length < s.length ∧ SkipsString s rest :=
      ⟨Nat.lt_trans (ih h).1 hover.1, hover.2 rest (ih h).2⟩
    cases stringItem_of_run hitem with
    | close t =>
      cases hitems
      refine ⟨Nat.lt_succ_self _, fun room hroom => ?_⟩
      obtain ⟨_, room, rfl⟩ := List.exists_cons_of_length_pos (Nat.zero_lt_of_lt hroom)
      rfl
    | escape hescape => exact hover (skipsOver_of_escape hescape) hitems
    | plain _ hquote hslash hc => exact hover (skipsOver_plain hquote hslash hc _) hitems

theorem run_skipString_of_stringBody {text : String} (h : stringBody.run s = .ok text rest) :
    rest.length < s.length ∧ skipString.run s = .ok () rest := by
  unfold stringBody at h
  rw [run_withRoom] at h
  obtain ⟨chars, hchars, -⟩ := exists_of_map h
  obtain ⟨hlength, hskips⟩ := skipsString_of_stringItems hchars
  exact ⟨hlength, hskips (' ' :: s) (Nat.lt_succ_self _)⟩

/-! ### Numbers -/

private theorem length_tail_le (s : List Char) : s.tail.length ≤ s.length := by
  rw [List.length_tail]
  omega

/-- Digits are there, so what checks for them goes on. -/
private theorem run_if_digits {ds : List Char} (hds : ds ≠ []) (refuse next : Reader α) :
    (if ds.isEmpty then refuse else next).run s = next.run s := by
  rw [if_neg (by simpa using hds)]

private theorem run_skipExponent (h : TakesExponent s rest) :
    rest.length ≤ s.length ∧ skipExponent.run s = .ok () rest := by
  obtain ⟨t, ht, hdigits, rfl⟩ := h
  have hlength : t.length ≤ s.length := by
    rw [ht]
    split
    · exact length_tail_le s
    · exact Nat.le_refl _
  refine ⟨Nat.le_trans (List.length_dropWhile_le _ t) hlength, ?_⟩
  unfold skipExponent
  rw [run_bind_of_ok (run_peek _)]
  refine (run_advance_if _ s).trans ?_
  rw [← ht, run_bind_of_ok (run_digits _)]
  exact run_if_digits hdigits _ _

private theorem run_skipExponentIfAny (h : TakesExponentIfAny s rest) :
    rest.length ≤ s.length ∧ skipExponentIfAny.run s = .ok () rest := by
  unfold skipExponentIfAny
  rw [run_bind_of_ok (run_peek _)]
  cases h with
  | none hletter =>
    rw [if_neg hletter]
    exact ⟨Nat.le_refl _, rfl⟩
  | exponent hletter h =>
    obtain ⟨hlength, hrun⟩ := run_skipExponent h
    rw [if_pos hletter, run_bind_of_ok (run_advance _)]
    exact ⟨Nat.le_trans hlength (length_tail_le s), hrun⟩

private theorem run_skipAfterInteger (h : TakesFraction s rest) :
    rest.length ≤ s.length ∧ skipAfterInteger.run s = .ok () rest := by
  unfold skipAfterInteger
  rw [run_bind_of_ok (run_peek _)]
  cases h with
  | none hpoint h =>
    rw [if_neg hpoint]
    exact run_skipExponentIfAny h
  | fraction hpoint hdigits h =>
    obtain ⟨hlength, hrun⟩ := run_skipExponentIfAny h
    rw [if_pos hpoint, run_bind_of_ok (run_advance _), run_bind_of_ok (run_digits _), run_if_digits hdigits]
    exact ⟨Nat.le_trans hlength (Nat.le_trans (List.length_dropWhile_le _ _) (length_tail_le s)), hrun⟩

theorem run_skipNumber_of_number {negative : Bool} {n : Number} (h : (number negative).run s = .ok n rest) :
    rest.length < s.length ∧ skipNumber.run s = .ok () rest := by
  obtain ⟨⟨c, ds, hdigits, hzero⟩, hfraction⟩ := takesNumber_of_run h
  obtain ⟨hlength, hrun⟩ := run_skipAfterInteger hfraction
  constructor
  · have hsplit := congrArg List.length (List.takeWhile_append_dropWhile (p := Char.isDigit) (l := s))
    rw [hdigits, List.length_append, List.length_cons] at hsplit
    omega
  · unfold skipNumber
    rw [run_bind_of_ok (run_digits _), hdigits]
    split
    · contradiction
    · exact hrun
    · rename_i hne heq
      obtain ⟨rfl, rfl⟩ := List.cons.inj heq
      rw [hzero rfl] at hne
      exact absurd rfl hne
    · exact hrun

/-! ### Lists and objects -/

/-- What is read off the front of a text is skipped, at every depth that is longer than the text. -/
def Skips (read : Reader α) : Prop :=
  ∀ {s rest : List Char} {a : α}, read.run s = .ok a rest →
    rest.length < s.length ∧ ∀ levels : Room, s.length < levels.length → (skipTo levels).run s = .ok () rest

/-- The rest of a list, from an item on, is skipped at every depth and in every room that are longer than the text. -/
def SkipsItems (s rest : List Char) : Prop :=
  ∀ levels room : Room, s.length < levels.length → s.length < room.length →
    (skipItems (skipTo levels) room).run s = .ok () rest

/-- How a list goes on when it can be skipped: it ends, or there is a further item from which on it is skipped. -/
inductive ListRest : Bool → List Char → List Char → Prop
  | close (first : Bool) (rest : List Char) : ListRest first (']' :: rest) rest
  | first {c : Char} {t rest : List Char} (hc : c ≠ ']') (h : SkipsItems (c :: t) rest) : ListRest true (c :: t) rest
  | next {t rest : List Char} (h : SkipsItems t rest) : ListRest false (',' :: t) rest

private theorem skipsItems_of_item {item : Reader α} (hitem : Skips item) {a : α} (h : item.run s = .ok a t)
    (hrest : ListRest false (t.dropWhile isJsonBlank) rest) : SkipsItems s rest := by
  intro levels room hlevels hroom
  obtain ⟨hlength, hskip⟩ := hitem h
  have hblanks := List.length_dropWhile_le isJsonBlank t
  obtain ⟨_, room, rfl⟩ := List.exists_cons_of_length_pos (Nat.zero_lt_of_lt hroom)
  rw [List.length_cons] at hroom
  unfold skipItems
  rw [run_bind_of_ok (hskip levels hlevels), run_bind_of_ok (run_peekToken _)]
  generalize t.dropWhile isJsonBlank = u at hrest hblanks
  cases hrest with
  | close => rfl
  | @next u _ hnext =>
    rw [List.length_cons] at hblanks
    exact hnext levels room (by omega) (by omega)

private theorem listRest_of_itemsAfter {item : Reader α} (hitem : Skips item)
    (hblanks : ∀ s, item.run (s.dropWhile isJsonBlank) = item.run s) {room : Room} {first : Bool}
    {before values : List α} (h : (itemsAfter item room first before).run s = .ok values t)
    (hclose : endList.run t = .ok () rest) :
    rest.length < s.length ∧ ListRest first (s.dropWhile isJsonBlank) rest := by
  induction room generalizing s first before with
  | nil => cases h
  | cons _ room ih =>
    unfold itemsAfter at h
    obtain ⟨more, u, hmore, h⟩ := exists_of_bind h
    have hnext := hasItem_of_run hmore
    have hlength := List.length_dropWhile_le isJsonBlank s
    generalize s.dropWhile isJsonBlank = w at hnext hlength ⊢
    -- from an item on, wherever it begins
    have hfrom {w : List Char} (h : EStateM.run (item >>= fun x => itemsAfter item room false (x :: before)) w =
        .ok values t) : rest.length < w.length ∧ SkipsItems w rest := by
      obtain ⟨x, v, hx, h⟩ := exists_of_bind h
      exact ⟨Nat.lt_trans (ih h).1 (hitem hx).1, skipsItems_of_item hitem hx (ih h).2⟩
    cases hnext with
    | close first u =>
      cases h
      obtain ⟨-, rfl⟩ := List.cons.inj (eq_of_endList hclose)
      exact ⟨hlength, .close first _⟩
    | first u hc => exact ⟨Nat.lt_of_lt_of_le (hfrom h).1 hlength, .first hc (hfrom h).2⟩
    | next u =>
      rw [if_pos rfl, EStateM.run_bind, hblanks, ← EStateM.run_bind] at h
      exact ⟨Nat.lt_trans (hfrom h).1 hlength, .next (hfrom h).2⟩

/-- The rest of an object, from a member on, is skipped at every depth and in every room that are longer than the
text. -/
def SkipsMembers (s rest : List Char) : Prop :=
  ∀ levels room : Room, s.length < levels.length → s.length < room.length →
    (skipMembers (skipTo levels) room).run s = .ok () rest

/-- How an object goes on when it can be skipped: it ends, or there is a further member from which on it is skipped. -/
inductive ObjectRest : Bool → List Char → List Char → Prop
  | close (first : Bool) (rest : List Char) : ObjectRest first ('\x7d' :: rest) rest
  | first {t rest : List Char} (h : SkipsMembers ('"' :: t) rest) : ObjectRest true ('"' :: t) rest
  | next {t rest : List Char} (h : SkipsMembers t rest) : ObjectRest false (',' :: t) rest

/-- A member of an object: its key, and its value from the colon on. -/
private theorem skipsMembers_of_member {read : Reader α} (hread : Skips read) {key : String} {a : α}
    {behindKey behindColon : List Char} (hquote : s.dropWhile isJsonBlank = '"' :: t)
    (hkey : stringBody.run t = .ok key behindKey) (hcolon : colon.run behindKey = .ok () behindColon)
    (hvalue : read.run behindColon = .ok a u) (hrest : ObjectRest false (u.dropWhile isJsonBlank) rest) :
    SkipsMembers s rest := by
  intro levels room hlevels hroom
  obtain ⟨hkeyLength, hskipKey⟩ := run_skipString_of_stringBody hkey
  obtain ⟨hvalueLength, hskip⟩ := hread hvalue
  have hquoteLength := List.length_dropWhile_le isJsonBlank s
  have hcolonLength := List.length_dropWhile_le isJsonBlank behindKey
  have hblanks := List.length_dropWhile_le isJsonBlank u
  rw [hquote, List.length_cons] at hquoteLength
  rw [eq_of_colon hcolon, List.length_cons] at hcolonLength
  obtain ⟨_, room, rfl⟩ := List.exists_cons_of_length_pos (Nat.zero_lt_of_lt hroom)
  rw [List.length_cons] at hroom
  unfold skipMembers
  rw [run_bind_of_ok (run_peekToken _), hquote]
  show EStateM.run (advance >>= fun _ => skipString >>= fun _ => colon >>= fun _ => skipTo levels >>= fun _ =>
    peekToken >>= _) ('"' :: t) = _
  rw [run_bind_of_ok (run_advance _), List.tail_cons, run_bind_of_ok hskipKey, run_bind_of_ok hcolon,
    run_bind_of_ok (hskip levels (by omega)), run_bind_of_ok (run_peekToken _)]
  generalize u.dropWhile isJsonBlank = v at hrest hblanks
  cases hrest with
  | close => rfl
  | @next v _ hnext =>
    rw [List.length_cons] at hblanks
    exact hnext levels room (by omega) (by omega)

private theorem objectRest_of_membersAfter {read : Reader Json} (hread : Skips read) {room : Room} {first : Bool}
    {before ms : List (String × Json)} (h : (membersAfter (memberWith read) room first before).run s = .ok ms t)
    (hclose : endObject.run t = .ok () rest) :
    rest.length < s.length ∧ ObjectRest first (s.dropWhile isJsonBlank) rest := by
  induction room generalizing s first before with
  | nil => cases h
  | cons _ room ih =>
    unfold membersAfter at h
    obtain ⟨more, u, hmore, h⟩ := exists_of_bind h
    have hnext := hasMember_of_run hmore
    have hlength := List.length_dropWhile_le isJsonBlank s
    generalize s.dropWhile isJsonBlank = w at hnext hlength ⊢
    -- from the key of a member on, wherever the quote before it stands
    have hfrom {v w : List Char} (hquote : w.dropWhile isJsonBlank = '"' :: v)
        (h : EStateM.run (stringBody >>= fun key => memberWith read key before >>= fun ms =>
          membersAfter (memberWith read) room false ms) v = .ok ms t) :
        rest.length < w.length ∧ SkipsMembers w rest := by
      obtain ⟨key, behindKey, hkey, h⟩ := exists_of_bind h
      obtain ⟨next, behindValue, hmember, h⟩ := exists_of_bind h
      obtain ⟨_, behindColon, hcolon, hmember⟩ := exists_of_bind hmember
      obtain ⟨x, _, hvalue, hpure⟩ := exists_of_bind hmember
      cases hpure
      refine ⟨?_, skipsMembers_of_member hread hquote hkey hcolon hvalue (ih h).2⟩
      have hkeyLength := (run_skipString_of_stringBody hkey).1
      have hvalueLength := (hread hvalue).1
      have hrestLength := (ih h).1
      have hquoteLength := List.length_dropWhile_le isJsonBlank w
      have hcolonLength := List.length_dropWhile_le isJsonBlank behindKey
      rw [hquote, List.length_cons] at hquoteLength
      rw [eq_of_colon hcolon, List.length_cons] at hcolonLength
      omega
    cases hnext with
    | close first u =>
      cases h
      obtain ⟨-, rfl⟩ := List.cons.inj (eq_of_endObject hclose)
      exact ⟨hlength, .close first _⟩
    | first u =>
      obtain ⟨hshort, hskips⟩ := hfrom (w := '"' :: u) rfl h
      exact ⟨Nat.lt_of_lt_of_le hshort hlength, .first hskips⟩
    | next hquote =>
      obtain ⟨hshort, hskips⟩ := hfrom hquote h
      exact ⟨Nat.lt_trans hshort hlength, .next hskips⟩

/-! ### Values -/

private theorem run_skipLead_scalar {v : Json} (h : Leads (s.dropWhile isJsonBlank) (.scalar v) rest) :
    rest.length < s.length ∧ skipLead.run s = .ok none rest := by
  have hlength := List.length_dropWhile_le isJsonBlank s
  unfold skipLead
  rw [run_bind_of_ok (run_peekToken _)]
  generalize s.dropWhile isJsonBlank = start at h hlength
  -- what is skipped behind a first character that is taken
  have hbehind {c : Char} {t : List Char} {skip : Reader Unit} (hstart : (c :: t).length ≤ s.length)
      (hrest : rest.length ≤ t.length) (hskip : skip.run t = .ok () rest) :
      rest.length < s.length ∧
        EStateM.run (advance >>= fun _ => skip >>= fun _ => pure (none : Option Char)) (c :: t) = .ok none rest := by
    refine ⟨Nat.lt_of_le_of_lt hrest hstart, ?_⟩
    rw [run_bind_of_ok (run_advance _), List.tail_cons, run_bind_of_ok hskip]
    rfl
  cases h with
  | @word c cs t _ _ hword hread =>
    have hrest : rest.length ≤ t.length := by
      rw [eq_of_literal hread, List.length_append]
      omega
    cases hword
    · exact hbehind hlength hrest hread
    · exact hbehind hlength hrest hread
    · exact hbehind hlength hrest hread
  | string hbody =>
    obtain ⟨hrest, hskip⟩ := run_skipString_of_stringBody hbody
    exact hbehind hlength (Nat.le_of_lt hrest) hskip
  | negative hnumber =>
    obtain ⟨hrest, hskip⟩ := run_skipNumber_of_number hnumber
    exact hbehind hlength (Nat.le_of_lt hrest) hskip
  | @number c t _ n hdigit hnumber =>
    obtain ⟨hrest, hskip⟩ := run_skipNumber_of_number hnumber
    refine ⟨Nat.lt_of_lt_of_le hrest hlength, ?_⟩
    have hopens : ¬(c = '[' ∨ c = '\x7b') := by
      rintro (rfl | rfl) <;> contradiction
    rw [List.head?_cons]
    split
    case h_1 h => cases h
    case h_7 =>
      rename_i heq
      obtain rfl := Option.some.inj heq
      rw [if_neg hopens, if_pos hdigit, run_bind_of_ok hskip]
      rfl
    all_goals
      rename_i heq
      obtain rfl := Option.some.inj heq
      contradiction

private theorem run_skipLead_opening {c : Char} (hc : c = '[' ∨ c = '\x7b') (h : s.dropWhile isJsonBlank = c :: t) :
    skipLead.run s = .ok (some c) t := by
  unfold skipLead
  rw [run_bind_of_ok (run_peekToken _), h]
  rcases hc with rfl | rfl <;> rfl

private theorem run_skipWith_list {levels : Room} (hstart : s.dropWhile isJsonBlank = '[' :: t)
    (hlevels : t.length < levels.length) (hrest : ListRest true (t.dropWhile isJsonBlank) rest) :
    (skipWith (skipTo levels)).run s = .ok () rest := by
  have hblanks := List.length_dropWhile_le isJsonBlank t
  unfold skipWith
  rw [run_bind_of_ok (run_skipLead_opening (.inl rfl) hstart)]
  show EStateM.run (peekToken >>= _) t = _
  rw [run_bind_of_ok (run_peekToken _)]
  generalize t.dropWhile isJsonBlank = w at hrest hblanks
  cases hrest with
  | close => rfl
  | first hc h =>
    rw [List.head?_cons]
    split
    · contradiction
    · rename_i heq
      exact absurd (Option.some.inj heq) hc
    · exact h levels _ (Nat.lt_of_le_of_lt hblanks hlevels) (Nat.lt_succ_self _)

private theorem run_skipWith_object {levels : Room} (hstart : s.dropWhile isJsonBlank = '\x7b' :: t)
    (hlevels : t.length < levels.length) (hrest : ObjectRest true (t.dropWhile isJsonBlank) rest) :
    (skipWith (skipTo levels)).run s = .ok () rest := by
  have hblanks := List.length_dropWhile_le isJsonBlank t
  unfold skipWith
  rw [run_bind_of_ok (run_skipLead_opening (.inr rfl) hstart)]
  show EStateM.run (peekToken >>= _) t = _
  rw [run_bind_of_ok (run_peekToken _)]
  generalize t.dropWhile isJsonBlank = w at hrest hblanks
  cases hrest with
  | close => rfl
  | first h => exact h levels _ (Nat.lt_of_le_of_lt hblanks hlevels) (Nat.lt_succ_self _)

/-- A value that is read can be skipped, however deep it nests. -/
theorem skips_value (depth : Nat) : Skips (value depth) := by
  induction depth using Nat.strongRecOn with
  | ind depth ih =>
    intro s rest v h
    obtain ⟨found, t, -, hleads, hreads⟩ := readsAs_of_run h
    have hlength := List.length_dropWhile_le isJsonBlank s
    -- one level more than there is inside
    have hfrom (h : ∀ levels : Room, s.length ≤ levels.length → (skipWith (skipTo levels)).run s = .ok () rest) :
        ∀ levels : Room, s.length < levels.length → (skipTo levels).run s = .ok () rest := by
      intro levels hlevels
      obtain ⟨_, levels, rfl⟩ := List.exists_cons_of_length_pos (Nat.zero_lt_of_lt hlevels)
      exact h levels (Nat.le_of_lt_succ hlevels)
    cases hreads with
    | scalar =>
      obtain ⟨hshort, hskip⟩ := run_skipLead_scalar hleads
      refine ⟨hshort, hfrom fun levels _ => ?_⟩
      unfold skipWith
      rw [run_bind_of_ok hskip]
      rfl
    | @list depth t u _ values hitems hclose =>
      have hstart := hleads.eq_of_list
      obtain ⟨hshort, hrest⟩ :=
        listRest_of_itemsAfter (ih depth (Nat.lt_succ_self _)) (run_value_dropWhile depth) hitems hclose
      rw [hstart, List.length_cons] at hlength
      exact ⟨Nat.lt_trans hshort hlength, hfrom fun levels hlevels =>
        run_skipWith_list hstart (Nat.lt_of_lt_of_le hlength hlevels) hrest⟩
    | @object depth t u _ ms hmembers hclose =>
      have hstart := hleads.eq_of_object
      obtain ⟨hshort, hrest⟩ := objectRest_of_membersAfter (ih depth (Nat.lt_succ_self _)) hmembers hclose
      rw [hstart, List.length_cons] at hlength
      exact ⟨Nat.lt_trans hshort hlength, hfrom fun levels hlevels =>
        run_skipWith_object hstart (Nat.lt_of_lt_of_le hlength hlevels) hrest⟩

/-- Skipping a value leaves what reading it leaves. -/
theorem run_skip_of_value {depth : Nat} {v : Json} (h : (value depth).run s = .ok v rest) :
    skip.run s = .ok () rest := by
  unfold skip
  rw [run_withRoom]
  exact (skips_value depth h).2 (' ' :: s) (Nat.lt_succ_self _)

end PropertyGraph.Json.Reader
