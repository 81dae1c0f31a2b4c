import Mathlib.Data.List.Forall2
import PropertyGraph.Json.Parser

/-!
# Reading back what stands in a text

What readers make of a text that was put together from parts.  `Reads read text a` says that a reader takes
exactly `text` from any longer text that does not go on with a number, and gives `a`.  The key facts: a quoted
text is read as what was quoted (`reads_stringBody`), a list of parts with commas between them as the list of
what the parts are read as (`enclosed_items`), and members with commas between them one after the other
(`enclosed_members`).
-/

namespace PropertyGraph.Json.Reader

variable {α β σ : Type}

/-! ### Steps of a reader -/

@[simp]
theorem run_peek (s : List Char) : peek.run s = .ok s.head? s := rfl

@[simp]
theorem run_advance (s : List Char) : advance.run s = .ok () s.tail := rfl

@[simp]
theorem run_digits (s : List Char) :
    digits.run s = .ok (s.takeWhile Char.isDigit) (s.dropWhile Char.isDigit) := rfl

@[simp]
theorem run_peekToken (s : List Char) :
    peekToken.run s = .ok (s.dropWhile isJsonBlank).head? (s.dropWhile isJsonBlank) := rfl

@[simp]
theorem run_withRoom (read : Room → Reader α) (s : List Char) :
    (withRoom read).run s = (read (' ' :: s)).run s := rfl

theorem run_bind_of_ok {read : Reader α} {s t : List Char} {a : α} (h : read.run s = .ok a t)
    (f : α → Reader β) : (read >>= f).run s = (f a).run t := by
  rw [EStateM.run_bind, h]

theorem run_map_of_ok {read : Reader α} {s t : List Char} {a : α} (h : read.run s = .ok a t) (f : α → β) :
    (f <$> read).run s = .ok (f a) t := by
  show EStateM.map f read s = .ok (f a) t
  rw [EStateM.map, show read s = .ok a t from h]

/-! ### Reading a part of a text -/

/-- A rest in which a number that stands before it does not go on. -/
def Ends (rest : List Char) : Prop :=
  ∀ c ∈ rest.head?, c.isDigit = false ∧ c ≠ '.' ∧ c ≠ 'e' ∧ c ≠ 'E'

theorem ends_nil : Ends [] := by
  intro c hc
  cases hc

theorem ends_comma (rest : List Char) : Ends (',' :: rest) := by
  intro c hc
  obtain rfl := Option.some.inj hc
  decide

theorem ends_bracket (rest : List Char) : Ends (']' :: rest) := by
  intro c hc
  obtain rfl := Option.some.inj hc
  decide

theorem ends_brace (rest : List Char) : Ends ('\x7d' :: rest) := by
  intro c hc
  obtain rfl := Option.some.inj hc
  decide

/-- A reader takes a text from the front of every text in which no number goes on after it. -/
def Reads (read : Reader α) (text : List Char) (a : α) : Prop :=
  ∀ rest, Ends rest → read.run (text ++ rest) = .ok a rest

/-- A text that holds nothing else is read as what a reader takes from its front. -/
theorem ofText_of_reads {read : Reader α} {text : List Char} {a : α} (h : Reads read text a) :
    ofText read text = .ok a := by
  have hread := h [] ends_nil
  rw [List.append_nil] at hread
  rw [ofText, show read text = .ok a [] from hread]
  rfl

/-- A text that a value can begin with: not blank, and no closing bracket. -/
def Starts (text : List Char) : Prop :=
  ∃ c s, text = c :: s ∧ isBlank c = false ∧ c ≠ ']'

theorem not_isJsonBlank {c : Char} (h : isBlank c = false) : isJsonBlank c = false := by
  cases hblank : isJsonBlank c with
  | false => rfl
  | true => rw [isBlank_of_isJsonBlank hblank] at h; cases h

theorem Starts.dropWhile_eq {text : List Char} (h : Starts text) (rest : List Char) :
    (text ++ rest).dropWhile isJsonBlank = text ++ rest := by
  obtain ⟨c, s, rfl, hc, -⟩ := h
  simp [not_isJsonBlank hc]

theorem Starts.not_isBlankText {text : List Char} (h : Starts text) : isBlankText text = false := by
  obtain ⟨c, s, rfl, hc, -⟩ := h
  simp [isBlankText, hc]

/-! ### Quoted texts -/

private theorem hexValue4?_control :
    ∀ n < 32, hexValue4? '0' '0' (Quoted.hexDigit (n / 16)) (Quoted.hexDigit (n % 16)) = some n := by
  decide

private theorem stringItem_plain {c : Char} (hquote : c ≠ '"') (hslash : c ≠ '\\') (hc : 0x20 ≤ c.toNat)
    (rest : List Char) : stringItem.run (c :: rest) = .ok (some c) rest := by
  unfold stringItem
  rw [run_bind_of_ok (run_peek _), List.head?_cons]
  split
  · rename_i h
    cases h
  · rename_i h
    exact absurd (Option.some.inj h) hquote
  · rename_i h
    exact absurd (Option.some.inj h) hslash
  · rename_i h
    obtain rfl := Option.some.inj h
    rw [if_neg (by omega)]
    rfl

private theorem stringItem_simple {c d : Char} (hu : c ≠ 'u') (h : simpleEscape? c = some d) (rest : List Char) :
    stringItem.run ('\\' :: c :: rest) = .ok (some d) rest := by
  have hescape : escape.run (c :: rest) = .ok d rest := by
    unfold escape
    rw [run_bind_of_ok (run_peek _), List.head?_cons]
    split
    · rename_i h
      cases h
    · rename_i h
      exact absurd (Option.some.inj h) hu
    · rename_i h'
      obtain rfl := Option.some.inj h'
      rw [h]
      rfl
  exact run_map_of_ok hescape some

private theorem stringItem_control {c : Char} (hc : c.toNat < 0x20) (rest : List Char) :
    stringItem.run ('\\' :: 'u' :: '0' :: '0' :: Quoted.hexDigit (c.toNat / 16) ::
      Quoted.hexDigit (c.toNat % 16) :: rest) = .ok (some c) rest := by
  have hhex : hexEscape.run ('0' :: '0' :: Quoted.hexDigit (c.toNat / 16) :: Quoted.hexDigit (c.toNat % 16) :: rest) =
      .ok c.toNat rest := by
    simp only [EStateM.run, hexEscape, hexValue4?_control _ hc]
  have hescape : unicodeEscape.run ('0' :: '0' :: Quoted.hexDigit (c.toNat / 16) ::
      Quoted.hexDigit (c.toNat % 16) :: rest) = .ok c rest := by
    unfold unicodeEscape
    rw [run_bind_of_ok hhex, if_neg (by omega), if_neg (by omega), EStateM.run_pure, Char.ofNat_toNat]
  exact run_map_of_ok hescape some

theorem stringItem_escape (c : Char) (rest : List Char) :
    stringItem.run (Quoted.escape c ++ rest) = .ok (some c) rest := by
  -- the quote, the backslash, what stands for itself, the short escapes and the other control characters
  unfold Quoted.escape
  split
  · rename_i h
    subst h
    exact stringItem_simple (by decide) rfl rest
  split
  · rename_i h
    subst h
    exact stringItem_simple (by decide) rfl rest
  split
  · rename_i hquote hslash hc
    exact stringItem_plain hquote hslash hc rest
  split
  · rename_i h
    subst h
    exact stringItem_simple (by decide) rfl rest
  split
  · rename_i h
    subst h
    exact stringItem_simple (by decide) rfl rest
  split
  · rename_i h
    subst h
    exact stringItem_simple (by decide) rfl rest
  split
  · rename_i h
    subst h
    exact stringItem_simple (by decide) rfl rest
  split
  · rename_i h
    subst h
    exact stringItem_simple (by decide) rfl rest
  · rename_i hc _ _ _ _ _
    exact stringItem_control (by omega) rest

private theorem stringItems_escape (s before rest : List Char) (room : Room) (h : s.length < room.length) :
    (stringItems room before).run (s.flatMap Quoted.escape ++ '"' :: rest) = .ok (before.reverse ++ s) rest := by
  -- each character takes one place of the room, and the quote at the end takes one more
  induction s generalizing before room with
  | nil =>
    obtain ⟨_, room, rfl⟩ := List.exists_cons_of_length_pos h
    show EStateM.Result.ok before.reverse rest = _
    rw [List.append_nil]
  | cons c s ih =>
    obtain ⟨_, room, rfl⟩ := List.exists_cons_of_length_pos (Nat.zero_lt_of_lt h)
    rw [List.flatMap_cons, List.append_assoc, stringItems,
      run_bind_of_ok (stringItem_escape c (s.flatMap Quoted.escape ++ '"' :: rest))]
    simp only [List.length_cons] at h
    rw [ih (c :: before) room (by omega)]
    simp

private theorem length_le_flatMap_escape (s : List Char) : s.length ≤ (s.flatMap Quoted.escape).length := by
  induction s with
  | nil => exact Nat.le_refl 0
  | cons c s ih =>
    have := List.length_pos_iff.2 (Quoted.escape_ne_nil c)
    rw [List.flatMap_cons, List.length_append, List.length_cons]
    omega

/-- A quoted text is read as what was quoted, after its first quote. -/
theorem stringBody_quote (s : String) (rest : List Char) :
    stringBody.run (s.toList.flatMap Quoted.escape ++ '"' :: rest) = .ok s rest := by
  have hlen := length_le_flatMap_escape s.toList
  have hitems := stringItems_escape s.toList [] rest
    (' ' :: (s.toList.flatMap Quoted.escape ++ '"' :: rest))
    (by simp only [List.length_cons, List.length_append]; omega)
  have := run_map_of_ok hitems String.ofList
  rwa [List.reverse_nil, List.nil_append, String.ofList_toList] at this

theorem stringChars_append (s : String) (rest : List Char) :
    stringChars s ++ rest = '"' :: (s.toList.flatMap Quoted.escape ++ '"' :: rest) := by
  simp [stringChars, Quoted.quote]

/-! ### Lists and objects -/

/-- Parts after the first one, each behind a comma. -/
def commaTail (texts : List (List Char)) : List Char := texts.flatMap (',' :: ·)

theorem commaJoin_cons (text : List Char) (texts : List (List Char)) :
    commaJoin (text :: texts) = text ++ commaTail texts := by
  induction texts generalizing text with
  | nil => simp [commaJoin, commaTail]
  | cons next texts ih =>
    have hnext := ih next
    simp only [commaJoin] at hnext ⊢
    rw [List.intersperse_cons_cons, List.flatten_cons, List.flatten_cons, hnext]
    simp [commaTail]

theorem ends_commaTail_bracket (texts : List (List Char)) (rest : List Char) :
    Ends (commaTail texts ++ ']' :: rest) := by
  cases texts with
  | nil => exact ends_bracket rest
  | cons text texts => exact ends_comma _

theorem ends_commaTail_brace (texts : List (List Char)) (rest : List Char) :
    Ends (commaTail texts ++ '\x7d' :: rest) := by
  cases texts with
  | nil => exact ends_brace rest
  | cons text texts => exact ends_comma _

private theorem length_le_commaTail (texts : List (List Char)) : texts.length ≤ (commaTail texts).length := by
  induction texts with
  | nil => exact Nat.le_refl 0
  | cons text texts ih =>
    rw [commaTail, List.flatMap_cons, List.length_append, List.length_cons, List.length_cons]
    rw [commaTail] at ih
    omega

theorem run_hasItem_close (first : Bool) (rest : List Char) :
    (hasItem first).run (']' :: rest) = .ok false (']' :: rest) := by
  unfold hasItem
  rw [run_bind_of_ok (run_peekToken _)]
  rfl

theorem run_hasItem_first {text : List Char} (h : Starts text) (rest : List Char) :
    (hasItem true).run (text ++ rest) = .ok true (text ++ rest) := by
  unfold hasItem
  rw [run_bind_of_ok (run_peekToken _), h.dropWhile_eq]
  obtain ⟨c, s, rfl, -, hc⟩ := h
  rw [List.cons_append, List.head?_cons]
  split
  · rename_i h
    cases h
  · rename_i h
    exact absurd (Option.some.inj h) hc
  · rw [if_pos rfl, EStateM.run_pure]

theorem run_hasItem_next {text : List Char} (h : Starts text) (rest : List Char) :
    (hasItem false).run (',' :: (text ++ rest)) = .ok true (text ++ rest) := by
  unfold hasItem
  rw [run_bind_of_ok (run_peekToken _)]
  show EStateM.run (advance >>= fun _ => peekToken >>= _) (',' :: (text ++ rest)) = _
  rw [run_bind_of_ok (run_advance _), List.tail_cons, run_bind_of_ok (run_peekToken _), h.dropWhile_eq]
  obtain ⟨c, s, rfl, -, hc⟩ := h
  rw [List.cons_append, List.head?_cons]
  split
  · rename_i h
    cases h
  · rename_i h
    exact absurd (Option.some.inj h) hc
  · rw [EStateM.run_pure]

/-- Texts that a reader takes one by one as values. -/
def ReadsEach (item : Reader α) : List (List Char) → List α → Prop :=
  List.Forall₂ fun text a => Starts text ∧ Reads item text a

theorem commaTail_item (text : List Char) (texts : List (List Char)) (rest : List Char) :
    commaTail (text :: texts) ++ ']' :: rest = ',' :: (text ++ (commaTail texts ++ ']' :: rest)) := by
  simp [commaTail]

private theorem itemsAfter_commaTail {item : Reader α} {texts : List (List Char)} {values : List α}
    (h : ReadsEach item texts values) (rest : List Char) (before : List α) {room : Room}
    (hroom : texts.length < room.length) :
    (itemsAfter item room false before).run (commaTail texts ++ ']' :: rest) =
      .ok (before.reverse ++ values) (']' :: rest) := by
  induction h generalizing before room with
  | nil =>
    obtain ⟨_, room, rfl⟩ := List.exists_cons_of_length_pos hroom
    rw [itemsAfter, commaTail, List.flatMap_nil, List.nil_append, run_bind_of_ok (run_hasItem_close false rest)]
    simp
  | @cons text a texts values hhead _ ih =>
    obtain ⟨hstarts, hreads⟩ := hhead
    obtain ⟨_, room, rfl⟩ := List.exists_cons_of_length_pos (Nat.zero_lt_of_lt hroom)
    simp only [List.length_cons] at hroom
    rw [itemsAfter, commaTail_item, run_bind_of_ok (run_hasItem_next hstarts _), if_pos rfl,
      run_bind_of_ok (hreads _ (ends_commaTail_bracket texts rest)), ih (a :: before) (by omega)]
    simp

theorem items_commaJoin {item : Reader α} {texts : List (List Char)} {values : List α}
    (h : ReadsEach item texts values) (rest : List Char) :
    (items item).run (commaJoin texts ++ ']' :: rest) = .ok values (']' :: rest) := by
  unfold items
  rw [run_withRoom]
  cases h with
  | nil => exact run_bind_of_ok (run_hasItem_close true rest) _
  | @cons text a texts values hhead htail =>
    obtain ⟨hstarts, hreads⟩ := hhead
    have hlength := length_le_commaTail texts
    rw [commaJoin_cons, List.append_assoc, itemsAfter, run_bind_of_ok (run_hasItem_first hstarts _), if_pos rfl,
      run_bind_of_ok (hreads _ (ends_commaTail_bracket texts rest)),
      itemsAfter_commaTail htail rest [a] (by simp only [List.length_append, List.length_cons]; omega)]
    rfl

theorem run_enclosed (close : Reader Unit) (inside : Reader α) (s : List Char) :
    (enclosed close inside).run s =
      match inside.run s.tail with
      | .ok a rest =>
        match close.run rest with
        | .ok _ rest => .ok a rest
        | .error fault rest => .error fault rest
      | .error fault rest =>
        match close.run rest with
        | .ok _ rest => (placed (throw fault)).run rest
        | .error _ rest => (placed (throw fault)).run rest := rfl

theorem run_enclosed_of_ok {close : Reader Unit} {inside : Reader α} {c : Char} {s t rest : List Char} {a : α}
    (h : inside.run s = .ok a t) (hclose : close.run t = .ok () rest) :
    (enclosed close inside).run (c :: s) = .ok a rest := by
  rw [run_enclosed, List.tail_cons, h]
  dsimp only
  rw [hclose]

/-- A list between brackets, with commas between its items, is read as the list of what they are read as. -/
theorem enclosed_items {item : Reader α} {texts : List (List Char)} {values : List α}
    (h : ReadsEach item texts values) (rest : List Char) :
    (enclosed endList (items item)).run ('[' :: (commaJoin texts ++ ']' :: rest)) = .ok values rest :=
  run_enclosed_of_ok (items_commaJoin h rest) rfl

/-- A member as it is written: the quoted name, a colon and the text of the value. -/
def memberText (m : String × List Char) : List Char := stringChars m.1 ++ ':' :: m.2

theorem run_hasMember_close (first : Bool) (rest : List Char) :
    (hasMember first).run ('\x7d' :: rest) = .ok false ('\x7d' :: rest) := by
  unfold hasMember
  rw [run_bind_of_ok (run_peekToken _)]
  rfl

theorem run_hasMember_first (rest : List Char) : (hasMember true).run ('"' :: rest) = .ok true rest := rfl

theorem run_hasMember_next (rest : List Char) : (hasMember false).run (',' :: '"' :: rest) = .ok true rest := rfl

/-- Members that are read into a state one after the other, each from the colon on. -/
inductive ReadsMembers (member : String → σ → Reader σ) : List (String × List Char) → σ → σ → Prop
  | nil (state : σ) : ReadsMembers member [] state state
  | cons {name : String} {text : List Char} {ms : List (String × List Char)} {before between after : σ} :
      Reads (member name before) (':' :: text) between → ReadsMembers member ms between after →
        ReadsMembers member ((name, text) :: ms) before after

theorem commaTail_member (name : String) (text : List Char) (ms : List (String × List Char)) (rest : List Char) :
    commaTail (((name, text) :: ms).map memberText) ++ '\x7d' :: rest =
      ',' :: '"' :: (name.toList.flatMap Quoted.escape ++
        '"' :: (':' :: text ++ (commaTail (ms.map memberText) ++ '\x7d' :: rest))) := by
  simp [commaTail, memberText, stringChars, Quoted.quote]

theorem commaJoin_member (name : String) (text : List Char) (ms : List (String × List Char)) (rest : List Char) :
    commaJoin (((name, text) :: ms).map memberText) ++ '\x7d' :: rest =
      '"' :: (name.toList.flatMap Quoted.escape ++
        '"' :: (':' :: text ++ (commaTail (ms.map memberText) ++ '\x7d' :: rest))) := by
  rw [List.map_cons, commaJoin_cons]
  simp [memberText, stringChars, Quoted.quote]

private theorem membersAfter_commaTail {member : String → σ → Reader σ} {ms : List (String × List Char)}
    {before after : σ} (h : ReadsMembers member ms before after) (rest : List Char) {room : Room}
    (hroom : ms.length < room.length) :
    (membersAfter member room false before).run (commaTail (ms.map memberText) ++ '\x7d' :: rest) =
      .ok after ('\x7d' :: rest) := by
  induction h generalizing room with
  | nil =>
    obtain ⟨_, room, rfl⟩ := List.exists_cons_of_length_pos hroom
    rw [membersAfter, List.map_nil, commaTail, List.flatMap_nil, List.nil_append,
      run_bind_of_ok (run_hasMember_close false rest)]
    rfl
  | @cons name text ms before between after hread _ ih =>
    obtain ⟨_, room, rfl⟩ := List.exists_cons_of_length_pos (Nat.zero_lt_of_lt hroom)
    simp only [List.length_cons] at hroom
    rw [membersAfter, commaTail_member, run_bind_of_ok (run_hasMember_next _), if_pos rfl,
      run_bind_of_ok (stringBody_quote name _),
      run_bind_of_ok (hread _ (ends_commaTail_brace _ rest)), ih (by omega)]

/-- Members with commas between them are read one after the other. -/
theorem members_commaJoin {member : String → σ → Reader σ} {ms : List (String × List Char)}
    {before after : σ} (h : ReadsMembers member ms before after) (rest : List Char) :
    (members member before).run (commaJoin (ms.map memberText) ++ '\x7d' :: rest) =
      .ok after ('\x7d' :: rest) := by
  unfold members
  rw [run_withRoom]
  cases h with
  | nil => exact run_bind_of_ok (run_hasMember_close true rest) _
  | @cons name text ms _ between _ hread htail =>
    have hlength := length_le_commaTail (ms.map memberText)
    rw [commaJoin_member, membersAfter, run_bind_of_ok (run_hasMember_first _), if_pos rfl,
      run_bind_of_ok (stringBody_quote name _),
      run_bind_of_ok (hread _ (ends_commaTail_brace _ rest)),
      membersAfter_commaTail htail rest (by
        simp only [List.length_append, List.length_cons, List.length_map] at hlength ⊢
        omega)]

/-- Members between braces, with commas between them, are read one after the other. -/
theorem enclosed_members {member : String → σ → Reader σ} {ms : List (String × List Char)}
    {before after : σ} (h : ReadsMembers member ms before after) (rest : List Char) :
    (enclosed endObject (members member before)).run
      ('\x7b' :: (commaJoin (ms.map memberText) ++ '\x7d' :: rest)) = .ok after rest :=
  run_enclosed_of_ok (members_commaJoin h rest) rfl

end PropertyGraph.Json.Reader
