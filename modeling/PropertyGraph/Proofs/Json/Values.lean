import PropertyGraph.Json.Parser
import PropertyGraph.Proofs.Json.Brackets
import PropertyGraph.Proofs.Json.Runs

/-!
# Reading values back

What the compact text of a value is read as: strings, truth values, integers and null as themselves, a double as
its text is read, and an object with each of its keys once.  `Spells text n v` says all that is known of such a
text: where it can stand, how deep it nests and what it is read as.  The key facts: texts put between brackets
with commas spell a list (`spells_list`) or an object (`spells_object`), and the compact text of every value
spells it (`Json.spells_compact`).
-/

namespace PropertyGraph.Json

namespace Reader

/-! ### Scalars -/

theorem reads_lead_null : Reads lead nullChars (.scalar .null) := fun _ _ => rfl

theorem reads_lead_bool (b : Bool) : Reads lead (boolChars b) (.scalar (.bool b)) := by
  cases b <;> exact fun _ _ => rfl

theorem reads_lead_string (s : String) : Reads lead (stringChars s) (.scalar (.string s)) := by
  intro rest _
  rw [stringChars_append]
  unfold lead
  rw [run_bind_of_ok (run_peekToken _)]
  show EStateM.run (advance >>= fun _ => stringBody >>= fun s => pure (Lead.scalar (.string s))) ('"' :: _) = _
  rw [run_bind_of_ok (run_advance _), List.tail_cons, run_bind_of_ok (stringBody_quote s rest), EStateM.run_pure]

theorem run_valueWith_scalar {read : Option (Reader Json)} {s rest : List Char} {v : Json}
    (h : lead.run s = .ok (.scalar v) rest) : (valueWith read).run s = .ok v rest := by
  unfold valueWith
  rw [run_bind_of_ok h]
  cases read <;> rfl

theorem run_value_scalar {depth : Nat} {s rest : List Char} {v : Json} (h : lead.run s = .ok (.scalar v) rest) :
    (value depth).run s = .ok v rest := by
  cases depth <;> exact run_valueWith_scalar h

theorem run_value_list (depth : Nat) (s : List Char) :
    (value (depth + 1)).run ('[' :: s) =
      (Json.array <$> enclosed endList (items (value depth))).run ('[' :: s) := rfl

theorem run_value_object (depth : Nat) (s : List Char) :
    (value (depth + 1)).run ('\x7b' :: s) = (Json.object <$> valueMembers depth).run ('\x7b' :: s) := rfl

end Reader

open Reader

/-! ### Texts of values -/

/-- A text that a value is read from, whatever comes after it that ends a number, if and only if as many levels are
left as the text nests. -/
structure Spells (text : List Char) (n : Nat) (v : Json) : Prop where
  starts : Starts text
  balanced : Balanced n text
  reads : ∀ depth, n ≤ depth → Reads (value depth) text v
  needs : ∀ depth rest, Ends rest → ∀ w s, (value depth).run (text ++ rest) = .ok w s → n ≤ depth

theorem spells_scalar {text : List Char} {v : Json} (hstarts : Starts text) (hplain : Balanced 0 text)
    (h : Reads lead text (.scalar v)) : Spells text 0 v :=
  ⟨hstarts, hplain, fun _ _ rest hrest => run_value_scalar (h rest hrest), fun _ _ _ _ _ _ => Nat.zero_le _⟩

theorem spells_null : Spells nullChars 0 .null :=
  spells_scalar ⟨'n', _, rfl, by decide, by decide⟩ (balanced_plain (forall_isPlain (by decide))) reads_lead_null

theorem spells_bool (b : Bool) : Spells (boolChars b) 0 (.bool b) := by
  have hplain : ∀ c ∈ boolChars b, IsPlain c := by
    cases b <;> exact forall_isPlain (by decide)
  refine spells_scalar ?_ (balanced_plain hplain) (reads_lead_bool b)
  cases b with
  | false => exact ⟨'f', _, rfl, by decide, by decide⟩
  | true => exact ⟨'t', _, rfl, by decide, by decide⟩

theorem spells_string (s : String) : Spells (stringChars s) 0 (.string s) :=
  spells_scalar ⟨'"', _, rfl, by decide, by decide⟩ (balanced_stringChars s) (reads_lead_string s)

theorem spells_integer {n : Int} (hfits : fitsInteger n) :
    Spells (Decimal.signed n) 0 (.number (.integer n hfits)) :=
  spells_scalar (starts_integer n) (balanced_plain fun _ => isPlain_signed) (reads_integer hfits)

theorem spells_int64 (n : Int64) : Spells (Decimal.signed n.toInt) 0 (.ofInt64 n) := spells_integer _

theorem spells_double (x : Finite64) : Spells (Layout.json64.finite x) 0 (.ofBinary (Layout.json64.reread x)) :=
  spells_scalar (starts_finite _ x) (balanced_plain fun _ => isPlain_finite) (reads_double x)

theorem spells_single (x : Finite .binary32) :
    Spells (Layout.json32.finite x) 0 (.ofBinary (Layout.json32.reread x)) :=
  spells_scalar (starts_finite _ x) (balanced_plain fun _ => isPlain_finite) (reads_single x)

/-! ### Lists and objects -/

/-- Texts of values, one by one, with the largest number of levels that one of them nests. -/
inductive SpellsEach : List (List Char) → Nat → List Json → Prop
  | nil : SpellsEach [] 0 []
  | cons {text : List Char} {m : Nat} {v : Json} {texts : List (List Char)} {n : Nat} {values : List Json} :
      Spells text m v → SpellsEach texts n values → SpellsEach (text :: texts) (max m n) (v :: values)

/-- Members whose values are texts of values. -/
inductive SpellsMembers : List (String × List Char) → Nat → List (String × Json) → Prop
  | nil : SpellsMembers [] 0 []
  | cons {name : String} {text : List Char} {m : Nat} {v : Json} {ms : List (String × List Char)} {n : Nat}
      {values : List (String × Json)} :
      Spells text m v → SpellsMembers ms n values →
        SpellsMembers ((name, text) :: ms) (max m n) ((name, v) :: values)

/-- Members set one after the other: a repeated key keeps its first place and takes the last value. -/
def ofMembers (ms : List (String × Json)) : List (String × Json) :=
  ms.foldl (fun before m => insert m.1 m.2 before) []

theorem SpellsEach.readsEach {texts : List (List Char)} {n : Nat} {values : List Json}
    (h : SpellsEach texts n values) {depth : Nat} (hdepth : n ≤ depth) : ReadsEach (value depth) texts values := by
  induction h with
  | nil => exact .nil
  | cons hhead _ ih => exact .cons ⟨hhead.starts, hhead.reads depth (by omega)⟩ (ih (by omega))

private theorem balanced_commaTail_of_each {texts : List (List Char)} {n : Nat} {values : List Json}
    (h : SpellsEach texts n values) : Balanced n (commaTail texts) := by
  induction h with
  | nil => exact balanced_nil
  | cons hhead _ ih => exact (hhead.balanced.cons (by decide)).append ih

theorem SpellsEach.balanced {texts : List (List Char)} {n : Nat} {values : List Json}
    (h : SpellsEach texts n values) : Balanced n (commaJoin texts) := by
  cases h with
  | nil => exact balanced_nil
  | cons hhead htail =>
    rw [commaJoin_cons]
    exact hhead.balanced.append (balanced_commaTail_of_each htail)

/-- A list that is read has levels enough for each of its items. -/
private theorem le_depth_of_itemsAfter {texts : List (List Char)} {n : Nat} {values : List Json}
    (h : SpellsEach texts n values) {depth : Nat} {rest : List Char} {room : Room} {before ws : List Json}
    {s : List Char}
    (hrun : (itemsAfter (value depth) room false before).run (commaTail texts ++ ']' :: rest) = .ok ws s) :
    n ≤ depth := by
  induction h generalizing room before with
  | nil => exact Nat.zero_le _
  | @cons text m v texts n values hhead _ ih =>
    cases room with
    | nil => cases hrun
    | cons _ room =>
      rw [itemsAfter, commaTail_item, run_bind_of_ok (run_hasItem_next hhead.starts _), if_pos rfl] at hrun
      obtain ⟨w, t, hitem, hrun⟩ := exists_of_bind hrun
      have hends := ends_commaTail_bracket texts rest
      have hm := hhead.needs depth _ hends w t hitem
      rw [hhead.reads depth hm _ hends] at hitem
      cases hitem
      exact Nat.max_le.2 ⟨hm, ih hrun⟩

theorem SpellsEach.le_depth {texts : List (List Char)} {n : Nat} {values : List Json} (h : SpellsEach texts n values)
    {depth : Nat} {rest : List Char} {ws : List Json} {s : List Char}
    (hrun : (items (value depth)).run (commaJoin texts ++ ']' :: rest) = .ok ws s) : n ≤ depth := by
  unfold items at hrun
  rw [run_withRoom] at hrun
  cases h with
  | nil => exact Nat.zero_le _
  | @cons text m v texts n values hhead htail =>
    rw [commaJoin_cons, List.append_assoc, itemsAfter, run_bind_of_ok (run_hasItem_first hhead.starts _),
      if_pos rfl] at hrun
    obtain ⟨w, t, hitem, hrun⟩ := exists_of_bind hrun
    have hends := ends_commaTail_bracket texts rest
    have hm := hhead.needs depth _ hends w t hitem
    rw [hhead.reads depth hm _ hends] at hitem
    cases hitem
    exact Nat.max_le.2 ⟨hm, le_depth_of_itemsAfter htail hrun⟩

/-- Texts of values between brackets, with commas between them, spell the list of the values. -/
theorem spells_list {texts : List (List Char)} {n : Nat} {values : List Json} (h : SpellsEach texts n values) :
    Spells ('[' :: (commaJoin texts ++ [']'])) (n + 1) (.array values) := by
  refine ⟨⟨'[', _, rfl, by decide, by decide⟩, h.balanced.enclose (.inl rfl) (.inl rfl), fun depth hdepth => ?_,
    fun depth rest _ w s hrun => ?_⟩
  · obtain ⟨depth, rfl⟩ : ∃ d, depth = d + 1 := ⟨depth - 1, by omega⟩
    intro rest _
    rw [List.cons_append, List.append_assoc, run_value_list]
    exact run_map_of_ok (enclosed_items (h.readsEach (by omega)) rest) Json.array
  · cases depth with
    | zero => cases hrun
    | succ depth =>
      rw [List.cons_append, List.append_assoc, run_value_list] at hrun
      obtain ⟨ws, hitems, -⟩ := exists_of_map hrun
      obtain ⟨t, hitems, -⟩ := exists_of_enclosed hitems
      exact Nat.succ_le_succ (h.le_depth hitems)

theorem balanced_memberText {name : String} {text : List Char} {n : Nat} (h : Balanced n text) :
    Balanced n (memberText (name, text)) := by
  have := (balanced_stringChars name).append (h.cons (c := ':') (by decide))
  rwa [Nat.zero_max] at this

private theorem balanced_commaTail_of_members {ms : List (String × List Char)} {n : Nat}
    {values : List (String × Json)} (h : SpellsMembers ms n values) :
    Balanced n (commaTail (ms.map memberText)) := by
  induction h with
  | nil => exact balanced_nil
  | cons hhead _ ih => exact ((balanced_memberText hhead.balanced).cons (by decide)).append ih

theorem SpellsMembers.balanced {ms : List (String × List Char)} {n : Nat} {values : List (String × Json)}
    (h : SpellsMembers ms n values) : Balanced n (commaJoin (ms.map memberText)) := by
  cases h with
  | nil => exact balanced_nil
  | cons hhead htail =>
    rw [List.map_cons, commaJoin_cons]
    exact (balanced_memberText hhead.balanced).append (balanced_commaTail_of_members htail)

theorem reads_memberWith {read : Reader Json} {text : List Char} {v : Json} (h : Reads read text v) (name : String)
    (before : List (String × Json)) :
    Reads (memberWith read name before) (':' :: text) (insert name v before) := by
  intro rest hrest
  have hcolon : colon.run (':' :: (text ++ rest)) = .ok () (text ++ rest) := rfl
  unfold memberWith
  rw [List.cons_append, run_bind_of_ok hcolon, run_bind_of_ok (h rest hrest), EStateM.run_pure]

theorem SpellsMembers.readsMembers {ms : List (String × List Char)} {n : Nat} {values : List (String × Json)}
    (h : SpellsMembers ms n values) {depth : Nat} (hdepth : n ≤ depth) (before : List (String × Json)) :
    ReadsMembers (memberWith (value depth)) ms before
      (values.foldl (fun before m => insert m.1 m.2 before) before) := by
  induction h generalizing before with
  | nil => exact .nil before
  | cons hhead _ ih =>
    exact .cons (reads_memberWith (hhead.reads depth (by omega)) _ before) (ih (by omega) _)

theorem run_valueMembers {ms : List (String × List Char)} {n : Nat} {values : List (String × Json)}
    (h : SpellsMembers ms n values) {depth : Nat} (hdepth : n ≤ depth) (rest : List Char) :
    (valueMembers depth).run ('\x7b' :: (commaJoin (ms.map memberText) ++ '\x7d' :: rest)) =
      .ok (ofMembers values) rest :=
  enclosed_members (h.readsMembers hdepth []) rest

/-- A member of an object that is read has levels enough for its value, and is read up to the next one. -/
private theorem le_depth_of_memberWith {text : List Char} {n : Nat} {v : Json} (h : Spells text n v) {depth : Nat}
    {name : String} {before after : List (String × Json)} {rest s : List Char} (hrest : Ends rest)
    (hrun : (memberWith (value depth) name before).run (':' :: text ++ rest) = .ok after s) : n ≤ depth ∧ s = rest := by
  unfold memberWith at hrun
  have hcolon : colon.run (':' :: (text ++ rest)) = .ok () (text ++ rest) := rfl
  rw [List.cons_append, run_bind_of_ok hcolon] at hrun
  obtain ⟨w, t, hvalue, hpure⟩ := exists_of_bind hrun
  have hdepth := h.needs depth rest hrest w t hvalue
  rw [h.reads depth hdepth rest hrest] at hvalue
  cases hvalue
  cases hpure
  exact ⟨hdepth, rfl⟩

private theorem le_depth_of_membersAfter {ms : List (String × List Char)} {n : Nat} {values : List (String × Json)}
    (h : SpellsMembers ms n values) {depth : Nat} {rest : List Char} {room : Room} {before after : List (String × Json)}
    {s : List Char}
    (hrun : (membersAfter (memberWith (value depth)) room false before).run
      (commaTail (ms.map memberText) ++ '\x7d' :: rest) = .ok after s) : n ≤ depth := by
  induction h generalizing room before with
  | nil => exact Nat.zero_le _
  | @cons name text m v ms n values hhead _ ih =>
    cases room with
    | nil => cases hrun
    | cons _ room =>
      rw [membersAfter, commaTail_member, run_bind_of_ok (run_hasMember_next _), if_pos rfl,
        run_bind_of_ok (stringBody_quote name _)] at hrun
      obtain ⟨between, t, hmember, hrun⟩ := exists_of_bind hrun
      obtain ⟨hm, rfl⟩ := le_depth_of_memberWith hhead (ends_commaTail_brace _ rest) hmember
      exact Nat.max_le.2 ⟨hm, ih hrun⟩

/-- An object that is read has levels enough for the values of its members. -/
theorem SpellsMembers.le_depth {ms : List (String × List Char)} {n : Nat} {values : List (String × Json)}
    (h : SpellsMembers ms n values) {depth : Nat} {rest : List Char} {after : List (String × Json)} {s : List Char}
    (hrun : (valueMembers depth).run ('\x7b' :: (commaJoin (ms.map memberText) ++ '\x7d' :: rest)) = .ok after s) :
    n ≤ depth := by
  obtain ⟨t, hrun, -⟩ := exists_of_enclosed hrun
  unfold members at hrun
  rw [run_withRoom] at hrun
  cases h with
  | nil => exact Nat.zero_le _
  | @cons name text m v ms n values hhead htail =>
    rw [commaJoin_member, membersAfter, run_bind_of_ok (run_hasMember_first _), if_pos rfl,
      run_bind_of_ok (stringBody_quote name _)] at hrun
    obtain ⟨between, t, hmember, hrun⟩ := exists_of_bind hrun
    obtain ⟨hm, rfl⟩ := le_depth_of_memberWith hhead (ends_commaTail_brace _ rest) hmember
    exact Nat.max_le.2 ⟨hm, le_depth_of_membersAfter htail hrun⟩

/-- Members between braces, with commas between them, spell the object with each of the keys once. -/
theorem spells_object {ms : List (String × List Char)} {n : Nat} {values : List (String × Json)}
    (h : SpellsMembers ms n values) :
    Spells ('\x7b' :: (commaJoin (ms.map memberText) ++ ['\x7d'])) (n + 1) (.object (ofMembers values)) := by
  refine ⟨⟨'\x7b', _, rfl, by decide, by decide⟩, h.balanced.enclose (.inr rfl) (.inr rfl), fun depth hdepth => ?_,
    fun depth rest _ w s hrun => ?_⟩
  · obtain ⟨depth, rfl⟩ : ∃ d, depth = d + 1 := ⟨depth - 1, by omega⟩
    intro rest _
    rw [List.cons_append, List.append_assoc, run_value_object]
    exact run_map_of_ok (run_valueMembers h (by omega) rest) Json.object
  · cases depth with
    | zero => cases hrun
    | succ depth =>
      rw [List.cons_append, List.append_assoc, run_value_object] at hrun
      obtain ⟨after, hmembers, -⟩ := exists_of_map hrun
      exact Nat.succ_le_succ (h.le_depth hmembers)

/-! ### The compact text of a value -/

/-- The number that the text of a number is read as. -/
def Number.reread : Number → Json
  | integer n fits => .number (.integer n fits)
  | double x => .ofBinary (Layout.json64.reread x)

mutual

/-- The value that the compact text of a value is read as. -/
def reread : Json → Json
  | .null => .null
  | .bool b => .bool b
  | .number n => n.reread
  | .string s => .string s
  | .array items => .array (rereadItems items)
  | .object members => .object (ofMembers (rereadMembers members))

/-- The values that the texts of items are read as. -/
def rereadItems : List Json → List Json
  | [] => []
  | x :: xs => x.reread :: rereadItems xs

/-- The members that the texts of members are read as, one by one. -/
def rereadMembers : List (String × Json) → List (String × Json)
  | [] => []
  | (k, v) :: ms => (k, v.reread) :: rereadMembers ms

end

mutual

/-- The number of lists and objects that are open at a time in a value. -/
def depth : Json → Nat
  | .array items => depthOfItems items + 1
  | .object members => depthOfMembers members + 1
  | _ => 0

/-- The largest depth of an item. -/
def depthOfItems : List Json → Nat
  | [] => 0
  | x :: xs => max x.depth (depthOfItems xs)

/-- The largest depth of a member. -/
def depthOfMembers : List (String × Json) → Nat
  | [] => 0
  | (_, v) :: ms => max v.depth (depthOfMembers ms)

end

theorem Number.spells_chars (n : Number) : Spells n.chars 0 n.reread := by
  cases n with
  | integer n fits => exact spells_integer fits
  | double x => exact spells_double x

theorem member_eq_memberText (m : String × Json) : member m = memberText (m.1, m.2.compact) := rfl

mutual

theorem spells_compact (j : Json) : Spells j.compact j.depth j.reread := by
  cases j with
  | null => exact spells_null
  | bool b => exact spells_bool b
  | number n => exact n.spells_chars
  | string s => exact spells_string s
  | array items =>
    rw [compact_array]
    exact spells_list (spellsEach_compact items)
  | object members =>
    rw [compact_object, show members.map member = (members.map fun m => (m.1, m.2.compact)).map memberText by
      rw [List.map_map]
      exact List.map_congr_left fun m _ => member_eq_memberText m]
    exact spells_object (spellsMembers_compact members)

theorem spellsEach_compact (items : List Json) :
    SpellsEach (items.map compact) (depthOfItems items) (rereadItems items) := by
  cases items with
  | nil => exact .nil
  | cons x xs => exact .cons (spells_compact x) (spellsEach_compact xs)

theorem spellsMembers_compact (members : List (String × Json)) :
    SpellsMembers (members.map fun m => (m.1, m.2.compact)) (depthOfMembers members) (rereadMembers members) := by
  match members with
  | [] => exact .nil
  | (k, v) :: ms => exact .cons (spells_compact v) (spellsMembers_compact ms)

end

end PropertyGraph.Json
