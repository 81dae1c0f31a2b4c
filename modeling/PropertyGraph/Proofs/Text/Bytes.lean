/-!
# Texts in bytes

A text as its bytes in UTF-8, and cut at places that are counted in bytes.  A text can be cut between two of its
characters and nowhere else, so a cut beyond its end or inside a character has no result.  The key facts: a cut is
exactly that (`splitBytes?_eq_some_iff`), a condition that only single bytes meet holds of the bytes of a text if it
holds of its characters (`all_bytes`), and in a text of single bytes the places are those of the characters
(`bytes_of_isAscii`, `slice?_of_isAscii`).
-/

namespace PropertyGraph.Utf8

/-- The bytes of a text. -/
def bytes (s : List Char) : List UInt8 := (String.ofList s).toByteArray.data.toList

/-- A text cut after a number of bytes; a text that ends before, or has a character across the cut, cannot be cut. -/
def splitBytes? : Nat → List Char → Option (List Char × List Char)
  | 0, s => some ([], s)
  | _ + 1, [] => none
  | n + 1, c :: s =>
    if c.utf8Size ≤ n + 1 then (splitBytes? (n + 1 - c.utf8Size) s).map fun (t, rest) => (c :: t, rest) else none

/-- What is left of a text after a number of bytes. -/
def dropBytes? (n : Nat) (s : List Char) : Option (List Char) := (splitBytes? n s).map Prod.snd

/-- The first bytes of a text. -/
def takeBytes? (n : Nat) (s : List Char) : Option (List Char) := (splitBytes? n s).map Prod.fst

/-- The part of a text between two numbers of bytes. -/
def slice? (first last : Nat) (s : List Char) : Option (List Char) :=
  if first ≤ last then (dropBytes? first s).bind (takeBytes? (last - first)) else none

/-! ### Cuts -/

theorem bytes_eq_flatMap (s : List Char) : bytes s = s.flatMap String.utf8EncodeChar := by
  rw [bytes, String.toByteArray_ofList, List.utf8Encode, List.toList_data_toByteArray]

theorem length_bytes_cons (c : Char) (s : List Char) : (bytes (c :: s)).length = c.utf8Size + (bytes s).length := by
  rw [bytes_eq_flatMap, List.flatMap_cons, List.length_append, String.length_utf8EncodeChar, ← bytes_eq_flatMap]

theorem length_bytes_eq_zero {s : List Char} : (bytes s).length = 0 ↔ s = [] := by
  cases s with
  | nil => simp [bytes]
  | cons c s =>
    have hsize := c.utf8Size_pos
    rw [length_bytes_cons]
    simp only [reduceCtorEq, iff_false]
    omega

/-- A text is cut after a number of bytes into two texts that make it up, the first of this many bytes. -/
theorem splitBytes?_eq_some_iff {n : Nat} {s t rest : List Char} :
    splitBytes? n s = some (t, rest) ↔ t ++ rest = s ∧ (bytes t).length = n := by
  fun_induction splitBytes? n s generalizing t with
  | case1 s =>
    rw [length_bytes_eq_zero]
    simp only [Option.some.injEq, Prod.mk.injEq]
    constructor
    · rintro ⟨rfl, rfl⟩
      exact ⟨rfl, rfl⟩
    · rintro ⟨rfl, rfl⟩
      exact ⟨rfl, rfl⟩
  | case2 n =>
    simp only [reduceCtorEq, List.append_eq_nil_iff, false_iff]
    rintro ⟨⟨rfl, -⟩, h⟩
    cases h
  | case3 n c s hle ih =>
    rw [Option.map_eq_some_iff]
    constructor
    · rintro ⟨⟨u, rest'⟩, hu, heq⟩
      obtain ⟨rfl, rfl⟩ := Prod.mk.inj heq
      obtain ⟨rfl, hlength⟩ := ih.1 hu
      rw [length_bytes_cons]
      exact ⟨rfl, by omega⟩
    · rintro ⟨happend, hlength⟩
      cases t with
      | nil => cases hlength
      | cons d u =>
        obtain ⟨rfl, rfl⟩ := List.cons.inj happend
        rw [length_bytes_cons] at hlength
        exact ⟨(u, rest), ih.2 ⟨rfl, by omega⟩, rfl⟩
  | case4 n c s hlt =>
    simp only [reduceCtorEq, false_iff]
    rintro ⟨happend, hlength⟩
    cases t with
    | nil => cases hlength
    | cons d u =>
      obtain ⟨rfl, -⟩ := List.cons.inj happend
      rw [length_bytes_cons] at hlength
      omega

/-! ### Single bytes -/

/-- A text of characters that are single bytes. -/
def IsAscii (s : List Char) : Prop := ∀ c ∈ s, c.toNat < 128

theorem utf8EncodeChar_of_lt {c : Char} (h : c.toNat < 128) : String.utf8EncodeChar c = [c.toUInt8] := by
  have hsize : c.utf8Size = 1 := Char.utf8Size_eq_one_iff.2 (UInt32.le_iff_toNat_le.2 (Nat.le_of_lt_succ h))
  exact String.utf8EncodeChar_eq_singleton hsize

theorem toNat_toUInt8 {c : Char} (h : c.toNat < 128) : c.toUInt8.toNat = c.toNat := by
  show c.val.toUInt8.toNat = c.toNat
  rw [UInt32.toNat_toUInt8]
  show c.toNat % 256 = c.toNat
  omega

/-- Characters that are single bytes are told apart by their bytes. -/
theorem toUInt8_beq {c d : Char} (hc : c.toNat < 128) (hd : d.toNat < 128) :
    (c.toUInt8 == d.toUInt8) = decide (c = d) := by
  rw [Bool.eq_iff_iff, beq_iff_eq, decide_eq_true_eq, ← UInt8.toNat_inj, toNat_toUInt8 hc, toNat_toUInt8 hd,
    Char.toNat_inj]

/-- A character that is no single byte begins with a byte that is none. -/
theorem exists_cons_utf8EncodeChar {c : Char} (h : 128 ≤ c.toNat) :
    ∃ b bs, String.utf8EncodeChar c = b :: bs ∧ 128 ≤ b := by
  have hnot : ¬c.val.toNat ≤ 127 := Nat.not_le_of_gt h
  have hbyte {n : Nat} (hn : 128 ≤ n % 256) : 128 ≤ UInt8.ofNat n := by
    rw [UInt8.le_iff_toNat_le, UInt8.toNat_ofNat']
    exact hn
  rw [String.utf8EncodeChar.eq_1, if_neg hnot]
  split
  · exact ⟨_, _, rfl, hbyte (by omega)⟩
  · split
    · exact ⟨_, _, rfl, hbyte (by omega)⟩
    · exact ⟨_, _, rfl, hbyte (by omega)⟩

/-- A condition on single bytes holds of all bytes of a text if the characters are single bytes that meet it. -/
theorem all_bytes {p : UInt8 → Bool} (hp : ∀ b, p b = true → b < 128) (s : List Char) :
    (bytes s).all p = s.all fun c => decide (c.toNat < 128) && p c.toUInt8 := by
  have hchar (c : Char) : (String.utf8EncodeChar c).all p = (decide (c.toNat < 128) && p c.toUInt8) := by
    by_cases h : c.toNat < 128
    · rw [utf8EncodeChar_of_lt h, List.all_cons, List.all_nil, Bool.and_true, decide_eq_true h, Bool.true_and]
    · obtain ⟨b, bs, hbytes, hb⟩ := exists_cons_utf8EncodeChar (Nat.le_of_not_lt h)
      have hfirst : p b = false := Bool.eq_false_iff.2 fun hpb => UInt8.not_lt.2 hb (hp b hpb)
      rw [hbytes, List.all_cons, hfirst, decide_eq_false h, Bool.false_and, Bool.false_and]
  rw [bytes_eq_flatMap, List.all_flatMap]
  exact congrArg s.all (funext hchar)

/-- The bytes of a text are below 128 exactly if its characters are single bytes. -/
theorem all_bytes_lt_iff {s : List Char} : (bytes s).all (· < 128) = true ↔ IsAscii s := by
  rw [all_bytes fun b hb => of_decide_eq_true hb, List.all_eq_true]
  refine forall₂_congr fun c _ => ?_
  rw [Bool.and_eq_true, decide_eq_true_eq, decide_eq_true_eq]
  refine and_iff_left_of_imp fun hc => UInt8.lt_iff_toNat_lt.2 ?_
  rwa [toNat_toUInt8 hc]

theorem bytes_of_isAscii {s : List Char} (h : IsAscii s) : bytes s = s.map fun c => c.toUInt8 := by
  rw [bytes_eq_flatMap, List.flatMap_def, List.map_congr_left fun c hc => utf8EncodeChar_of_lt (h c hc),
    ← List.flatMap_def, ← List.map_eq_flatMap]

theorem length_bytes_of_isAscii {s : List Char} (h : IsAscii s) : (bytes s).length = s.length := by
  rw [bytes_of_isAscii h, List.length_map]

theorem splitBytes?_of_isAscii {n : Nat} {s : List Char} (h : IsAscii s) (hn : n ≤ s.length) :
    splitBytes? n s = some (s.take n, s.drop n) := by
  refine splitBytes?_eq_some_iff.2 ⟨List.take_append_drop n s, ?_⟩
  rw [length_bytes_of_isAscii fun c hc => h c (List.mem_of_mem_take hc), List.length_take, Nat.min_eq_left hn]

theorem dropBytes?_of_isAscii {n : Nat} {s : List Char} (h : IsAscii s) (hn : n ≤ s.length) :
    dropBytes? n s = some (s.drop n) := by
  rw [dropBytes?, splitBytes?_of_isAscii h hn]
  rfl

theorem takeBytes?_of_isAscii {n : Nat} {s : List Char} (h : IsAscii s) (hn : n ≤ s.length) :
    takeBytes? n s = some (s.take n) := by
  rw [takeBytes?, splitBytes?_of_isAscii h hn]
  rfl

theorem slice?_of_isAscii {first last : Nat} {s : List Char} (h : IsAscii s) (hle : first ≤ last)
    (hlast : last ≤ s.length) : slice? first last s = some ((s.drop first).take (last - first)) := by
  have hdrop : IsAscii (s.drop first) := fun c hc => h c (List.mem_of_mem_drop hc)
  rw [slice?, if_pos hle, dropBytes?_of_isAscii h (Nat.le_trans hle hlast), Option.bind_some,
    takeBytes?_of_isAscii hdrop (by rw [List.length_drop]; omega)]

end PropertyGraph.Utf8
