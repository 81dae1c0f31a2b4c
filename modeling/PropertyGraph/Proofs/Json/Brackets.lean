import PropertyGraph.Proofs.Json.Number

/-!
# Brackets in a text

How many lists and objects are open at a place of a text.  A scan goes through the text from left to right and
knows no more than whether it stands between quotes; `nesting` is the largest number that it finds open at a
time.  The key facts: what is between quotes opens and closes nothing (`balanced_stringChars`), a text that
closes what it opens can stand anywhere (`Balanced.append`), and brackets around it nest one deeper
(`Balanced.enclose`).
-/

namespace PropertyGraph.Json

/-! ### Scanning a text -/

/-- Where a scan stands: outside of quotes, between quotes, or behind a backslash between quotes. -/
inductive Place where
  | outside | quoted | escaped
deriving DecidableEq

/-- Where a scan stands and how many lists and objects are open there. -/
structure Scan where
  place : Place
  level : Nat
deriving DecidableEq

namespace Scan

/-- The scan after a further character. -/
def step (scan : Scan) (c : Char) : Scan :=
  match scan.place with
  | .outside =>
    if c = '"' then ⟨.quoted, scan.level⟩
    else if c = '[' ∨ c = '\x7b' then ⟨.outside, scan.level + 1⟩
    else if c = ']' ∨ c = '\x7d' then ⟨.outside, scan.level - 1⟩
    else scan
  | .quoted =>
    if c = '"' then ⟨.outside, scan.level⟩
    else if c = '\\' then ⟨.escaped, scan.level⟩
    else scan
  | .escaped => ⟨.quoted, scan.level⟩

/-- The scan after a text. -/
def pass (scan : Scan) (s : List Char) : Scan := s.foldl step scan

/-- The largest number of lists and objects that are open at a time while a text is scanned. -/
def deepest (scan : Scan) : List Char → Nat
  | [] => scan.level
  | c :: s => max scan.level ((scan.step c).deepest s)

theorem pass_append (scan : Scan) (s t : List Char) : scan.pass (s ++ t) = (scan.pass s).pass t := List.foldl_append

theorem pass_cons (scan : Scan) (c : Char) (s : List Char) : scan.pass (c :: s) = (scan.step c).pass s := rfl

theorem level_le_deepest (scan : Scan) (s : List Char) : scan.level ≤ scan.deepest s := by
  cases s with
  | nil => exact Nat.le_refl _
  | cons c s => exact Nat.le_max_left _ _

theorem deepest_append (scan : Scan) (s t : List Char) :
    scan.deepest (s ++ t) = max (scan.deepest s) ((scan.pass s).deepest t) := by
  induction s generalizing scan with
  | nil => exact (Nat.max_eq_right (level_le_deepest scan t)).symm
  | cons c s ih =>
    show max scan.level ((scan.step c).deepest (s ++ t)) = _
    rw [ih, ← Nat.max_assoc]
    rfl

end Scan

/-- The largest number of lists and objects that are open at a time in a text. -/
def nesting (text : List Char) : Nat := Scan.deepest ⟨.outside, 0⟩ text

/-! ### Balanced texts -/

/-- A text that closes what it opens, and in which at most a number of lists and objects are open at a time. -/
def Balanced (n : Nat) (text : List Char) : Prop :=
  ∀ level, Scan.pass ⟨.outside, level⟩ text = ⟨.outside, level⟩ ∧ Scan.deepest ⟨.outside, level⟩ text = level + n

theorem Balanced.nesting_eq {n : Nat} {text : List Char} (h : Balanced n text) : nesting text = n := by
  rw [nesting, (h 0).2, Nat.zero_add]

theorem Balanced.append {m n : Nat} {s t : List Char} (hs : Balanced m s) (ht : Balanced n t) :
    Balanced (max m n) (s ++ t) := by
  intro level
  rw [Scan.pass_append, Scan.deepest_append, (hs level).1, (hs level).2, (ht level).2]
  exact ⟨(ht level).1, by omega⟩

/-- A character that opens and closes nothing outside of quotes. -/
def IsPlain (c : Char) : Prop := c ≠ '"' ∧ c ≠ '[' ∧ c ≠ '\x7b' ∧ c ≠ ']' ∧ c ≠ '\x7d'

instance (c : Char) : Decidable (IsPlain c) :=
  inferInstanceAs (Decidable (c ≠ '"' ∧ c ≠ '[' ∧ c ≠ '\x7b' ∧ c ≠ ']' ∧ c ≠ '\x7d'))

theorem forall_isPlain {text : List Char} (h : text.all (fun c => decide (IsPlain c)) = true) :
    ∀ c ∈ text, IsPlain c := fun c hc => of_decide_eq_true (List.all_eq_true.1 h c hc)

theorem Scan.step_plain {c : Char} (h : IsPlain c) (level : Nat) :
    Scan.step ⟨.outside, level⟩ c = ⟨.outside, level⟩ := by
  obtain ⟨hquote, hbracket, hbrace, hbracket', hbrace'⟩ := h
  simp [Scan.step, hquote, hbracket, hbrace, hbracket', hbrace']

theorem balanced_nil : Balanced 0 [] := fun _ => ⟨rfl, rfl⟩

theorem Balanced.cons {c : Char} (hc : IsPlain c) {n : Nat} {text : List Char} (h : Balanced n text) :
    Balanced n (c :: text) := by
  intro level
  rw [Scan.pass_cons, Scan.deepest, Scan.step_plain hc, (h level).1, (h level).2]
  exact ⟨rfl, by dsimp only; omega⟩

theorem balanced_plain {text : List Char} (h : ∀ c ∈ text, IsPlain c) : Balanced 0 text := by
  induction text with
  | nil => exact balanced_nil
  | cons c text ih =>
    exact Balanced.cons (h c (List.mem_cons_self ..)) (ih fun d hd => h d (List.mem_cons_of_mem _ hd))

theorem Balanced.enclose {n : Nat} {text : List Char} (h : Balanced n text) {first last : Char}
    (hfirst : first = '[' ∨ first = '\x7b') (hlast : last = ']' ∨ last = '\x7d') :
    Balanced (n + 1) (first :: (text ++ [last])) := by
  intro level
  have hopen : Scan.step ⟨.outside, level⟩ first = ⟨.outside, level + 1⟩ := by
    rcases hfirst with rfl | rfl <;> rfl
  have hclose : Scan.step ⟨.outside, level + 1⟩ last = ⟨.outside, level⟩ := by
    rcases hlast with rfl | rfl <;> rfl
  rw [Scan.pass_cons, Scan.deepest, hopen, Scan.pass_append, Scan.deepest_append, (h _).1, (h _).2, Scan.pass_cons,
    Scan.deepest, hclose]
  exact ⟨rfl, by simp only [Scan.deepest]; omega⟩

/-! ### Quotes -/

/-- A text between quotes that leaves the scan between them. -/
private def Inside (text : List Char) : Prop :=
  ∀ level, Scan.pass ⟨.quoted, level⟩ text = ⟨.quoted, level⟩ ∧ Scan.deepest ⟨.quoted, level⟩ text = level

private theorem Inside.append {s t : List Char} (hs : Inside s) (ht : Inside t) : Inside (s ++ t) := by
  intro level
  rw [Scan.pass_append, Scan.deepest_append, (hs level).1, (hs level).2, (ht level).2]
  exact ⟨(ht level).1, Nat.max_self level⟩

private theorem inside_plain {text : List Char} (h : ∀ c ∈ text, c ≠ '"' ∧ c ≠ '\\') : Inside text := by
  induction text with
  | nil => exact fun _ => ⟨rfl, rfl⟩
  | cons c text ih =>
    intro level
    obtain ⟨hquote, hslash⟩ := h c (List.mem_cons_self ..)
    have hstep : Scan.step ⟨.quoted, level⟩ c = ⟨.quoted, level⟩ := by simp [Scan.step, hquote, hslash]
    have htail := ih (fun d hd => h d (List.mem_cons_of_mem _ hd)) level
    rw [Scan.pass_cons, Scan.deepest, hstep, htail.1, htail.2]
    exact ⟨rfl, Nat.max_self level⟩

private theorem inside_slash (c : Char) {text : List Char} (h : ∀ d ∈ text, d ≠ '"' ∧ d ≠ '\\') :
    Inside ('\\' :: c :: text) := by
  intro level
  have htail := inside_plain h level
  rw [Scan.pass_cons, Scan.pass_cons, Scan.deepest, Scan.deepest]
  show Scan.pass ⟨.quoted, level⟩ text = _ ∧ max level (max level (Scan.deepest ⟨.quoted, level⟩ text)) = level
  rw [htail.2, Nat.max_self, Nat.max_self]
  exact ⟨htail.1, rfl⟩

private theorem hexDigit_ne {n : Nat} (h : n < 16) : Quoted.hexDigit n ≠ '"' ∧ Quoted.hexDigit n ≠ '\\' := by
  have hall : ∀ n < 16, Quoted.hexDigit n ≠ '"' ∧ Quoted.hexDigit n ≠ '\\' := by decide
  exact hall n h

private theorem inside_escape (c : Char) : Inside (Quoted.escape c) := by
  unfold Quoted.escape
  split
  · exact inside_slash '"' (by simp)
  split
  · exact inside_slash '\\' (by simp)
  split
  · rename_i hquote hslash _
    exact inside_plain (by simp [hquote, hslash])
  split
  · exact inside_slash 'n' (by simp)
  split
  · exact inside_slash 'r' (by simp)
  split
  · exact inside_slash 't' (by simp)
  split
  · exact inside_slash 'b' (by simp)
  split
  · exact inside_slash 'f' (by simp)
  · rename_i hc _ _ _ _ _
    refine inside_slash 'u' fun d hd => ?_
    simp only [List.mem_cons, List.not_mem_nil, or_false] at hd
    rcases hd with rfl | rfl | rfl | rfl
    · decide
    · decide
    · exact hexDigit_ne (by omega)
    · exact hexDigit_ne (by omega)

private theorem inside_flatMap_escape (s : List Char) : Inside (s.flatMap Quoted.escape) := by
  induction s with
  | nil => exact fun _ => ⟨rfl, rfl⟩
  | cons c s ih =>
    rw [List.flatMap_cons]
    exact (inside_escape c).append ih

theorem balanced_stringChars (s : String) : Balanced 0 (stringChars s) := by
  intro level
  have hinside := inside_flatMap_escape s.toList level
  rw [stringChars, Quoted.quote, Scan.pass_cons, Scan.deepest, Scan.pass_append, Scan.deepest_append]
  show Scan.pass (Scan.pass ⟨.quoted, level⟩ _) ['"'] = _ ∧
    max level (max (Scan.deepest ⟨.quoted, level⟩ _) (Scan.deepest (Scan.pass ⟨.quoted, level⟩ _) ['"'])) = level
  rw [hinside.1, hinside.2]
  exact ⟨rfl, by show max level (max level (max level level)) = level; omega⟩

/-! ### Numbers -/

theorem isPlain_of_isDigit {c : Char} (h : c.isDigit = true) : IsPlain c := by
  refine ⟨?_, ?_, ?_, ?_, ?_⟩ <;> rintro rfl <;> cases h

/-- A character that numbers are written with: a digit, a point, a sign or the letter before an exponent. -/
def IsNumeric (c : Char) : Prop := c.isDigit = true ∨ c = '.' ∨ c = '-' ∨ c = '+' ∨ c = 'e'

instance (c : Char) : Decidable (IsNumeric c) :=
  inferInstanceAs (Decidable (c.isDigit = true ∨ c = '.' ∨ c = '-' ∨ c = '+' ∨ c = 'e'))

theorem IsNumeric.isPlain {c : Char} (h : IsNumeric c) : IsPlain c := by
  rcases h with h | rfl | rfl | rfl | rfl
  · exact isPlain_of_isDigit h
  · decide
  · decide
  · decide
  · decide

theorem IsNumeric.utf8Size_eq {c : Char} (h : IsNumeric c) : c.utf8Size = 1 := by
  rcases h with h | rfl | rfl | rfl | rfl
  · have hrange : '0'.val ≤ c.val ∧ c.val ≤ '9'.val := by simpa [Char.isDigit] using h
    exact if_pos (UInt32.le_trans hrange.2 (by decide))
  · decide
  · decide
  · decide
  · decide

theorem isNumeric_signed {n : Int} {c : Char} (h : c ∈ Decimal.signed n) : IsNumeric c := by
  unfold Decimal.signed at h
  split at h
  · rcases List.mem_cons.1 h with rfl | h
    · decide
    · exact .inl (Decimal.isDigit_of_mem_digits h)
  · exact .inl (Decimal.isDigit_of_mem_digits h)

theorem isPlain_signed {n : Int} {c : Char} (h : c ∈ Decimal.signed n) : IsPlain c := (isNumeric_signed h).isPlain

private theorem isNumeric_positional {fraction : Bool} {s : Significant} (hs : ∀ c ∈ s.digits, c.isDigit = true)
    {c : Char} (h : c ∈ Layout.positional fraction s) : IsNumeric c := by
  have hzeros : ∀ {n : Nat}, c ∈ List.replicate n '0' → IsNumeric c := by
    intro n hc
    rw [List.eq_of_mem_replicate hc]
    decide
  unfold Layout.positional at h
  split at h
  · simp only [List.mem_cons, List.mem_append] at h
    rcases h with rfl | rfl | h | h
    · decide
    · decide
    · exact hzeros h
    · exact .inl (hs c h)
  · dsimp only at h
    split at h
    · simp only [List.mem_append] at h
      rcases h with (h | h) | h
      · exact .inl (hs c h)
      · exact hzeros h
      · split at h
        · simp only [List.mem_cons, List.not_mem_nil, or_false] at h
          rcases h with rfl | rfl <;> decide
        · cases h
    · simp only [List.mem_append, List.mem_cons] at h
      rcases h with h | rfl | h
      · exact .inl (hs c (List.mem_of_mem_take h))
      · decide
      · exact .inl (hs c (List.mem_of_mem_drop h))

private theorem isNumeric_scientific {plus : Bool} {s : Significant} (hs : ∀ c ∈ s.digits, c.isDigit = true)
    {c : Char} (h : c ∈ Layout.scientific plus s) : IsNumeric c := by
  unfold Layout.scientific at h
  simp only [List.mem_append, List.mem_cons] at h
  rcases h with ((h | h) | rfl | h) | h
  · exact .inl (hs c (List.mem_of_mem_take h))
  · split at h
    · cases h
    · rcases List.mem_cons.1 h with rfl | h
      · decide
      · exact .inl (hs c (List.mem_of_mem_drop h))
  · decide
  · split at h
    · obtain rfl := List.mem_singleton.1 h
      decide
    · cases h
  · exact isNumeric_signed h

theorem isNumeric_finite {F : BinaryFormat} {L : Layout} {x : Finite F} {c : Char} (h : c ∈ L.finite x) :
    IsNumeric c := by
  have hdigits := (Reader.readable_shortest (F := F) L.tie x.ordinal).isWhole.isDigit
  unfold Layout.finite at h
  dsimp only at h
  rcases List.mem_append.1 h with h | h
  · split at h
    · obtain rfl := List.mem_singleton.1 h
      decide
    · cases h
  · split at h
    · exact isNumeric_positional hdigits h
    · exact isNumeric_scientific hdigits h

theorem isPlain_finite {F : BinaryFormat} {L : Layout} {x : Finite F} {c : Char} (h : c ∈ L.finite x) : IsPlain c :=
  (isNumeric_finite h).isPlain

end PropertyGraph.Json
