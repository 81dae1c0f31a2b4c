import Mathlib.Data.List.DropRight
import PropertyGraph.Proofs.Json.Reading

/-!
# Runs that succeed

What a reader that gives a value has found in the text, one statement for each reader: the characters it took, the
runs of the readers inside it, and what is left.  The key facts: where a value begins (`leads_of_run`), and how a
list or an object goes on (`hasItem_of_run`, `hasMember_of_run`).
-/

namespace PropertyGraph.Json.Reader

variable {α β : Type} {s t rest : List Char}

/-! ### Steps of a run -/

theorem exists_of_bind {read : Reader α} {f : α → Reader β} {b : β} (h : (read >>= f).run s = .ok b rest) :
    ∃ a t, read.run s = .ok a t ∧ (f a).run t = .ok b rest := by
  rw [EStateM.run_bind] at h
  split at h
  · rename_i a t hread
    exact ⟨a, t, hread, h⟩
  · cases h

theorem exists_of_map {read : Reader α} {f : α → β} {b : β} (h : (f <$> read).run s = .ok b rest) :
    ∃ a, read.run s = .ok a rest ∧ b = f a := by
  rw [map_eq_pure_bind] at h
  obtain ⟨a, t, hread, hpure⟩ := exists_of_bind h
  cases hpure
  exact ⟨a, hread, rfl⟩

theorem not_failAhead_ok {fault : SyntaxFault} {bytes : Nat} {a : α} :
    ¬(failAhead fault bytes : Reader α).run s = .ok a rest := by
  intro h
  cases h

theorem of_dite {c : Prop} [Decidable c] {yes : c → Reader α} {no : Reader α} {a : α}
    (h : (if hc : c then yes hc else no).run s = .ok a rest) :
    (∃ hc, (yes hc).run s = .ok a rest) ∨ no.run s = .ok a rest := by
  split at h
  · exact .inl ⟨_, h⟩
  · exact .inr h

theorem not_placed_throw_ok {fault : Fault} {a : α} : ¬(placed (throw fault) : Reader α).run s = .ok a rest := by
  intro h
  obtain ⟨cause, unread⟩ := fault
  cases unread <;> cases h

theorem eq_of_literal {cs : List Char} (h : (literal cs).run s = .ok () rest) : s = cs ++ rest := by
  induction cs generalizing s with
  | nil =>
    cases h
    rfl
  | cons c cs ih =>
    unfold literal at h
    rw [run_bind_of_ok (run_peek _)] at h
    cases s with
    | nil => cases h
    | cons d s =>
      dsimp only [List.head?_cons] at h
      split at h
      · rename_i hd
        rw [run_bind_of_ok (run_advance _)] at h
        rw [hd, List.cons_append, ← ih h, List.tail_cons]
      · cases h

/-! ### Strings -/

theorem exists_of_hexEscape {n : Nat} (h : hexEscape.run s = .ok n rest) :
    ∃ a b c d, s = a :: b :: c :: d :: rest ∧ hexValue4? a b c d = some n := by
  simp only [hexEscape, EStateM.run] at h
  split at h
  · split at h
    · rename_i hvalue
      cases h
      exact ⟨_, _, _, _, rfl, hvalue⟩
    · cases h
  · split at h <;> cases h

/-- The second half of a pair of escapes begins with a backslash and the letter of an escape. -/
theorem exists_of_secondHalf {n : Nat} (h : secondHalf.run s = .ok n rest) :
    ∃ t, s = '\\' :: 'u' :: t ∧ hexEscape.run t = .ok n rest := by
  unfold secondHalf at h
  rw [run_bind_of_ok (run_peek _)] at h
  split at h
  · cases h
  · rename_i hhead
    obtain ⟨s, rfl⟩ := List.head?_eq_some_iff.1 hhead
    rw [run_bind_of_ok (run_advance _), List.tail_cons, run_bind_of_ok (run_peek _)] at h
    split at h
    · cases h
    · rename_i hhead'
      obtain ⟨s, rfl⟩ := List.head?_eq_some_iff.1 hhead'
      exact ⟨s, rfl, h⟩
    · cases h
  · cases h

theorem exists_of_unicodeEscape {c : Char} (h : unicodeEscape.run s = .ok c rest) :
    ∃ n t, hexEscape.run s = .ok n t ∧ (t = rest ∨ ∃ low, secondHalf.run t = .ok low rest) := by
  unfold unicodeEscape at h
  obtain ⟨high, t, hhigh, h⟩ := exists_of_bind h
  refine ⟨high, t, hhigh, ?_⟩
  split at h
  · cases h
  split at h
  · obtain ⟨low, t', hlow, h⟩ := exists_of_bind h
    split at h
    · obtain ⟨-, rfl⟩ := EStateM.Result.ok.inj h
      exact .inr ⟨low, hlow⟩
    · exact absurd h not_failAhead_ok
  · cases h
    exact .inl rfl

theorem exists_of_escape {c : Char} (h : escape.run s = .ok c rest) :
    (∃ t, s = 'u' :: t ∧ unicodeEscape.run t = .ok c rest) ∨
      ∃ d, d ≠ 'u' ∧ s = d :: rest ∧ simpleEscape? d = some c := by
  unfold escape at h
  rw [run_bind_of_ok (run_peek _)] at h
  split at h
  · cases h
  · rename_i hhead
    obtain ⟨s, rfl⟩ := List.head?_eq_some_iff.1 hhead
    exact .inl ⟨s, rfl, h⟩
  · rename_i d hd hhead
    obtain ⟨s, rfl⟩ := List.head?_eq_some_iff.1 hhead
    split at h
    · rename_i hsimple
      cases h
      exact .inr ⟨d, hd, rfl, hsimple⟩
    · cases h

/-- What is next in a string: the quote at its end, an escape, or a character that stands for itself. -/
inductive StringItem : List Char → Option Char → List Char → Prop
  | close (t : List Char) : StringItem ('"' :: t) none t
  | escape {t rest : List Char} {c : Char} (h : escape.run t = .ok c rest) : StringItem ('\\' :: t) (some c) rest
  | plain {c : Char} (t : List Char) (hquote : c ≠ '"') (hslash : c ≠ '\\') (hc : ¬c.toNat < 0x20) :
      StringItem (c :: t) (some c) t

theorem stringItem_of_run {item : Option Char} (h : stringItem.run s = .ok item rest) : StringItem s item rest := by
  unfold stringItem at h
  rw [run_bind_of_ok (run_peek _)] at h
  split at h
  · cases h
  · rename_i hhead
    obtain ⟨s, rfl⟩ := List.head?_eq_some_iff.1 hhead
    cases h
    exact .close _
  · rename_i hhead
    obtain ⟨s, rfl⟩ := List.head?_eq_some_iff.1 hhead
    rw [run_bind_of_ok (run_advance _), List.tail_cons] at h
    obtain ⟨c, hc, rfl⟩ := exists_of_map h
    exact .escape hc
  · rename_i c hquote hslash hhead
    obtain ⟨s, rfl⟩ := List.head?_eq_some_iff.1 hhead
    split at h
    · cases h
    · rename_i hc
      cases h
      exact .plain _ hquote hslash hc

/-! ### Numbers -/

/-- An exponent behind its letter: a sign that may be left out, and digits. -/
def TakesExponent (s rest : List Char) : Prop :=
  ∃ t, t = (if s.head? = some '+' ∨ s.head? = some '-' then s.tail else s) ∧
    t.takeWhile Char.isDigit ≠ [] ∧ t.dropWhile Char.isDigit = rest

/-- What comes behind the digits of a significand: an exponent, or nothing. -/
inductive TakesExponentIfAny : List Char → List Char → Prop
  | none {s : List Char} (h : ¬(s.head? = some 'e' ∨ s.head? = some 'E')) : TakesExponentIfAny s s
  | exponent {s rest : List Char} (hletter : s.head? = some 'e' ∨ s.head? = some 'E')
      (h : TakesExponent s.tail rest) : TakesExponentIfAny s rest

/-- What comes behind the integer digits of a number: a fraction that may be left out, and an exponent if any. -/
inductive TakesFraction : List Char → List Char → Prop
  | none {s rest : List Char} (hpoint : s.head? ≠ some '.') (h : TakesExponentIfAny s rest) : TakesFraction s rest
  | fraction {s rest : List Char} (hpoint : s.head? = some '.') (hdigits : s.tail.takeWhile Char.isDigit ≠ [])
      (h : TakesExponentIfAny (s.tail.dropWhile Char.isDigit) rest) : TakesFraction s rest

theorem eq_of_double {negative : Bool} {significand : Nat} {exponent : Int} {n : Number}
    (h : (double negative significand exponent).run s = .ok n rest) : s = rest := by
  unfold double at h
  split at h
  · cases h
    rfl
  · cases h

/-- Digits that are none are refused, whether or not a character follows. -/
private theorem ne_nil_of_not_refused {ds : List Char} {next : Option Char} (hnone : ds = [] → next = none → False)
    (hsome : ∀ c, ds = [] → next = some c → False) : ds ≠ [] := by
  intro hnil
  cases next with
  | none => exact hnone hnil rfl
  | some c => exact hsome c hnil rfl

/-- What follows a character that may be left out reads on behind it or at once. -/
theorem run_advance_if {present : Prop} [Decidable present] (next : Reader α) (s : List Char) :
    EStateM.run (if present then advance >>= fun _ => next else next) s =
      next.run (if present then s.tail else s) := by
  split
  · exact run_bind_of_ok (run_advance _) _
  · rfl

theorem takesExponent_of_run {negative : Bool} {significand : Nat} {exponent : Int} {n : Number}
    (h : (exponentPart negative significand exponent).run s = .ok n rest) : TakesExponent s rest := by
  unfold exponentPart at h
  rw [run_bind_of_ok (run_peek _)] at h
  have h := (run_advance_if _ s).symm.trans h
  refine ⟨_, rfl, ?_⟩
  generalize (if s.head? = some '+' ∨ s.head? = some '-' then s.tail else s) = t at h ⊢
  rw [run_bind_of_ok (run_digits _), run_bind_of_ok (run_peek _)] at h
  split at h
  · cases h
  · cases h
  · rename_i hnone hsome
    refine ⟨ne_nil_of_not_refused hnone hsome, ?_⟩
    split at h
    · exact eq_of_double h
    split at h
    · cases h
    · exact eq_of_double h

theorem takesExponentIfAny_of_run {negative : Bool} {significand : Nat} {exponent : Int} {n : Number}
    (h : (exponentIfAny negative significand exponent).run s = .ok n rest) : TakesExponentIfAny s rest := by
  unfold exponentIfAny at h
  rw [run_bind_of_ok (run_peek _)] at h
  split at h
  · rename_i hletter
    rw [run_bind_of_ok (run_advance _)] at h
    exact .exponent hletter (takesExponent_of_run h)
  · rename_i hletter
    exact eq_of_double h ▸ .none hletter

theorem takesFraction_of_run {negative : Bool} {integer : List Char} {n : Number}
    (h : (afterInteger negative integer).run s = .ok n rest) : TakesFraction s rest := by
  unfold afterInteger at h
  dsimp only at h
  rw [run_bind_of_ok (run_peek _)] at h
  split at h
  · rename_i hpoint
    rw [run_bind_of_ok (run_advance _)] at h
    unfold fractionPart at h
    rw [run_bind_of_ok (run_digits _), run_bind_of_ok (run_peek _)] at h
    split at h
    · cases h
    · cases h
    · rename_i hnone hsome
      exact .fraction hpoint (ne_nil_of_not_refused hnone hsome) (takesExponentIfAny_of_run h)
  · rename_i hpoint
    refine .none hpoint ?_
    split at h
    · rename_i hletter
      rw [run_bind_of_ok (run_advance _)] at h
      exact .exponent hletter (takesExponent_of_run h)
    · rename_i hletter
      rcases of_dite h with ⟨_, h⟩ | h
      · cases h
        exact .none hletter
      · exact eq_of_double h ▸ .none hletter

/-- A number has integer digits, of which the first is no zero unless it is the only one. -/
theorem takesNumber_of_run {negative : Bool} {n : Number} (h : (number negative).run s = .ok n rest) :
    (∃ c ds, s.takeWhile Char.isDigit = c :: ds ∧ (c = '0' → ds = [])) ∧
      TakesFraction (s.dropWhile Char.isDigit) rest := by
  unfold number at h
  rw [run_bind_of_ok (run_peek _)] at h
  split at h
  · cases h
  · rename_i hzero
    obtain ⟨t, rfl⟩ := List.head?_eq_some_iff.1 hzero
    rw [run_bind_of_ok (run_advance _), List.tail_cons, run_bind_of_ok (run_peek _)] at h
    rw [List.takeWhile_cons_of_pos (by decide), List.dropWhile_cons_of_pos (by decide)]
    cases t with
    | nil => exact ⟨⟨_, _, rfl, fun _ => rfl⟩, takesFraction_of_run h⟩
    | cons c t =>
      dsimp only [List.head?_cons] at h
      split at h
      · cases h
      · rename_i hc
        rw [List.takeWhile_cons_of_neg hc, List.dropWhile_cons_of_neg hc]
        exact ⟨⟨_, _, rfl, fun _ => rfl⟩, takesFraction_of_run h⟩
  · rename_i c hzero hhead
    split at h
    · rename_i hdigit
      rw [run_bind_of_ok (run_digits _)] at h
      refine ⟨?_, takesFraction_of_run h⟩
      obtain ⟨t, rfl⟩ := List.head?_eq_some_iff.1 hhead
      exact ⟨c, _, List.takeWhile_cons_of_pos hdigit, fun heq => absurd (heq ▸ rfl) hzero⟩
    · cases h

/-! ### Where a value begins -/

/-- The literals, apart from their first letter, and the values that they stand for. -/
inductive Word : Char → List Char → Json → Prop
  | null : Word 'n' ['u', 'l', 'l'] .null
  | true : Word 't' ['r', 'u', 'e'] (.bool true)
  | false : Word 'f' ['a', 'l', 's', 'e'] (.bool false)

/-- What stands where a value begins, behind the blanks: a scalar, which is taken, or the opening of a list or an
object, which stays. -/
inductive Leads : List Char → Lead → List Char → Prop
  | word {c : Char} {cs t rest : List Char} {v : Json} (hword : Word c cs v) (h : (literal cs).run t = .ok () rest) :
      Leads (c :: t) (.scalar v) rest
  | string {t rest : List Char} {x : String} (h : stringBody.run t = .ok x rest) :
      Leads ('"' :: t) (.scalar (.string x)) rest
  | negative {t rest : List Char} {n : Number} (h : (number true).run t = .ok n rest) :
      Leads ('-' :: t) (.scalar (.number n)) rest
  | number {c : Char} {t rest : List Char} {n : Number} (hc : c.isDigit = true)
      (h : (number false).run (c :: t) = .ok n rest) : Leads (c :: t) (.scalar (.number n)) rest
  | list (t : List Char) : Leads ('[' :: t) .list ('[' :: t)
  | object (t : List Char) : Leads ('\x7b' :: t) .object ('\x7b' :: t)

/-- The opening of a list stays. -/
theorem Leads.eq_of_list (h : Leads s .list rest) : s = rest := by
  cases h
  rfl

/-- The opening of an object stays. -/
theorem Leads.eq_of_object (h : Leads s .object rest) : s = rest := by
  cases h
  rfl

theorem leads_of_run {found : Lead} (h : lead.run s = .ok found rest) :
    Leads (s.dropWhile isJsonBlank) found rest := by
  unfold lead at h
  rw [run_bind_of_ok (run_peekToken _)] at h
  generalize s.dropWhile isJsonBlank = t at h
  have hword {c : Char} {cs : List Char} {v : Json} (hword : Word c cs v) (hc : t.head? = some c)
      (h : EStateM.run (advance >>= fun _ => literal cs >>= fun _ => pure (Lead.scalar v)) t = .ok found rest) :
      Leads t found rest := by
    obtain ⟨t, rfl⟩ := List.head?_eq_some_iff.1 hc
    rw [run_bind_of_ok (run_advance _)] at h
    obtain ⟨_, _, hread, hpure⟩ := exists_of_bind h
    cases hpure
    exact .word hword hread
  split at h
  · cases h
  · rename_i hc
    exact hword .null hc h
  · rename_i hc
    exact hword .true hc h
  · rename_i hc
    exact hword .false hc h
  · rename_i hc
    obtain ⟨t, rfl⟩ := List.head?_eq_some_iff.1 hc
    rw [run_bind_of_ok (run_advance _)] at h
    obtain ⟨x, _, hbody, hpure⟩ := exists_of_bind h
    cases hpure
    exact .string hbody
  · rename_i hc
    obtain ⟨t, rfl⟩ := List.head?_eq_some_iff.1 hc
    rw [run_bind_of_ok (run_advance _)] at h
    obtain ⟨n, _, hnumber, hpure⟩ := exists_of_bind h
    cases hpure
    exact .negative hnumber
  · rename_i hc
    obtain ⟨t, rfl⟩ := List.head?_eq_some_iff.1 hc
    cases h
    exact .list t
  · rename_i hc
    obtain ⟨t, rfl⟩ := List.head?_eq_some_iff.1 hc
    cases h
    exact .object t
  · rename_i hc
    obtain ⟨t, rfl⟩ := List.head?_eq_some_iff.1 hc
    split at h
    · rename_i hdigit
      obtain ⟨n, _, hnumber, hpure⟩ := exists_of_bind h
      cases hpure
      exact .number hdigit hnumber
    · cases h

/-! ### Lists and objects -/

/-- How a list goes on, behind the blanks: it ends, or there is a further item, the first one or one behind a comma. -/
inductive HasItem : Bool → List Char → Bool → List Char → Prop
  | close (first : Bool) (t : List Char) : HasItem first (']' :: t) false (']' :: t)
  | first {c : Char} (t : List Char) (hc : c ≠ ']') : HasItem true (c :: t) true (c :: t)
  | next (t : List Char) : HasItem false (',' :: t) true (t.dropWhile isJsonBlank)

theorem hasItem_of_run {first more : Bool} (h : (hasItem first).run s = .ok more rest) :
    HasItem first (s.dropWhile isJsonBlank) more rest := by
  unfold hasItem at h
  rw [run_bind_of_ok (run_peekToken _)] at h
  generalize s.dropWhile isJsonBlank = t at h
  split at h
  · cases h
  · rename_i hc
    obtain ⟨t, rfl⟩ := List.head?_eq_some_iff.1 hc
    cases h
    exact .close _ t
  · rename_i c hbracket hc
    obtain ⟨t, rfl⟩ := List.head?_eq_some_iff.1 hc
    split at h
    · rename_i hfirst
      cases h
      exact hfirst ▸ .first t hbracket
    split at h
    · rename_i hfirst hcomma
      obtain rfl := hcomma
      obtain rfl := Bool.eq_false_iff.2 hfirst
      rw [run_bind_of_ok (run_advance _), run_bind_of_ok (run_peekToken _)] at h
      split at h
      · cases h
      · cases h
      · cases h
        exact .next t
    · cases h

/-- Where a list has no further item its closing bracket is next. -/
theorem exists_eq_of_hasItem_false {first : Bool} (h : (hasItem first).run s = .ok false rest) :
    ∃ t, rest = ']' :: t := by
  have hhas := hasItem_of_run h
  generalize s.dropWhile isJsonBlank = start at hhas
  cases hhas
  exact ⟨_, rfl⟩

/-- How an object goes on, behind the blanks: it ends, or there is a further member, the first one or one behind a
comma, and the quote before its key is taken. -/
inductive HasMember : Bool → List Char → Bool → List Char → Prop
  | close (first : Bool) (t : List Char) : HasMember first ('\x7d' :: t) false ('\x7d' :: t)
  | first (t : List Char) : HasMember true ('"' :: t) true t
  | next {t u : List Char} (h : t.dropWhile isJsonBlank = '"' :: u) : HasMember false (',' :: t) true u

theorem hasMember_of_run {first more : Bool} (h : (hasMember first).run s = .ok more rest) :
    HasMember first (s.dropWhile isJsonBlank) more rest := by
  unfold hasMember at h
  rw [run_bind_of_ok (run_peekToken _)] at h
  generalize s.dropWhile isJsonBlank = t at h
  split at h
  · cases h
  · rename_i hc
    obtain ⟨t, rfl⟩ := List.head?_eq_some_iff.1 hc
    cases h
    exact .close _ t
  · rename_i c _ hc
    obtain ⟨t, rfl⟩ := List.head?_eq_some_iff.1 hc
    split at h
    · rename_i hfirst
      split at h
      · rename_i hquote
        obtain rfl := hquote
        cases h
        exact hfirst ▸ .first t
      · cases h
    split at h
    · rename_i hfirst hcomma
      obtain rfl := hcomma
      obtain rfl := Bool.eq_false_iff.2 hfirst
      rw [run_bind_of_ok (run_advance _), run_bind_of_ok (run_peekToken _)] at h
      split at h
      · cases h
      · rename_i hquote
        obtain ⟨u, hu⟩ := List.head?_eq_some_iff.1 hquote
        rw [List.tail_cons] at hu
        cases h
        rw [List.tail_cons, hu]
        exact .next hu
      · cases h
      · cases h
    · cases h

theorem eq_of_colon (h : colon.run s = .ok () rest) : s.dropWhile isJsonBlank = ':' :: rest := by
  unfold colon at h
  rw [run_bind_of_ok (run_peekToken _)] at h
  split at h
  · cases h
  · rename_i hc
    obtain ⟨t, ht⟩ := List.head?_eq_some_iff.1 hc
    rw [ht] at h ⊢
    cases h
    rfl
  · cases h

theorem eq_of_endList (h : endList.run s = .ok () rest) : s.dropWhile isJsonBlank = ']' :: rest := by
  unfold endList at h
  rw [run_bind_of_ok (run_peekToken _)] at h
  split at h
  · cases h
  · rename_i hc
    obtain ⟨t, ht⟩ := List.head?_eq_some_iff.1 hc
    rw [ht] at h ⊢
    cases h
    rfl
  · rw [run_bind_of_ok (run_advance _), run_bind_of_ok (run_peekToken _)] at h
    split at h <;> cases h
  · cases h

theorem eq_of_endObject (h : endObject.run s = .ok () rest) : s.dropWhile isJsonBlank = '\x7d' :: rest := by
  unfold endObject at h
  rw [run_bind_of_ok (run_peekToken _)] at h
  split at h
  · cases h
  · rename_i hc
    obtain ⟨t, ht⟩ := List.head?_eq_some_iff.1 hc
    rw [ht] at h ⊢
    cases h
    rfl
  · cases h
  · cases h

/-- What stands between an opening and its closing was read before the closing was. -/
theorem exists_of_enclosed {close : Reader Unit} {inside : Reader α} {a : α} {c : Char}
    (h : (enclosed close inside).run (c :: s) = .ok a rest) :
    ∃ t, inside.run s = .ok a t ∧ close.run t = .ok () rest := by
  rw [run_enclosed, List.tail_cons] at h
  split at h
  · rename_i b t hread
    split at h
    · rename_i hshut
      cases h
      exact ⟨t, hread, hshut⟩
    · cases h
  · -- what went wrong inside is reported behind the closing too
    split at h <;> exact absurd h not_placed_throw_ok

private theorem ReadsMembers.exists_run_after {σ : Type} {member : String → σ → Reader σ}
    {ms : List (String × List Char)} {before between after : σ} (h : ReadsMembers member ms before between)
    {name : String} {text : List Char} {room : Room}
    (hrun : (membersAfter member room false before).run
      (commaTail ((ms ++ [(name, text)]).map memberText) ++ '\x7d' :: rest) = .ok after s) :
    ∃ state t, (member name between).run (':' :: text ++ '\x7d' :: rest) = .ok state t := by
  induction h generalizing room with
  | nil =>
    cases room with
    | nil => cases hrun
    | cons _ room =>
      rw [List.nil_append, membersAfter, commaTail_member, run_bind_of_ok (run_hasMember_next _), if_pos rfl,
        run_bind_of_ok (stringBody_quote name _)] at hrun
      obtain ⟨state, t, hmember, -⟩ := exists_of_bind hrun
      exact ⟨state, t, hmember⟩
  | cons hread _ ih =>
    cases room with
    | nil => cases hrun
    | cons _ room =>
      rw [List.cons_append, membersAfter, commaTail_member, run_bind_of_ok (run_hasMember_next _), if_pos rfl,
        run_bind_of_ok (stringBody_quote _ _), run_bind_of_ok (hread _ (ends_commaTail_brace _ rest))] at hrun
      exact ih hrun

/-- A reader of members that succeeds has read every member behind those that it reads. -/
theorem ReadsMembers.exists_run {σ : Type} {member : String → σ → Reader σ} {ms : List (String × List Char)}
    {before between after : σ} (h : ReadsMembers member ms before between) {name : String} {text : List Char}
    (hrun : (members member before).run (commaJoin ((ms ++ [(name, text)]).map memberText) ++ '\x7d' :: rest) =
      .ok after s) :
    ∃ state t, (member name between).run (':' :: text ++ '\x7d' :: rest) = .ok state t := by
  unfold members at hrun
  rw [run_withRoom] at hrun
  cases h with
  | nil =>
    rw [List.nil_append, commaJoin_member, membersAfter, run_bind_of_ok (run_hasMember_first _), if_pos rfl,
      run_bind_of_ok (stringBody_quote name _)] at hrun
    obtain ⟨state, t, hmember, -⟩ := exists_of_bind hrun
    exact ⟨state, t, hmember⟩
  | cons hread htail =>
    rw [List.cons_append, commaJoin_member, membersAfter, run_bind_of_ok (run_hasMember_first _), if_pos rfl,
      run_bind_of_ok (stringBody_quote _ _), run_bind_of_ok (hread _ (ends_commaTail_brace _ rest))] at hrun
    exact htail.exists_run_after hrun

/-- A value is a scalar, or a list or an object with one level more than there is in it. -/
inductive ReadsAs : Nat → Lead → List Char → Json → List Char → Prop
  | scalar (depth : Nat) (v : Json) (t : List Char) : ReadsAs depth (.scalar v) t v t
  | list {depth : Nat} {t u rest : List Char} {values : List Json}
      (h : (items (value depth)).run t = .ok values u) (hclose : endList.run u = .ok () rest) :
      ReadsAs (depth + 1) .list ('[' :: t) (.array values) rest
  | object {depth : Nat} {t u rest : List Char} {ms : List (String × Json)}
      (h : (members (memberWith (value depth)) []).run t = .ok ms u) (hclose : endObject.run u = .ok () rest) :
      ReadsAs (depth + 1) .object ('\x7b' :: t) (.object ms) rest

theorem readsAs_of_run {depth : Nat} {v : Json} (h : (value depth).run s = .ok v rest) :
    ∃ found t, lead.run s = .ok found t ∧ Leads (s.dropWhile isJsonBlank) found t ∧ ReadsAs depth found t v rest := by
  obtain ⟨inner, hinner⟩ : ∃ inner, value depth = valueWith inner ∧
      ∀ read ∈ inner, ∃ n, depth = n + 1 ∧ read = value n := by
    cases depth with
    | zero => exact ⟨none, rfl, fun _ h => nomatch h⟩
    | succ n => exact ⟨some (value n), rfl, fun _ h => ⟨n, rfl, (Option.some.inj h).symm⟩⟩
  rw [hinner.1] at h
  unfold valueWith at h
  obtain ⟨found, t, hlead, h⟩ := exists_of_bind h
  have hleads := leads_of_run hlead
  refine ⟨found, t, hlead, hleads, ?_⟩
  generalize s.dropWhile isJsonBlank = start at hleads
  split at h
  · cases h
    exact .scalar ..
  · obtain ⟨n, rfl, rfl⟩ := hinner.2 _ rfl
    obtain ⟨values, hvalues, rfl⟩ := exists_of_map h
    cases hleads
    obtain ⟨u, hitems, hclose⟩ := exists_of_enclosed hvalues
    exact .list hitems hclose
  · obtain ⟨n, rfl, rfl⟩ := hinner.2 _ rfl
    obtain ⟨ms, hms, rfl⟩ := exists_of_map h
    cases hleads
    obtain ⟨u, hmembers, hclose⟩ := exists_of_enclosed hms
    exact .object hmembers hclose
  · cases h

/-- Blanks before a value do not matter. -/
theorem run_peekToken_dropWhile (s : List Char) :
    peekToken.run (s.dropWhile isJsonBlank) = peekToken.run s := by
  rw [run_peekToken, run_peekToken, List.dropWhile_idempotent]

theorem run_lead_dropWhile (s : List Char) : lead.run (s.dropWhile isJsonBlank) = lead.run s := by
  unfold lead
  rw [EStateM.run_bind, EStateM.run_bind, run_peekToken_dropWhile]

theorem run_value_dropWhile (depth : Nat) (s : List Char) :
    (value depth).run (s.dropWhile isJsonBlank) = (value depth).run s := by
  cases depth <;> unfold value valueWith <;> rw [EStateM.run_bind, EStateM.run_bind, run_lead_dropWhile]

/-! ### Whole texts -/

/-- A text is read if a value is taken off its front and only blanks are left. -/
theorem ofText_eq_ok_iff {read : Reader α} {text : List Char} {a : α} :
    ofText read text = .ok a ↔ ∃ rest, read.run text = .ok a rest ∧ rest.dropWhile isJsonBlank = [] := by
  have hend (rest : List Char) : (∃ last, atEnd.run rest = .ok () last) ↔ rest.dropWhile isJsonBlank = [] := by
    unfold atEnd
    rw [run_bind_of_ok (run_peekToken _)]
    cases rest.dropWhile isJsonBlank with
    | nil => exact ⟨fun _ => rfl, fun _ => ⟨[], rfl⟩⟩
    | cons c t =>
      constructor
      · rintro ⟨_, h⟩
        cases h
      · intro h
        cases h
  unfold ofText
  constructor
  · intro h
    split at h
    · rename_i b rest hread
      split at h
      · rename_i last hlast
        obtain rfl := Except.ok.inj h
        exact ⟨rest, hread, (hend rest).1 ⟨last, hlast⟩⟩
      · cases h
    · cases h
  · rintro ⟨rest, hread, hblanks⟩
    obtain ⟨last, hlast⟩ := (hend rest).2 hblanks
    rw [show read text = .ok a rest from hread]
    dsimp only
    rw [show atEnd rest = .ok () last from hlast]

end PropertyGraph.Json.Reader
