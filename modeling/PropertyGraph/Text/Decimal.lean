/-!
# Decimal digits

Natural numbers and integers as decimal digits.  The key facts: the digits of a number are decimal
digits (`isDigit_of_mem_digits`), there is at least one (`digits_ne_nil`), and they read back as the
number (`value_digits`).
-/

namespace PropertyGraph.Decimal

/-- The digits of a natural number, the most significant first, without leading zeros. -/
def digits (n : Nat) : List Char :=
  if n < 10 then [n.digitChar] else digits (n / 10) ++ [(n % 10).digitChar]

/-- The digits of an integer, after a minus sign if it is negative. -/
def signed (n : Int) : List Char :=
  if n < 0 then '-' :: digits n.natAbs else digits n.natAbs

/-- The digits of a natural number with zeros in front up to a width. -/
def padded (width n : Nat) : List Char :=
  List.replicate (width - (digits n).length) '0' ++ digits n

/-- The digits of an integer with zeros after its sign up to a width, in which the sign counts. -/
def signedPadded (width : Nat) (n : Int) : List Char :=
  if n < 0 then '-' :: padded (width - 1) n.natAbs else padded width n.natAbs

def digitValue (c : Char) : Nat := c.toNat - '0'.toNat

/-- The value of a run of decimal digits; an empty run counts as zero. -/
def value (s : List Char) : Nat := s.foldl (fun n c => 10 * n + digitValue c) 0

/-- The value of a nonempty run of decimal digits, and nothing for any other text. -/
def value? (s : List Char) : Option Nat :=
  if s.isEmpty || !s.all Char.isDigit then none else some (value s)

/-! ### Reading back -/

theorem isDigit_digitChar {n : Nat} (h : n < 10) : n.digitChar.isDigit = true := by
  match n with
  | 0 | 1 | 2 | 3 | 4 | 5 | 6 | 7 | 8 | 9 => rfl
  | n + 10 => omega

theorem digitValue_digitChar {n : Nat} (h : n < 10) : digitValue n.digitChar = n := by
  match n with
  | 0 | 1 | 2 | 3 | 4 | 5 | 6 | 7 | 8 | 9 => rfl
  | n + 10 => omega

theorem isDigit_of_mem_digits {n : Nat} {c : Char} (h : c ∈ digits n) : c.isDigit = true := by
  induction n using Nat.strongRecOn with
  | ind n ih =>
    rw [digits] at h
    split at h
    · rename_i hn
      simp only [List.mem_singleton] at h
      exact h ▸ isDigit_digitChar hn
    · simp only [List.mem_append, List.mem_singleton] at h
      rcases h with h | h
      · exact ih (n / 10) (by omega) h
      · exact h ▸ isDigit_digitChar (by omega)

theorem digits_ne_nil (n : Nat) : digits n ≠ [] := by
  rw [digits]
  split <;> simp

theorem value_append_digit (s : List Char) (c : Char) : value (s ++ [c]) = 10 * value s + digitValue c := by
  simp [value]

/-- The digits of a number read back as the number. -/
theorem value_digits (n : Nat) : value (digits n) = n := by
  induction n using Nat.strongRecOn with
  | ind n ih =>
    rw [digits]
    split
    · rename_i hn
      simp [value, digitValue_digitChar hn]
    · rw [value_append_digit, ih (n / 10) (by omega), digitValue_digitChar (by omega)]
      omega

/-- The digits of a number are a nonempty run of decimal digits with its value. -/
theorem value?_digits (n : Nat) : value? (digits n) = some n := by
  have hall : (digits n).all Char.isDigit = true :=
    List.all_eq_true.2 fun _ hc => isDigit_of_mem_digits hc
  simp [value?, hall, digits_ne_nil, value_digits]

end PropertyGraph.Decimal
