import Mathlib.Tactic.Ring
import PropertyGraph.Power
import PropertyGraph.Text.Decimal

/-!
# Runs of decimal digits

How many digits a number has, which digit is the first, and what happens to the value of a run when runs are
put together, filled up with zeros or cut.  The key facts: the number of digits is that of the power of ten
next above (`lt_tenPow_length`, `tenPow_length_le`), the first digit of a positive number is not zero
(`head?_digits_ne_zero`), and a run that is padded to a width has that width and the same value
(`length_padded`, `value_padded`).
-/

namespace PropertyGraph

theorem tenPow_succ (n : Nat) : tenPow (n + 1) = tenPow n * 10 := Nat.pow_succ 10 n

theorem tenPow_add (m n : Nat) : tenPow (m + n) = tenPow m * tenPow n := Nat.pow_add 10 m n

theorem tenPow_le_tenPow {m n : Nat} (h : m ≤ n) : tenPow m ≤ tenPow n :=
  Nat.pow_le_pow_right (by decide) h

namespace Decimal

/-! ### The value of a run -/

private theorem foldl_digits (s : List Char) (start : Nat) :
    s.foldl (fun n c => 10 * n + digitValue c) start = start * tenPow s.length + value s := by
  induction s generalizing start with
  | nil => simp [value, tenPow]
  | cons c s ih =>
    rw [value, List.foldl_cons, List.foldl_cons, ih, ih (10 * 0 + digitValue c), List.length_cons, tenPow_succ]
    ring

theorem value_append (s t : List Char) : value (s ++ t) = value s * tenPow t.length + value t := by
  rw [value, List.foldl_append, foldl_digits]
  rfl

theorem value_cons (c : Char) (s : List Char) : value (c :: s) = digitValue c * tenPow s.length + value s := by
  rw [value, List.foldl_cons, foldl_digits]
  ring

theorem value_replicate_zero (k : Nat) : value (List.replicate k '0') = 0 := by
  induction k with
  | zero => rfl
  | succ k ih => rw [List.replicate_succ, value_cons, ih]; simp [digitValue]

theorem digitValue_le {c : Char} (h : c.isDigit) : digitValue c ≤ 9 := by
  have hc : '0'.val ≤ c.val ∧ c.val ≤ '9'.val := by simpa [Char.isDigit] using h
  have hle : c.toNat ≤ 57 := hc.2
  show c.toNat - 48 ≤ 9
  omega

/-- The value of a run is below the power of ten with as many zeros as the run has digits. -/
theorem value_lt {s : List Char} (h : ∀ c ∈ s, c.isDigit) : value s < tenPow s.length := by
  induction s with
  | nil => decide
  | cons c s ih =>
    have hhead := digitValue_le (h c (List.mem_cons_self ..))
    have htail := ih fun d hd => h d (List.mem_cons_of_mem _ hd)
    have hle := Nat.mul_le_mul_right (tenPow s.length) hhead
    rw [value_cons, List.length_cons, tenPow_succ]
    omega

/-- A digit is the character of its value. -/
theorem exists_digitChar {c : Char} (h : c.isDigit = true) : ∃ d : Fin 10, d.val.digitChar = c := by
  have hc : '0'.val ≤ c.val ∧ c.val ≤ '9'.val := by simpa [Char.isDigit] using h
  have hlow : 48 ≤ c.toNat := hc.1
  have hhigh : c.toNat ≤ 57 := hc.2
  have hchars : ∀ d : Fin 10, d.val.digitChar = Char.ofNat (48 + d) := by decide
  refine ⟨⟨c.toNat - 48, by omega⟩, ?_⟩
  rw [hchars, Nat.add_sub_cancel' hlow, Char.ofNat_toNat]

theorem eq_zero_of_digitValue {c : Char} (h : c.isDigit) (hzero : digitValue c = 0) : c = '0' := by
  have hc : '0'.val ≤ c.val ∧ c.val ≤ '9'.val := by simpa [Char.isDigit] using h
  have hge : 48 ≤ c.toNat := hc.1
  have hle : c.toNat - 48 = 0 := hzero
  apply Char.ext
  apply UInt32.toNat_inj.1
  show c.toNat = 48
  omega

/-- A run in front of a text that does not begin with a digit is what is taken off its digits. -/
theorem takeWhile_dropWhile_append {ds rest : List Char} (hds : ∀ c ∈ ds, c.isDigit = true)
    (hrest : ∀ c ∈ rest.head?, c.isDigit = false) :
    (ds ++ rest).takeWhile Char.isDigit = ds ∧ (ds ++ rest).dropWhile Char.isDigit = rest := by
  have hstop : rest.takeWhile Char.isDigit = [] ∧ rest.dropWhile Char.isDigit = rest := by
    cases rest with
    | nil => exact ⟨rfl, rfl⟩
    | cons c rest =>
      have hc : c.isDigit = false := hrest c rfl
      simp [hc]
  rw [List.takeWhile_append_of_pos hds, List.dropWhile_append_of_pos hds, hstop.1, hstop.2, List.append_nil]
  exact ⟨rfl, rfl⟩

/-! ### The digits of a number -/

theorem forall_isDigit_digits (n : Nat) : ∀ c ∈ digits n, c.isDigit = true := fun _ => isDigit_of_mem_digits

theorem length_digits_pos (n : Nat) : 0 < (digits n).length := List.length_pos_iff.2 (digits_ne_nil n)

theorem lt_tenPow_length (n : Nat) : n < tenPow (digits n).length := by
  have h := value_lt (forall_isDigit_digits n)
  rwa [value_digits] at h

theorem tenPow_length_le {n : Nat} (h : 0 < n) : tenPow ((digits n).length - 1) ≤ n := by
  induction n using Nat.strongRecOn with
  | ind n ih =>
    rw [digits]
    split
    · exact h
    · have hquot := ih (n / 10) (by omega) (by omega)
      rw [List.length_append, List.length_singleton, Nat.add_sub_cancel]
      have hlen := length_digits_pos (n / 10)
      obtain ⟨k, hk⟩ : ∃ k, (digits (n / 10)).length = k + 1 := ⟨(digits (n / 10)).length - 1, by omega⟩
      rw [hk, Nat.add_sub_cancel] at hquot
      rw [hk, tenPow_succ]
      omega

theorem length_digits_le {n k : Nat} (h : n < tenPow k) (hk : 0 < k) : (digits n).length ≤ k := by
  rcases Nat.eq_zero_or_pos n with rfl | hn
  · rw [show digits 0 = ['0'] by simp [digits, Nat.digitChar]]
    exact hk
  · by_contra hlt
    have hpow : tenPow k ≤ tenPow ((digits n).length - 1) := tenPow_le_tenPow (by omega)
    have := tenPow_length_le hn
    omega

theorem head?_digits_ne_zero {n : Nat} (h : 0 < n) : (digits n).head? ≠ some '0' := by
  intro hzero
  obtain ⟨s, hs⟩ : ∃ s, digits n = '0' :: s := by
    cases hd : digits n with
    | nil => simp [hd] at hzero
    | cons c s =>
      rw [hd, List.head?_cons, Option.some.injEq] at hzero
      exact ⟨s, by rw [hzero]⟩
  have hvalue := value_digits n
  rw [hs, value_cons, show digitValue '0' = 0 from rfl, Nat.zero_mul, Nat.zero_add] at hvalue
  have hlt : value s < tenPow s.length :=
    value_lt fun c hc => isDigit_of_mem_digits (hs ▸ List.mem_cons_of_mem _ hc)
  have hge := tenPow_length_le h
  rw [hs, List.length_cons, Nat.add_sub_cancel] at hge
  omega

/-! ### Padding -/

theorem forall_isDigit_padded (width n : Nat) : ∀ c ∈ padded width n, c.isDigit = true := by
  intro c hc
  rcases List.mem_append.1 hc with hc | hc
  · rw [List.eq_of_mem_replicate hc]
    rfl
  · exact isDigit_of_mem_digits hc

theorem value_padded (width n : Nat) : value (padded width n) = n := by
  rw [padded, value_append, value_replicate_zero, value_digits, Nat.zero_mul, Nat.zero_add]

theorem length_padded {width n : Nat} (h : n < tenPow width) (hw : 0 < width) : (padded width n).length = width := by
  have := length_digits_le h hw
  rw [padded, List.length_append, List.length_replicate]
  omega

theorem padded_ne_nil (width n : Nat) : padded width n ≠ [] := by
  simp [padded, digits_ne_nil]

theorem value?_padded (width n : Nat) : value? (padded width n) = some n := by
  have hall : (padded width n).all Char.isDigit = true := List.all_eq_true.2 (forall_isDigit_padded width n)
  simp [value?, hall, padded_ne_nil, value_padded]

/-- A run is what is left of it without the zeros at its end, and zeros. -/
theorem exists_append_zeros (s : List Char) :
    ∃ zeros, s = (s.reverse.dropWhile (· == '0')).reverse ++ List.replicate zeros '0' := by
  refine ⟨(s.reverse.takeWhile (· == '0')).length, ?_⟩
  have hzeros : s.reverse.takeWhile (· == '0') =
      List.replicate (s.reverse.takeWhile (· == '0')).length '0' := by
    refine List.eq_replicate_iff.2 ⟨rfl, fun c hc => ?_⟩
    simpa using List.all_eq_true.1 List.all_takeWhile c hc
  have hsplit := congrArg List.reverse (List.takeWhile_append_dropWhile (p := (· == '0')) (l := s.reverse))
  rw [List.reverse_append, List.reverse_reverse] at hsplit
  conv => lhs; rw [← hsplit, hzeros, List.reverse_replicate]

end Decimal

end PropertyGraph
