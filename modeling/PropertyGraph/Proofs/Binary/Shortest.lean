import PropertyGraph.Binary.Shortest
import PropertyGraph.Proofs.Binary.Rounding
import PropertyGraph.Proofs.Text.Decimal

/-!
# The digits of a shortest decimal

What can be said of the significant digits of a magnitude without saying that they are the shortest.  The
search goes over at most 17 grids, from that of the first digit on, and takes one of the two points next to the
magnitude.  The key facts: where the search ends (`search_spec`), that there are between one and 17 digits of
which the first is not zero (`shortest_spec`), and that a decimal is at most the power of ten after its first
digit (`decimal_le_tenPow`).
-/

namespace PropertyGraph

namespace Shortest

variable {F : BinaryFormat}

/-! ### Powers of ten on both sides -/

/-- Two products are compared in the same way when the powers of ten on both sides are shifted alike. -/
private theorem tenPow_mul_le_iff {a b c d x y : Nat} (h : a + d = c + b) :
    tenPow a * x ≤ y * tenPow b ↔ tenPow c * x ≤ y * tenPow d := by
  have hleft : tenPow d * (tenPow a * x) = tenPow b * (tenPow c * x) := by
    rw [← Nat.mul_assoc, ← Nat.mul_assoc, ← tenPow_add, ← tenPow_add, Nat.add_comm d a, h, Nat.add_comm c b]
  have hright : tenPow d * (y * tenPow b) = tenPow b * (y * tenPow d) := by ring
  calc tenPow a * x ≤ y * tenPow b ↔ tenPow d * (tenPow a * x) ≤ tenPow d * (y * tenPow b) :=
        (Nat.mul_le_mul_left_iff (tenPow_pos d)).symm
    _ ↔ tenPow b * (tenPow c * x) ≤ tenPow b * (y * tenPow d) := by rw [hleft, hright]
    _ ↔ tenPow c * x ≤ y * tenPow d := Nat.mul_le_mul_left_iff (tenPow_pos b)

/-! ### The first digit -/

/-- A magnitude has its first digit at an exponent: it reaches that power of ten and not the next one. -/
def LeadsAt (F : BinaryFormat) (units : Nat) (exponent : Int) : Prop :=
  tenPow exponent.toNat * F.one ≤ units * tenPow (-exponent).toNat ∧
    units * tenPow (-(exponent + 1)).toNat < tenPow (exponent + 1).toNat * F.one

theorem LeadsAt.tenPow_le {units exponent : Nat} (h : LeadsAt F units exponent) :
    tenPow exponent * F.one ≤ units := by
  have hlow := h.1
  rwa [Int.toNat_natCast, show (-(exponent : Int)).toNat = 0 by omega, show tenPow 0 = 1 from rfl,
    Nat.mul_one] at hlow

theorem leadsAt_leadingExponent {units : Nat} (h : 0 < units) : LeadsAt F units (leadingExponent F units) := by
  have hone := F.one_pos
  -- from one on the digits before the point are counted, below one the zeros behind it
  unfold leadingExponent
  split
  · rename_i hle
    have hquot : 0 < units / F.one := Nat.div_pos hle hone
    have hlow := Decimal.tenPow_length_le hquot
    have hhigh := Decimal.lt_tenPow_length (units / F.one)
    have hlen := Decimal.length_digits_pos (units / F.one)
    generalize (Decimal.digits (units / F.one)).length = len at hlow hhigh hlen ⊢
    constructor
    · rw [show ((len : Int) - 1).toNat = len - 1 by omega, show (-((len : Int) - 1)).toNat = 0 by omega]
      calc tenPow (len - 1) * F.one ≤ units := (Nat.le_div_iff_mul_le hone).1 hlow
        _ = units * tenPow 0 := (Nat.mul_one units).symm
    · rw [show ((len : Int) - 1 + 1).toNat = len by omega, show (-((len : Int) - 1 + 1)).toNat = 0 by omega]
      calc units * tenPow 0 = units := Nat.mul_one units
        _ < tenPow len * F.one := (Nat.div_lt_iff_lt_mul hone).1 hhigh
  · rename_i hlt
    have hquot : 0 < (F.one - 1) / units := Nat.div_pos (by omega) h
    have hlow := Decimal.tenPow_length_le hquot
    have hhigh := Decimal.lt_tenPow_length ((F.one - 1) / units)
    have hlen := Decimal.length_digits_pos ((F.one - 1) / units)
    generalize (Decimal.digits ((F.one - 1) / units)).length = len at hlow hhigh hlen ⊢
    constructor
    · rw [show (-(len : Int)).toNat = 0 by omega, show (- -(len : Int)).toNat = len by omega]
      have hbelow := (Nat.div_lt_iff_lt_mul h).1 hhigh
      calc tenPow 0 * F.one = F.one := Nat.one_mul _
        _ ≤ tenPow len * units := by omega
        _ = units * tenPow len := Nat.mul_comm _ _
    · rw [show (-(len : Int) + 1).toNat = 0 by omega, show (-(-(len : Int) + 1)).toNat = len - 1 by omega]
      have hreach := (Nat.le_div_iff_mul_le h).1 hlow
      calc units * tenPow (len - 1) = tenPow (len - 1) * units := Nat.mul_comm _ _
        _ < F.one := by omega
        _ = tenPow 0 * F.one := (Nat.one_mul _).symm

/-! ### The two points next to the magnitude -/

/-- The point of a grid next below the magnitude. -/
def pointBelow (F : BinaryFormat) (ordinal : Nat) (g : Grid) : Nat := 2 * F.units ordinal * g.half / g.point

/-- On a grid some steps finer than the first digit the point below has that many digits after the first. -/
theorem pointBelow_mem {ordinal : Nat} {lead : Int} (h : LeadsAt F (F.units ordinal) lead) (finer : Nat) :
    tenPow finer ≤ pointBelow F ordinal (grid F (lead - finer)) ∧
      pointBelow F ordinal (grid F (lead - finer)) < tenPow (finer + 1) := by
  have hpoint : 0 < tenPow (lead - finer).toNat * (2 * F.one) :=
    Nat.mul_pos (tenPow_pos _) (Nat.mul_pos (by decide) F.one_pos)
  obtain ⟨hlow, hhigh⟩ := h
  unfold pointBelow grid
  constructor
  · rw [Nat.le_div_iff_mul_le hpoint]
    have hshift : finer + (lead - finer).toNat + (-lead).toNat = lead.toNat + (-(lead - finer)).toNat := by
      omega
    have := (tenPow_mul_le_iff hshift).2 hlow
    rw [tenPow_add] at this
    calc tenPow finer * (tenPow (lead - finer).toNat * (2 * F.one))
        = 2 * (tenPow finer * tenPow (lead - finer).toNat * F.one) := by ring
      _ ≤ 2 * (F.units ordinal * tenPow (-(lead - finer)).toNat) := Nat.mul_le_mul_left 2 this
      _ = 2 * F.units ordinal * tenPow (-(lead - finer)).toNat := by ring
  · rw [Nat.div_lt_iff_lt_mul hpoint]
    have hshift : finer + 1 + (lead - finer).toNat + (-(lead + 1)).toNat =
        (lead + 1).toNat + (-(lead - finer)).toNat := by
      omega
    have := (not_congr (tenPow_mul_le_iff hshift)).2 (Nat.not_le.2 hhigh)
    rw [tenPow_add] at this
    calc 2 * F.units ordinal * tenPow (-(lead - finer)).toNat
        = 2 * (F.units ordinal * tenPow (-(lead - finer)).toNat) := by ring
      _ < 2 * (tenPow (finer + 1) * tenPow (lead - finer).toNat * F.one) := by omega
      _ = tenPow (finer + 1) * (tenPow (lead - finer).toNat * (2 * F.one)) := by ring

theorem nearest_eq (tie : Tie) (ordinal : Nat) (g : Grid) :
    nearest F tie ordinal g = pointBelow F ordinal g ∨ nearest F tie ordinal g = pointBelow F ordinal g + 1 := by
  unfold nearest pointBelow
  dsimp only
  split
  · exact .inr rfl
  · exact .inl rfl

/-- The nearer one of the two points is at most half a step of the grid above the magnitude. -/
theorem nearest_mul_le (tie : Tie) (ordinal : Nat) (g : Grid) :
    2 * (nearest F tie ordinal g * g.point) ≤ 2 * (2 * F.units ordinal * g.half) + g.point := by
  have hdiv := Nat.div_add_mod (2 * F.units ordinal * g.half) g.point
  rw [Nat.mul_comm g.point] at hdiv
  unfold nearest
  dsimp only
  split
  · rename_i hup
    simp only [Bool.or_eq_true, decide_eq_true_eq, Bool.and_eq_true, beq_iff_eq] at hup
    rw [Nat.add_mul, Nat.one_mul]
    omega
  · omega

/-- A hit is one of the two points next to the magnitude, and reads back. -/
theorem hit_spec {tie : Tie} {ordinal : Nat} {g : Grid} {m : Nat} (h : hit F tie ordinal g = some m) :
    (m = pointBelow F ordinal g ∨ m = pointBelow F ordinal g + 1) ∧ readsBack F ordinal g m := by
  unfold hit at h
  dsimp only at h
  split at h
  · rename_i hbelow habove
    obtain rfl := Option.some.inj h
    refine ⟨nearest_eq tie ordinal g, ?_⟩
    rcases nearest_eq (F := F) tie ordinal g with h | h <;> rw [h]
    · exact hbelow
    · exact habove
  · rename_i hbelow _
    obtain rfl := Option.some.inj h
    exact ⟨.inl rfl, hbelow⟩
  · rename_i _ habove
    obtain rfl := Option.some.inj h
    exact ⟨.inr rfl, habove⟩
  · cases h

/-- The search ends on a grid that is finer by some steps, at most the number of tries: with a hit, or after
the last try with the nearer one of the two points. -/
theorem search_spec (tie : Tie) (ordinal tries : Nat) (start : Int) :
    ∃ finer ≤ tries, (search F tie ordinal tries start).2 = start - finer ∧
      (hit F tie ordinal (grid F (start - finer)) = some (search F tie ordinal tries start).1 ∨
        finer = tries ∧
          (search F tie ordinal tries start).1 = nearest F tie ordinal (grid F (start - finer))) := by
  induction tries generalizing start with
  | zero => exact ⟨0, Nat.le_refl 0, by simp [search], .inr ⟨rfl, by simp [search]⟩⟩
  | succ tries ih =>
    unfold search
    split
    · rename_i m hm
      exact ⟨0, by omega, by simp, .inl (by simpa using hm)⟩
    · obtain ⟨finer, hle, hexp, hend⟩ := ih (start - 1)
      have hsub : start - 1 - (finer : Int) = start - ((finer + 1 : Nat) : Int) := by omega
      rw [hsub] at hexp hend
      exact ⟨finer + 1, by omega, hexp, hend.imp_right fun h => ⟨by omega, h.2⟩⟩

/-! ### Zeros at the end -/

theorem dropTrailingZeros_append_zero (s : List Char) :
    dropTrailingZeros (s ++ ['0']) = dropTrailingZeros s := by
  simp [dropTrailingZeros]

private theorem exists_drop (s : List Char) : ∃ zeros, s = dropTrailingZeros s ++ List.replicate zeros '0' :=
  Decimal.exists_append_zeros s

end Shortest

/-! ### The digits that are written -/

/-- Significant digits as they stand in a text: at least one and at most 17, the first of them not zero. -/
structure Significant.Spelled (s : Significant) : Prop where
  isDigit : ∀ c ∈ s.digits, c.isDigit = true
  ne_nil : s.digits ≠ []
  length_le : s.digits.length ≤ 17
  head?_ne : s.digits.head? ≠ some '0'

/-- The exponent of the last of the digits. -/
def Significant.lastExponent (s : Significant) : Int := s.exponent - s.digits.length + 1

open Shortest

variable {F : BinaryFormat}

theorem units_pos {ordinal : Nat} (h : 0 < ordinal) : 0 < F.units ordinal :=
  Nat.lt_of_le_of_lt (Nat.zero_le _) (BinaryFormat.units_lt_units h)

/-- The numbers that a search can end with have at most 17 digits, or are the next power of ten. -/
private theorem search_bounds (tie : Tie) {ordinal : Nat} (h : 0 < ordinal) :
    ∃ finer : Nat, finer ≤ 16 ∧
      (search F tie ordinal 16 (leadingExponent F (F.units ordinal))).2 =
        leadingExponent F (F.units ordinal) - finer ∧
      tenPow finer ≤ (search F tie ordinal 16 (leadingExponent F (F.units ordinal))).1 ∧
      (search F tie ordinal 16 (leadingExponent F (F.units ordinal))).1 ≤ tenPow (finer + 1) := by
  obtain ⟨finer, hle, hexp, hend⟩ := search_spec (F := F) tie ordinal 16 (leadingExponent F (F.units ordinal))
  have hbelow := pointBelow_mem (leadsAt_leadingExponent (F := F) (units_pos h)) finer
  have hpoint : (search F tie ordinal 16 (leadingExponent F (F.units ordinal))).1 =
        pointBelow F ordinal (grid F (leadingExponent F (F.units ordinal) - finer)) ∨
      (search F tie ordinal 16 (leadingExponent F (F.units ordinal))).1 =
        pointBelow F ordinal (grid F (leadingExponent F (F.units ordinal) - finer)) + 1 := by
    rcases hend with hhit | ⟨-, hnear⟩
    · exact (hit_spec hhit).1
    · rw [hnear]
      exact nearest_eq tie ordinal _
  refine ⟨finer, hle, hexp, ?_, ?_⟩
  · rcases hpoint with h | h <;> omega
  · rcases hpoint with h | h <;> omega

/-- The written digits are those that the search ends with, without the zeros at their end. -/
theorem shortest_spec (tie : Tie) {ordinal : Nat} (h : 0 < ordinal) :
    (F.shortest tie ordinal).Spelled ∧ ∃ zeros : Nat,
      Decimal.value (F.shortest tie ordinal).digits * tenPow zeros =
        (search F tie ordinal 16 (leadingExponent F (F.units ordinal))).1 ∧
      (F.shortest tie ordinal).lastExponent =
        (search F tie ordinal 16 (leadingExponent F (F.units ordinal))).2 + zeros := by
  obtain ⟨finer, hle, -, hlow, hhigh⟩ := search_bounds (F := F) tie h
  have hshortest : F.shortest tie ordinal =
      ⟨dropTrailingZeros (Decimal.digits (search F tie ordinal 16 (leadingExponent F (F.units ordinal))).1),
        (search F tie ordinal 16 (leadingExponent F (F.units ordinal))).2 +
          (Decimal.digits (search F tie ordinal 16 (leadingExponent F (F.units ordinal))).1).length - 1⟩ := by
    rw [BinaryFormat.shortest, if_neg (by omega)]
  rw [hshortest]
  generalize search F tie ordinal 16 (leadingExponent F (F.units ordinal)) = found at hlow hhigh ⊢
  obtain ⟨m, exponent⟩ := found
  dsimp only at hlow hhigh ⊢
  have hm : 0 < m := Nat.lt_of_lt_of_le (tenPow_pos _) hlow
  obtain ⟨zeros, hzeros⟩ := exists_drop (Decimal.digits m)
  have hvalue : Decimal.value (dropTrailingZeros (Decimal.digits m)) * tenPow zeros = m := by
    have := Decimal.value_digits m
    rw [hzeros, Decimal.value_append, Decimal.value_replicate_zero, List.length_replicate] at this
    exact this
  have hlength : (Decimal.digits m).length = (dropTrailingZeros (Decimal.digits m)).length + zeros := by
    have := congrArg List.length hzeros
    rwa [List.length_append, List.length_replicate] at this
  have hne : dropTrailingZeros (Decimal.digits m) ≠ [] := by
    intro hnil
    rw [hnil] at hvalue
    simp only [Decimal.value, List.foldl_nil, Nat.zero_mul] at hvalue
    omega
  refine ⟨⟨?_, hne, ?_, ?_⟩, zeros, hvalue, ?_⟩
  · intro c hc
    have hmem : c ∈ Decimal.digits m := by
      rw [hzeros]
      exact List.mem_append_left _ hc
    exact Decimal.isDigit_of_mem_digits hmem
  · show (dropTrailingZeros (Decimal.digits m)).length ≤ 17
    have hpow : tenPow (finer + 1) ≤ tenPow 17 := tenPow_le_tenPow (by omega)
    by_cases hlt : m < tenPow 17
    · have := Decimal.length_digits_le hlt (by decide)
      omega
    · -- the next power of ten: its last digit is a zero, and the others are 17
      obtain rfl : m = tenPow 17 := by omega
      have hlast : Decimal.digits (tenPow 17) = Decimal.digits (tenPow 16) ++ ['0'] := by
        rw [Decimal.digits, if_neg (by decide)]
        rfl
      obtain ⟨zeros', hzeros'⟩ := exists_drop (Decimal.digits (tenPow 16))
      have hlen' := congrArg List.length hzeros'
      have hfits := Decimal.length_digits_le (n := tenPow 16) (k := 17) (by decide) (by decide)
      rw [List.length_append] at hlen'
      rw [hlast, dropTrailingZeros_append_zero]
      omega
  · intro hhead
    refine Decimal.head?_digits_ne_zero hm ?_
    rw [hzeros, List.head?_append, hhead]
    rfl
  · show exponent + (Decimal.digits m).length - 1 - (dropTrailingZeros (Decimal.digits m)).length + 1 =
      exponent + zeros
    omega

/-- A decimal whose last digit is not behind the point is at most the power of ten after its first digit. -/
theorem decimal_le_tenPow (tie : Tie) {ordinal : Nat} (h : 0 < ordinal) {last : Nat}
    (hlast : (F.shortest tie ordinal).lastExponent = last) :
    Decimal.value (F.shortest tie ordinal).digits * tenPow last ≤
      tenPow (leadingExponent F (F.units ordinal) + 1).toNat := by
  obtain ⟨-, zeros, hvalue, hexp⟩ := shortest_spec (F := F) tie h
  obtain ⟨finer, -, hfiner, -, hhigh⟩ := search_bounds (F := F) tie h
  rw [hlast, hfiner] at hexp
  rw [← hvalue] at hhigh
  generalize Decimal.value (F.shortest tie ordinal).digits = value at hhigh ⊢
  generalize leadingExponent F (F.units ordinal) = lead at hexp ⊢
  refine Nat.le_of_mul_le_mul_right ?_ (tenPow_pos (finer + 1))
  calc value * tenPow last * tenPow (finer + 1) = value * tenPow (last + (finer + 1)) := by
        rw [tenPow_add last]; ring
    _ ≤ value * tenPow (zeros + (lead + 1).toNat) :=
        Nat.mul_le_mul_left _ (tenPow_le_tenPow (by omega))
    _ = tenPow (lead + 1).toNat * (value * tenPow zeros) := by rw [tenPow_add]; ring
    _ ≤ tenPow (lead + 1).toNat * tenPow (finer + 1) := Nat.mul_le_mul_left _ hhigh

private theorem natAbs_leadingExponent_le {units n : Nat} (hone : F.one ≤ tenPow n) (hunits : units ≤ tenPow n) :
    (leadingExponent F units).natAbs ≤ n + 1 := by
  have hpow : tenPow n < tenPow (n + 1) := by
    have := tenPow_pos n
    rw [tenPow_succ]
    omega
  unfold leadingExponent
  split
  · have hquot : units / F.one < tenPow (n + 1) := by
      have := Nat.div_le_self units F.one
      omega
    have := Decimal.length_digits_le hquot (Nat.succ_pos n)
    have := Decimal.length_digits_pos (units / F.one)
    omega
  · have hquot : (F.one - 1) / units < tenPow (n + 1) := by
      have := Nat.div_le_self (F.one - 1) units
      omega
    have := Decimal.length_digits_le hquot (Nat.succ_pos n)
    omega

/-- The exponent of the first digit is not far from zero if neither one nor the magnitude is large. -/
theorem natAbs_exponent_le (tie : Tie) {ordinal : Nat} (h : 0 < ordinal) {n : Nat} (hone : F.one ≤ tenPow n)
    (hunits : F.units ordinal ≤ tenPow n) : (F.shortest tie ordinal).exponent.natAbs ≤ n + 40 := by
  have hlead := natAbs_leadingExponent_le hone hunits
  obtain ⟨hspelled, zeros, hvalue, hexp⟩ := shortest_spec (F := F) tie h
  obtain ⟨finer, hle, hfiner, hlow, hhigh⟩ := search_bounds (F := F) tie h
  have hlength := hspelled.length_le
  have hzeros : zeros ≤ 17 := by
    by_contra hmany
    have hpos : 0 < Decimal.value (F.shortest tie ordinal).digits := by
      refine Nat.pos_of_ne_zero fun hzero => ?_
      have := tenPow_pos finer
      rw [hzero] at hvalue
      omega
    have hpow : tenPow (finer + 1) < tenPow zeros := Nat.pow_lt_pow_right (by decide) (by omega)
    have := Nat.le_mul_of_pos_left (tenPow zeros) hpos
    omega
  rw [hfiner] at hexp
  unfold Significant.lastExponent at hexp
  omega

end PropertyGraph
