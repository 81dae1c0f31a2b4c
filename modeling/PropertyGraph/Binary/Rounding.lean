import PropertyGraph.Binary.Basic

/-!
# Rounding to a binary format

The value of a format nearest to a quotient of natural numbers, a half going to the even neighbour,
and what is built on it: integers as values, change of format, products, quotients and powers of ten.
The key facts: an exact quotient is kept (`divEven_mul_left`) and the rounded quotient is within half
a unit (`two_mul_divEven_le`, `le_two_mul_divEven`).
-/

namespace PropertyGraph

/-- The quotient rounded to the nearest whole number, a half to the even one. -/
def divEven (n d : Nat) : Nat :=
  let q := n / d
  let r := 2 * (n % d)
  if d < r || (r == d && q % 2 == 1) then q + 1 else q

/-- A quotient that is a whole number is kept. -/
theorem divEven_mul_left (d q : Nat) (h : 0 < d) : divEven (d * q) d = q := by
  have : d ≠ 0 := by omega
  simp [divEven, Nat.mul_div_cancel_left q h, Ne.symm this]

/-- The rounded quotient is at most half a unit too large. -/
theorem two_mul_divEven_le (n d : Nat) : 2 * (divEven n d * d) ≤ 2 * n + d := by
  have h := Nat.div_add_mod n d
  rw [Nat.mul_comm] at h
  unfold divEven
  simp only []
  split
  · rename_i hc
    rw [Nat.add_mul, Nat.one_mul]
    simp only [Bool.or_eq_true, decide_eq_true_eq, Bool.and_eq_true, beq_iff_eq] at hc
    omega
  · omega

/-- The rounded quotient is at most half a unit too small. -/
theorem le_two_mul_divEven (n d : Nat) (hd : 0 < d) : 2 * n ≤ 2 * (divEven n d * d) + d := by
  have h := Nat.div_add_mod n d
  rw [Nat.mul_comm] at h
  unfold divEven
  simp only []
  split
  · have := Nat.mod_lt n hd
    rw [Nat.add_mul, Nat.one_mul]
    omega
  · rename_i hc
    simp only [Bool.or_eq_true, decide_eq_true_eq, Bool.and_eq_true, beq_iff_eq] at hc
    omega

namespace BinaryFormat

/-- The ordinal of the magnitude nearest to `n / d` steps, a half going to the even ordinal; from
halfway between the largest finite magnitude and the next power of two on it is that of infinity. -/
def ordinalOf (F : BinaryFormat) (n d : Nat) : Nat :=
  let shift := Nat.log2 (n / d) - F.fractionBits
  min F.infinity (shift * F.binade + divEven n (d * twoPow shift))

/-- The ordinal of the rounded product of two magnitudes. -/
def mulOrdinal (F : BinaryFormat) (j k : Nat) : Nat :=
  F.ordinalOf (F.units j * F.units k) F.one

/-- The ordinal of the rounded quotient of two magnitudes. -/
def divOrdinal (F : BinaryFormat) (j k : Nat) : Nat :=
  F.ordinalOf (F.units j * F.one) (F.units k)

/-- The ordinal of the rounded whole number. -/
def natOrdinal (F : BinaryFormat) (n : Nat) : Nat := F.ordinalOf (n * F.one) 1

end BinaryFormat

namespace Binary

/-- The value nearest to an integer. -/
def ofInt {F : BinaryFormat} (n : Int) : Binary F :=
  ofOrdinal (n < 0) (F.natOrdinal n.natAbs)

/-- The value nearest to a quotient of natural numbers. -/
def ofRatio {F : BinaryFormat} (n d : Nat) : Binary F := ofOrdinal false (F.ordinalOf (n * F.one) d)

/-- The value of another format that is nearest. -/
def convert {F : BinaryFormat} (G : BinaryFormat) : Binary F → Binary G
  | .nan => .nan
  | .infinite negative => .infinite negative
  | .finite x => ofOrdinal x.negative (G.ordinalOf (x.magnitude * G.one) F.one)

end Binary

end PropertyGraph
