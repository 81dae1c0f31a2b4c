import PropertyGraph.Power

/-!
# Binary floating-point values

The values of a binary interchange format, without reference to the machine's own floats: a finite
value is a sign and the ordinal of its magnitude, the place it has when the magnitudes are listed in
increasing order. Every magnitude is a whole number of steps of `2 ^ -scale`, and `units` gives that
number.  The key fact: the magnitudes grow with their ordinals (`units_lt_units`).
-/

namespace PropertyGraph

/-- A binary interchange format: how many bits of a word hold the fraction and how many the exponent. -/
structure BinaryFormat where
  fractionBits : Nat
  exponentBits : Nat
deriving DecidableEq

namespace BinaryFormat

def binary64 : BinaryFormat := ⟨52, 11⟩

def binary32 : BinaryFormat := ⟨23, 8⟩

/-- The number of ordinals with the same exponent. -/
def binade (F : BinaryFormat) : Nat := twoPow F.fractionBits

/-- The ordinal of infinity; the ordinals of the finite magnitudes are those below it. -/
def infinity (F : BinaryFormat) : Nat := (twoPow F.exponentBits - 1) * F.binade

/-- The finite values are whole numbers of steps of `2 ^ -scale`. -/
def scale (F : BinaryFormat) : Nat := twoPow (F.exponentBits - 1) + F.fractionBits - 2

/-- The value one, in steps of `2 ^ -scale`. -/
def one (F : BinaryFormat) : Nat := twoPow F.scale

/-- The bit of a word that holds the sign; the bits below it hold the ordinal of the magnitude. -/
def signBit (F : BinaryFormat) : Nat := twoPow (F.exponentBits + F.fractionBits)

/-- The magnitude with an ordinal, in steps of `2 ^ -scale`. -/
def units (F : BinaryFormat) (ordinal : Nat) : Nat :=
  if ordinal < F.binade then ordinal
  else (F.binade + ordinal % F.binade) * twoPow (ordinal / F.binade - 1)

theorem one_pos (F : BinaryFormat) : 0 < F.one := twoPow_pos _

theorem binade_pos (F : BinaryFormat) : 0 < F.binade := twoPow_pos _

/-- Each magnitude is below the next one. -/
theorem units_lt_units_succ (F : BinaryFormat) (k : Nat) : F.units k < F.units (k + 1) := by
  have hP := F.binade_pos
  generalize hp : F.binade = p at hP
  by_cases hk : k + 1 < p
  · simp only [units, hp, if_pos hk, if_pos (Nat.lt_of_succ_lt hk)]
    omega
  · by_cases hk' : k < p
    · have : k + 1 = p := by omega
      subst this
      simp [units, hp, hk', twoPow_zero]
    · have hq : 0 < k / p := Nat.div_pos (by omega) hP
      simp only [units, hp, if_neg hk, if_neg hk']
      by_cases hm : k % p + 1 < p
      · have hdiv : (k + 1) / p = k / p := by
          rw [Nat.div_eq_iff hP]
          have := Nat.div_add_mod k p
          have := Nat.mul_comm p (k / p)
          constructor
          · omega
          · omega
        have hmod : (k + 1) % p = k % p + 1 := by
          have h1 := Nat.div_add_mod k p
          have h2 := Nat.div_add_mod (k + 1) p
          rw [hdiv] at h2
          omega
        rw [hdiv, hmod]
        exact Nat.mul_lt_mul_of_pos_right (by omega) (twoPow_pos _)
      · have hlt := Nat.mod_lt k hP
        have hdiv : (k + 1) / p = k / p + 1 := by
          rw [Nat.div_eq_iff hP]
          have h1 := Nat.div_add_mod k p
          have h2 := Nat.mul_comm p (k / p)
          have h3 : (k / p + 1) * p = k / p * p + p := by rw [Nat.add_mul, Nat.one_mul]
          constructor
          · omega
          · omega
        have hmod : (k + 1) % p = 0 := by
          have h1 := Nat.div_add_mod k p
          have h2 := Nat.div_add_mod (k + 1) p
          rw [hdiv, Nat.mul_add, Nat.mul_one] at h2
          omega
        rw [hdiv, hmod, Nat.add_zero, show k / p + 1 - 1 = (k / p - 1) + 1 by omega, twoPow_succ,
          ← Nat.mul_assoc]
        exact Nat.mul_lt_mul_of_pos_right (by omega) (twoPow_pos _)

/-- The magnitudes grow with their ordinals. -/
theorem units_lt_units {F : BinaryFormat} {j k : Nat} (h : j < k) : F.units j < F.units k := by
  induction k with
  | zero => omega
  | succ k ih =>
    rcases Nat.lt_succ_iff_lt_or_eq.1 h with h | rfl
    · exact Nat.lt_trans (ih h) (units_lt_units_succ F k)
    · exact units_lt_units_succ F j

end BinaryFormat

/-- A finite value: a sign and the ordinal of the magnitude.  Zero has two signs. -/
structure Finite (F : BinaryFormat) where
  negative : Bool
  ordinal : Nat
  ordinal_lt : ordinal < F.infinity
deriving DecidableEq

inductive Binary (F : BinaryFormat) where
  | nan
  | infinite (negative : Bool)
  | finite (x : Finite F)
deriving DecidableEq

abbrev Binary64 := Binary .binary64

abbrev Binary32 := Binary .binary32

abbrev Finite64 := Finite .binary64

namespace Finite

variable {F : BinaryFormat}

/-- The magnitude in steps of `2 ^ -scale`. -/
def magnitude (x : Finite F) : Nat := F.units x.ordinal

/-- The value in steps of `2 ^ -scale`. -/
def signed (x : Finite F) : Int := if x.negative then -(x.magnitude : Int) else x.magnitude

/-- Whether two finite values are numerically equal: the two zeros are. -/
def equal (x y : Finite F) : Bool :=
  x.ordinal == y.ordinal && (x.negative == y.negative || x.ordinal == 0)

def isIntegral (x : Finite F) : Bool := x.magnitude % F.one == 0

/-- The value without its fraction. -/
def truncated (x : Finite F) : Int := x.signed.tdiv F.one

end Finite

namespace Binary

variable {F : BinaryFormat}

/-- The value with a sign and an ordinal; ordinals from infinity's on stand for infinity. -/
def ofOrdinal (negative : Bool) (ordinal : Nat) : Binary F :=
  if h : ordinal < F.infinity then .finite ⟨negative, ordinal, h⟩ else .infinite negative

/-- Whether the value is neither infinite nor a NaN. -/
def isFinite : Binary F → Bool
  | .finite _ => true
  | _ => false

/-- Numerical equality: a NaN differs from everything and the two zeros are equal. -/
def equal : Binary F → Binary F → Bool
  | .finite x, .finite y => x.equal y
  | .infinite s, .infinite t => s == t
  | _, _ => false

/-- The value whose bits a word holds: sign, exponent and fraction from the highest bit down. -/
def ofBits (word : Nat) : Binary F :=
  let ordinal := word % F.signBit
  if ordinal ≤ F.infinity then ofOrdinal (word / F.signBit % 2 == 1) ordinal else .nan

/-- The word that holds the value's bits; every NaN has the same. -/
def toBits : Binary F → Nat
  | .nan => F.infinity + twoPow (F.fractionBits - 1)
  | .infinite s => s.toNat * F.signBit + F.infinity
  | .finite x => x.negative.toNat * F.signBit + x.ordinal

/-- Truncates toward zero; values past a bound become the bound, and a NaN becomes zero. -/
def clamped (low high : Int) : Binary F → Int
  | .nan => 0
  | .infinite negative => if negative then low else high
  | .finite x => max low (min high x.truncated)

end Binary

end PropertyGraph
