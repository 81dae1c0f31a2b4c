import PropertyGraph.Binary.Rounding
import PropertyGraph.Text.Decimal

/-!
# Shortest decimal digits

The fewest significant digits that read back as a value, and of those the digits nearest to it.  A
decimal reads back if it lies between the midpoints to the value's two neighbours, the midpoints
included when the ordinal is even.  The grid of decimals `m * 10 ^ exponent` is made finer step by
step until one of the two neighbours of the value on the grid reads back.
-/

namespace PropertyGraph

/-- Significant decimal digits and the exponent of the first of them. -/
structure Significant where
  digits : List Char
  exponent : Int
deriving DecidableEq

/-- Where an exact tie between two shortest decimals goes. -/
inductive Tie where
  | even
  | up
deriving DecidableEq

namespace Shortest

/-- A grid of decimals against a format's steps: the grid's point `m` stands for `m * point` and a
magnitude of `u` half steps for `u * half`. -/
structure Grid where
  exponent : Int
  point : Nat
  half : Nat

/-- The grid of the multiples of a power of ten. -/
def grid (F : BinaryFormat) (exponent : Int) : Grid where
  exponent := exponent
  point := tenPow exponent.toNat * (2 * F.one)
  half := tenPow (-exponent).toNat

/-- The exponent of the first digit of a positive magnitude. -/
def leadingExponent (F : BinaryFormat) (units : Nat) : Int :=
  if F.one ≤ units then ((Decimal.digits (units / F.one)).length : Int) - 1
  else -((Decimal.digits ((F.one - 1) / units)).length : Int)

/-- Whether a decimal reads back as the magnitude with an ordinal. -/
def readsBack (F : BinaryFormat) (ordinal : Nat) (g : Grid) (m : Nat) : Bool :=
  let low := (F.units (ordinal - 1) + F.units ordinal) * g.half
  let high := (F.units ordinal + F.units (ordinal + 1)) * g.half
  let decimal := m * g.point
  if ordinal % 2 == 0 then low ≤ decimal && decimal ≤ high else low < decimal && decimal < high

/-- Of the magnitude's two neighbours on the grid the nearer one. -/
def nearest (F : BinaryFormat) (tie : Tie) (ordinal : Nat) (g : Grid) : Nat :=
  let exact := 2 * F.units ordinal * g.half
  let below := exact / g.point
  let past := 2 * (exact % g.point)
  let up := g.point < past || (past == g.point && (tie == .up || below % 2 == 1))
  if up then below + 1 else below

/-- The neighbour of the magnitude on the grid that reads back, the nearer one if both do. -/
def hit (F : BinaryFormat) (tie : Tie) (ordinal : Nat) (g : Grid) : Option Nat :=
  let below := 2 * F.units ordinal * g.half / g.point
  match readsBack F ordinal g below, readsBack F ordinal g (below + 1) with
  | true, true => some (nearest F tie ordinal g)
  | true, false => some below
  | false, true => some (below + 1)
  | false, false => none

/-- The first hit on ever finer grids; after the last try the nearest decimal of one digit more. -/
def search (F : BinaryFormat) (tie : Tie) (ordinal : Nat) : Nat → Int → Nat × Int
  | 0, exponent => (nearest F tie ordinal (grid F exponent), exponent)
  | tries + 1, exponent =>
    match hit F tie ordinal (grid F exponent) with
    | some m => (m, exponent)
    | none => search F tie ordinal tries (exponent - 1)

/-- The text without the zeros at its end. -/
def dropTrailingZeros (s : List Char) : List Char := (s.reverse.dropWhile (· == '0')).reverse

end Shortest

open Shortest in
/-- The shortest digits of a magnitude; seventeen digits always suffice in double precision. -/
def BinaryFormat.shortest (F : BinaryFormat) (tie : Tie) (ordinal : Nat) : Significant :=
  if ordinal = 0 then ⟨['0'], 0⟩
  else
    let (m, exponent) := search F tie ordinal 16 (leadingExponent F (F.units ordinal))
    let digits := Decimal.digits m
    ⟨dropTrailingZeros digits, exponent + digits.length - 1⟩

end PropertyGraph
