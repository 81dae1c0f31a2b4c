import PropertyGraph.Binary.Shortest

/-!
# Numbers as text

How the significant digits of a value are set out.  A `Layout` says which numbers are written
positionally, whether whole numbers keep a fraction and how an exponent is written; the project uses
four of them.  A value can also be written with a fixed number of places, rounded from its exact
value.
-/

namespace PropertyGraph

/-- A way to write numbers: with the first digit's exponent within `least` and `most` (where given)
they are written positionally, and then `fraction` says whether a whole number gets `.0`; else with an
exponent, whose plus sign is written if `plus` is set. -/
structure Layout where
  least : Option Int
  most : Option Int
  fraction : Bool
  plus : Bool
  tie : Tie

namespace Layout

/-- JSON numbers in double precision: positional from `0.00001` below `10 ^ 16`, else as `1e+16` or
`1.5e-10`. -/
def json64 : Layout := ⟨some (-5), some 15, true, true, .even⟩

/-- JSON numbers in single precision: positional from `0.000001` below `10 ^ 13`. -/
def json32 : Layout := ⟨some (-6), some 12, true, true, .even⟩

/-- Plain numbers in messages and tables: always positional, whole numbers without a fraction. -/
def plain : Layout := ⟨none, none, false, false, .up⟩

/-- Numbers inside shown values: positional from `0.0001` below `10 ^ 16`, else as `1e16` or `1e-5`. -/
def shown : Layout := ⟨some (-4), some 15, true, false, .up⟩

/-- Whether a number with this exponent of the first digit is written positionally. -/
def isPositional (L : Layout) (exponent : Int) : Bool :=
  L.least.all (· ≤ exponent) && L.most.all (exponent ≤ ·)

/-- The digits with the point at its place, zeros filling up to it. -/
def positional (fraction : Bool) (s : Significant) : List Char :=
  if s.exponent < 0 then
    '0' :: '.' :: (List.replicate (-s.exponent - 1).toNat '0' ++ s.digits)
  else
    let whole := s.exponent.toNat + 1
    if s.digits.length ≤ whole then
      s.digits ++ List.replicate (whole - s.digits.length) '0' ++ (if fraction then ['.', '0'] else [])
    else s.digits.take whole ++ '.' :: s.digits.drop whole

/-- One digit, a point and the others if there are any, and the exponent. -/
def scientific (plus : Bool) (s : Significant) : List Char :=
  let rest := s.digits.drop 1
  s.digits.take 1 ++ (if rest.isEmpty then [] else '.' :: rest) ++
    'e' :: (if plus && 0 ≤ s.exponent then ['+'] else []) ++ Decimal.signed s.exponent

/-- The text of a finite value. -/
def finite {F : BinaryFormat} (L : Layout) (x : Finite F) : List Char :=
  let s := F.shortest L.tie x.ordinal
  (if x.negative then ['-'] else []) ++
    if L.isPositional s.exponent then positional L.fraction s else scientific L.plus s

/-- The text of a value; the values that are not finite have names. -/
def text {F : BinaryFormat} (L : Layout) (x : Binary F) : String :=
  match x with
  | .nan => "NaN"
  | .infinite false => "inf"
  | .infinite true => "-inf"
  | .finite x => String.ofList (L.finite x)

end Layout

/-- The quotient with a fixed number of places, a half going to the even digit. -/
def fixedPlaces (places n d : Nat) : List Char :=
  let rounded := divEven (n * tenPow places) d
  Decimal.digits (rounded / tenPow places) ++ '.' :: Decimal.padded places (rounded % tenPow places)

/-- The text of a value with a fixed number of places, rounded from the exact value. -/
def Binary.fixedText {F : BinaryFormat} (places : Nat) : Binary F → String
  | .finite x =>
    String.ofList ((if x.negative then ['-'] else []) ++ fixedPlaces places x.magnitude F.one)
  | x => Layout.plain.text x

end PropertyGraph
