import PropertyGraph.Text.Decimal

/-!
# Identifiers

The identifiers of vertices, edges and property keys: 64-bit integers or texts.  A text that looks
like a number stays a text.  The key facts: identifiers are ordered with the numbers first
(`numeric_lt_textual`), and the order is total (`compare_swap`).
-/

namespace PropertyGraph

inductive Identifier where
  | numeric (value : Int64)
  | textual (text : String)
deriving DecidableEq, Hashable, Inhabited

namespace Identifier

def isNumeric : Identifier → Bool
  | numeric _ => true
  | textual _ => false

def value? : Identifier → Option Int64
  | numeric n => some n
  | textual _ => none

def text? : Identifier → Option String
  | numeric _ => none
  | textual s => some s

/-- The name of the identifier's type, as type tags write it. -/
def typeName : Identifier → String
  | numeric _ => "numeric"
  | textual _ => "textual"

def display : Identifier → String
  | numeric n => String.ofList (Decimal.signed n.toInt)
  | textual s => s

/-- Numbers come first, by value; texts are ordered by their characters. -/
def compare : Identifier → Identifier → Ordering
  | numeric m, numeric n => Ord.compare m.toInt n.toInt
  | numeric _, textual _ => .lt
  | textual _, numeric _ => .gt
  | textual s, textual t => Ord.compare s t

theorem numeric_lt_textual (n : Int64) (s : String) : compare (numeric n) (textual s) = .lt := rfl

theorem compare_swap (a b : Identifier) : (compare a b).swap = compare b a := by
  cases a <;> cases b
  · exact Std.OrientedOrd.eq_swap.symm
  · rfl
  · rfl
  · exact Std.OrientedOrd.eq_swap.symm

def sort (ids : List Identifier) : List Identifier := ids.mergeSort fun a b => compare a b != .gt

/-- The list without identifiers that are followed by an equal one; of a sorted list, each identifier
once. -/
def dropRepeated (ids : List Identifier) : List Identifier :=
  ids.foldr (fun a rest => if rest.head? = some a then rest else a :: rest) []

end Identifier

end PropertyGraph
