import PropertyGraph.Identifier
import PropertyGraph.Timestamp

/-!
# Property values

The closed set of values that a property can have.  Numbers keep their kind; lists hold values of any
sort; and any other structure is held as JSON.  The key fact: a value is a number exactly if it has a
kind (`isNumber_iff`).
-/

namespace PropertyGraph

inductive PropertyValue where
  | timestamp (t : Timestamp)
  | int8 (n : Int8)
  | int32 (n : Int32)
  | int64 (n : Int64)
  | float32 (x : Binary32)
  | float64 (x : Binary64)
  | text (s : String)
  | bool (b : Bool)
  | id (i : Identifier)
  | list (items : List PropertyValue)
  | nested (j : Json)
deriving Inhabited

namespace PropertyValue

def numberKind? : PropertyValue → Option NumberKind
  | int8 _ => some .int8
  | int32 _ => some .int32
  | int64 _ => some .int64
  | float32 _ => some .float32
  | float64 _ => some .float64
  | _ => none

def isNumber (v : PropertyValue) : Bool := v.numberKind?.isSome

theorem isNumber_iff {v : PropertyValue} : v.isNumber ↔ ∃ kind, v.numberKind? = some kind :=
  Option.isSome_iff_exists

mutual

/-- The value that a JSON value stands for when nothing is known about it: numbers are doubles,
objects stay as they are, and the null value is no value. -/
def ofJson? : Json → Option PropertyValue
  | .null => none
  | .bool b => some (bool b)
  | .number n => some (float64 n.toBinary)
  | .string s => some (text s)
  | .array items => some (list (ofItems items))
  | .object members => some (nested (.object members))

/-- The values of the items of a list, in which a null value is kept as JSON. -/
def ofItems : List Json → List PropertyValue
  | [] => []
  | x :: xs => (ofJson? x).getD (nested .null) :: ofItems xs

end

mutual

/-- Equality of values of the same sort; floating-point values are compared numerically. -/
def equal : PropertyValue → PropertyValue → Bool
  | timestamp s, timestamp t => s == t
  | int8 m, int8 n => m == n
  | int32 m, int32 n => m == n
  | int64 m, int64 n => m == n
  | float32 x, float32 y => x.equal y
  | float64 x, float64 y => x.equal y
  | text s, text t => s == t
  | bool a, bool b => a == b
  | id i, id j => i == j
  | list xs, list ys => equalItems xs ys
  | nested i, nested j => i.equal j
  | _, _ => false

def equalItems : List PropertyValue → List PropertyValue → Bool
  | [], [] => true
  | x :: xs, y :: ys => x.equal y && equalItems xs ys
  | _, _ => false

end

/-- A shown value: its sort and what it holds. -/
def shownAs (sort held : String) : String := sort ++ "(" ++ held ++ ")"

def shownInt (n : Int) : String := String.ofList (Decimal.signed n)

mutual

def shown : PropertyValue → String
  | timestamp t => shownAs "Timestamp" (shownAs "Timestamp" (shownInt t.millis.toInt))
  | int8 n => shownAs "Int8" (shownInt n.toInt)
  | int32 n => shownAs "Int32" (shownInt n.toInt)
  | int64 n => shownAs "Int64" (shownInt n.toInt)
  | float32 x => shownAs "Float32" (Layout.shown.text x)
  | float64 x => shownAs "Float64" (Layout.shown.text x)
  | text s => shownAs "Text" (Shown.text s)
  | bool b => shownAs "Bool" (if b then "true" else "false")
  | id (.numeric n) => shownAs "Id" (shownAs "Numeric" (shownInt n.toInt))
  | id (.textual s) => shownAs "Id" (shownAs "Textual" (Shown.text s))
  | list xs => shownAs "List" ("[" ++ Json.listed (shownItems xs) ++ "]")
  | nested j => shownAs "Nested" j.shown

def shownItems : List PropertyValue → List String
  | [] => []
  | x :: xs => x.shown :: shownItems xs

end

def equalOption : Option PropertyValue → Option PropertyValue → Bool
  | none, none => true
  | some v, some w => v.equal w
  | _, _ => false

end PropertyValue

/-- A property: a key, and a value unless it is null. -/
structure Property where
  key : String
  value : Option PropertyValue
deriving Inhabited

def Property.equal (p q : Property) : Bool := p.key == q.key && PropertyValue.equalOption p.value q.value

end PropertyGraph
