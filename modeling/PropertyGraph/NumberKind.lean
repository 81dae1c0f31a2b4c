/-!
# Kinds of numbers

The five kinds of numbers that a property can hold, and their names: one for messages about shapes and
one for messages about values.
-/

namespace PropertyGraph

/-- A kind of numbers: signed integers of a width, or floating-point values of a precision. -/
inductive NumberKind where
  | int8 | int32 | int64 | float32 | float64
deriving DecidableEq, Repr

namespace NumberKind

/-- All kinds, from the narrowest on. -/
def all : List NumberKind := [int8, int32, int64, float32, float64]

/-- The short name, in shapes and warnings. -/
def name : NumberKind → String
  | int8 => "i8"
  | int32 => "i32"
  | int64 => "i64"
  | float32 => "f32"
  | float64 => "f64"

/-- The long name, in shown values. -/
def longName : NumberKind → String
  | int8 => "Int8"
  | int32 => "Int32"
  | int64 => "Int64"
  | float32 => "Float32"
  | float64 => "Float64"

def ofName? (name : String) : Option NumberKind := all.find? (·.name == name)

theorem mem_all (kind : NumberKind) : kind ∈ all := by
  cases kind <;> decide

/-- The short names tell the kinds apart. -/
theorem ofName?_name (kind : NumberKind) : ofName? kind.name = some kind := by
  cases kind <;> rfl

end NumberKind

end PropertyGraph
