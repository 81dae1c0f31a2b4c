import PropertyGraph.Value

/-!
# Narrowing numbers

A number that was read without a kind is a double; narrowing brings it to the kind it was meant to
have.  Integers are cut to the lower bits, doubles lose their fraction and stop at the ends of the
range.  A double beyond `2 ^ 53` that becomes a 64-bit integer may have lost digits before: that is
reported, as a warning or as an error.  The key facts: a narrowed number has the kind asked for
(`numberKind?_narrow`), and anything else is kept (`narrow_of_not_isNumber`).
-/

namespace PropertyGraph

/-- The largest magnitude up to which every integer is a double. -/
def maxSafeInteger : Nat := 9007199254740991

/-- A number without its kind. -/
inductive Widened where
  | int (n : Int64)
  | float (x : Binary64)
deriving DecidableEq

/-- Whether the magnitude of a double is above a whole number. -/
def Binary.exceeds {F : BinaryFormat} (x : Binary F) (n : Nat) : Bool :=
  match x with
  | .nan => false
  | .infinite _ => true
  | .finite y => n * F.one < y.magnitude

namespace Widened

/-- The number brought to a kind.  A double becomes a byte through 32 bits. -/
def narrow (n : Widened) (kind : NumberKind) : PropertyValue :=
  match n, kind with
  | int i, .int8 => .int8 (.ofInt i.toInt)
  | int i, .int32 => .int32 (.ofInt i.toInt)
  | int i, .int64 => .int64 i
  | int i, .float32 => .float32 (.ofInt i.toInt)
  | int i, .float64 => .float64 (.ofInt i.toInt)
  | float x, .int8 => .int8 (.ofInt (x.clamped (-2147483648) 2147483647))
  | float x, .int32 => .int32 (.ofInt (x.clamped (-2147483648) 2147483647))
  | float x, .int64 => .int64 (.ofInt (x.clamped (-9223372036854775808) 9223372036854775807))
  | float x, .float32 => .float32 (x.convert .binary32)
  | float x, .float64 => .float64 x

/-- The double that may have lost digits before it is brought to a kind. -/
def doubtful? (n : Widened) (kind : NumberKind) : Option Binary64 :=
  match n, kind with
  | float x, .int64 => if x.exceeds maxSafeInteger then some x else none
  | _, _ => none

end Widened

namespace PropertyValue

/-- The number without its kind. -/
def widened? : PropertyValue → Option Widened
  | int8 n => some (.int (.ofInt n.toInt))
  | int32 n => some (.int (.ofInt n.toInt))
  | int64 n => some (.int n)
  | float32 x => some (.float (x.convert .binary64))
  | float64 x => some (.float x)
  | _ => none

/-- The double that narrowing warns of. -/
def doubtful? (v : PropertyValue) (kind : NumberKind) : Option Binary64 :=
  v.widened?.bind (·.doubtful? kind)

/-- Narrows a number to a kind; any other value is kept. -/
def narrow (v : PropertyValue) (kind : NumberKind) : PropertyValue :=
  match v.widened? with
  | some n => n.narrow kind
  | none => v

/-- Narrows a number to a kind unless digits may have been lost. -/
def narrowExact (v : PropertyValue) (kind : NumberKind) : Except FormatError PropertyValue :=
  match v.doubtful? kind with
  | some x => .error (.precisionLoss x kind)
  | none => .ok (v.narrow kind)

theorem isSome_widened? (v : PropertyValue) : v.widened?.isSome = v.isNumber := by
  cases v <;> rfl

/-- A narrowed number has the kind asked for. -/
theorem numberKind?_narrow {v : PropertyValue} (h : v.isNumber) (kind : NumberKind) :
    (v.narrow kind).numberKind? = some kind := by
  rw [← isSome_widened?, Option.isSome_iff_exists] at h
  obtain ⟨n, hn⟩ := h
  rw [narrow, hn]
  cases n <;> cases kind <;> rfl

/-- What is no number is kept. -/
theorem narrow_of_not_isNumber {v : PropertyValue} (h : v.isNumber = false) (kind : NumberKind) :
    v.narrow kind = v := by
  rw [← isSome_widened?, Option.isSome_eq_false_iff, Option.isNone_iff_eq_none] at h
  rw [narrow, h]

end PropertyValue

end PropertyGraph
