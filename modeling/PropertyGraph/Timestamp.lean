import PropertyGraph.Error
import PropertyGraph.Json.Printer

/-!
# Timestamps

Points in time with millisecond resolution, and the instants of a clock with nanosecond resolution
that they are exchanged with.  A timestamp is read from a number of milliseconds or from a date and
time.  The key fact: a number held as an integer of 64 bits is read as it is (`ofNumber_of_int64?`).
-/

namespace PropertyGraph

/-- A point in time, as milliseconds since the epoch. -/
structure Timestamp where
  millis : Int64
deriving DecidableEq, Inhabited

/-- A point in time of a clock, as nanoseconds since the epoch. -/
structure Instant where
  nanos : Int
deriving DecidableEq

/-- How timestamps are written. -/
inductive TimestampFormat where
  | epochMillis | rfc3339
deriving DecidableEq

/-- The largest number of milliseconds on either side of the epoch that an instant is brought to. -/
def Instant.mostMillis : Nat := 9223372036854775807

/-- The timestamp of an instant: the fraction of a millisecond is dropped, on both sides of the epoch
toward it, and an instant too far away becomes the last timestamp that is as far on both sides. -/
def Instant.toTimestamp (t : Instant) : Timestamp :=
  let millis : Int := min (t.nanos.natAbs / 1000000) mostMillis
  ⟨.ofInt (if t.nanos < 0 then -millis else millis)⟩

/-- An instant as its signed distance from the epoch in seconds. -/
def Instant.display (t : Instant) : String :=
  let nanos := t.nanos.natAbs
  String.ofList ((if t.nanos < 0 then '-' else '+') :: Decimal.digits (nanos / 1000000000) ++
    '.' :: Decimal.padded 9 (nanos % 1000000000))

namespace Timestamp

def epoch : Timestamp := ⟨0⟩

def toInstant (t : Timestamp) : Instant := ⟨t.millis.toInt * 1000000⟩

def display (t : Timestamp) : String := String.ofList (Decimal.signed t.millis.toInt) ++ "ms"

def compare (s t : Timestamp) : Ordering := Ord.compare s.millis.toInt t.millis.toInt

/-! ### Reading -/

/-- Whether an integer fits a signed word of 64 bits. -/
def fits (n : Int) : Bool := -9223372036854775808 ≤ n && n < 9223372036854775808

/-- A double as milliseconds: it has to be a whole number of 64 bits. -/
def ofBinary (x : Binary64) : Except FormatError Timestamp :=
  match x with
  | .finite y =>
    if !y.isIntegral then .error (.notIntegral x)
    else if fits y.truncated then .ok ⟨.ofInt y.truncated⟩
    else .error (.outOfRange (Layout.plain.text x) .timestamp)
  | _ => .error (.notIntegral x)

/-- A number that is held in a value as milliseconds. -/
def ofNumber (n : Json.Number) : Except FormatError Timestamp :=
  match n.int64?, n with
  | some millis, _ => .ok ⟨millis⟩
  | none, .integer .. => .error (.outOfRange n.text .timestamp)
  | none, .double x => ofBinary (.finite x)

/-- A number as a text is read: the integers are told apart by their sign, and those without one have to fit. -/
def ofRead (n : Json.Number) : Except FormatError Timestamp :=
  match n with
  | .integer millis _ =>
    if millis < 0 then .ok ⟨.ofInt millis⟩
    else if millis < 9223372036854775808 then .ok ⟨.ofInt millis⟩
    else .error (.outOfRange (String.ofList (Decimal.signed millis)) .timestamp)
  | .double x => ofBinary (.finite x)

def ofText (s : String) : Except FormatError Timestamp :=
  match Rfc3339.parse s.toList with
  | .ok millis => .ok ⟨.ofInt millis⟩
  | .error fault => .error (.invalidDatetime fault)

/-- A JSON value as a timestamp.  Numbers are milliseconds in either format. -/
def ofJson (format : TimestampFormat) (j : Json) : Except FormatError Timestamp :=
  match format, j with
  | .rfc3339, .string s => ofText s
  | _, .number n => ofNumber n
  | _, other => .error (.notANumber other.kind)

theorem ofNumber_of_int64? {n : Json.Number} {millis : Int64} (h : n.int64? = some millis) :
    ofNumber n = .ok ⟨millis⟩ := by
  simp [ofNumber, h]

end Timestamp

end PropertyGraph
