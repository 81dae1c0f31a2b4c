import PropertyGraph.Json.Basic
import PropertyGraph.Binary.Layout
import PropertyGraph.NumberKind
import PropertyGraph.Rfc3339
import PropertyGraph.Text.Shown

/-!
# Errors

Why a value has not the form that was asked for (`FormatError`), why a value could not be written
(`EncodeError`) and why a text could not be read (`DecodeError`).  Each is a cause with what is needed
to say it; the wording is in the `message` functions alone.
-/

namespace PropertyGraph

/-! ### Values of the wrong form -/

/-- What a number that is out of range was meant for. -/
inductive RangeTarget where
  | timestamp | numericId
deriving DecidableEq

def RangeTarget.name : RangeTarget → String
  | timestamp => "timestamp"
  | numericId => "numeric id"

/-- What a value of another type was expected to be. -/
inductive Expectation where
  | string | bool | identifier | array
deriving DecidableEq

def Expectation.name : Expectation → String
  | string => "string"
  | bool => "bool"
  | identifier => "number or string id"
  | array => "array"

/-- The members of a document that only edges have. -/
inductive EndpointField where
  | outV | outVLabel | inV | inVLabel
deriving DecidableEq

def EndpointField.name : EndpointField → String
  | outV => "outV"
  | outVLabel => "outVLabel"
  | inV => "inV"
  | inVLabel => "inVLabel"

/-- Why a value has not the form that was asked for. -/
inductive FormatError where
  | notANumber (found : Json.Kind)
  | notIntegral (value : Binary64)
  | outOfRange (value : String) (target : RangeTarget)
  | typeMismatch (expected : Expectation) (found : Json.Kind)
  | precisionLoss (value : Binary64) (kind : NumberKind)
  | invalidDatetime (fault : Rfc3339.Fault)
  | missingEndpoint (field : EndpointField)
  | unexpectedEndpoint (field : EndpointField)
deriving DecidableEq

def FormatError.message : FormatError → String
  | notANumber found => "expected a JSON number, found " ++ found.name
  | notIntegral value => "expected an integral number, found " ++ Layout.plain.text value
  | outOfRange value target => "number " ++ value ++ " is out of range for " ++ target.name
  | typeMismatch expected found => "type mismatch: expected " ++ expected.name ++ ", found " ++ found.name
  | precisionLoss value kind =>
    Layout.plain.text value ++ " exceeds 2^53 and cannot be narrowed to " ++ kind.longName ++
      " without precision loss"
  | invalidDatetime fault => "invalid RFC 3339 datetime: " ++ fault.message
  | missingEndpoint field => "edge document is missing endpoint field " ++ field.name
  | unexpectedEndpoint field => "vertex document carries endpoint field " ++ field.name

/-! ### Values that could not be written -/

/-- How a writer was misused. -/
inductive Misuse where
  | incomplete
  | secondRoot
  | unnamedValue
  | danglingName
  | unopenedObject
  | unopenedArray
  | misplacedName
deriving DecidableEq

def Misuse.message : Misuse → String
  | incomplete => "document is incomplete"
  | secondRoot => "more than one root value"
  | unnamedValue => "object value written without a field name"
  | danglingName => "object closed after a field name without a value"
  | unopenedObject => "end_object without a matching begin_object"
  | unopenedArray => "end_array without a matching begin_array"
  | misplacedName => "field name outside an object or before the previous value"

/-- Why a value could not be written. -/
inductive EncodeError where
  | nonFiniteFloat (value : Binary64)
  | timestampOutOfRange (millis : Int64)
  | writerState (misuse : Misuse)
  | keyNotText
  | io (reason : String)
  | property (key value element : String) (source : EncodeError)
deriving DecidableEq

def EncodeError.message : EncodeError → String
  | nonFiniteFloat value => "float value " ++ Layout.plain.text value ++ " is not finite"
  | timestampOutOfRange millis =>
    "timestamp " ++ String.ofList (Decimal.signed millis.toInt) ++
      "ms falls outside years 0000..=9999 and has no RFC 3339 form"
  | writerState misuse => "writer misuse: " ++ misuse.message
  | keyNotText => "json serialization failed: key must be a string"
  | io reason => "failed to write output: " ++ reason
  | property key value element source =>
    "failed to serialize property(" ++ key ++ ": " ++ value ++ ") for " ++ element ++ ": " ++ source.message

/-! ### Texts that could not be read -/

/-- Why a text could not be read. -/
inductive DecodeError where
  | emptyInput (target : String)
  | inputTooLarge (length limit : Nat)
  | parse (target message : String)
  | format (error : FormatError)
deriving DecidableEq

def DecodeError.message : DecodeError → String
  | emptyInput target => "json text can't be empty for '" ++ target ++ "'"
  | inputTooLarge length limit =>
    "json text length " ++ toString length ++ " exceeds maximum " ++ toString limit
  | parse target message => "failed to decode '" ++ target ++ "': " ++ message
  | format error => error.message

/-! ### Errors that end a command -/

/-- A shown structure: its name, and its fields with their shown values. -/
def shownFields (name : String) (fields : List (String × String)) : String :=
  name ++ " \x7b " ++ String.intercalate ", " (fields.map fun f => f.1 ++ ": " ++ f.2) ++ " \x7d"

def FormatError.shown : FormatError → String
  | notANumber found => shownFields "NotANumber" [("found", Shown.text found.name)]
  | notIntegral value => shownFields "NotIntegral" [("value", Layout.shown.text value)]
  | outOfRange value target =>
    shownFields "OutOfRange" [("value", Shown.text value), ("target", Shown.text target.name)]
  | typeMismatch expected found =>
    shownFields "TypeMismatch" [("expected", Shown.text expected.name), ("found", Shown.text found.name)]
  | precisionLoss value kind =>
    shownFields "PrecisionLoss" [("value", Layout.shown.text value), ("kind", kind.longName)]
  | invalidDatetime fault => "InvalidDatetime(" ++ Shown.text fault.message ++ ")"
  | missingEndpoint field => shownFields "MissingEndpoint" [("field", Shown.text field.name)]
  | unexpectedEndpoint field => shownFields "UnexpectedEndpoint" [("field", Shown.text field.name)]

def EncodeError.shown : EncodeError → String
  | nonFiniteFloat value => shownFields "NonFiniteFloat" [("value", Layout.shown.text value)]
  | timestampOutOfRange millis =>
    shownFields "TimestampOutOfRange" [("millis", String.ofList (Decimal.signed millis.toInt))]
  | writerState misuse => shownFields "WriterState" [("context", Shown.text misuse.message)]
  | keyNotText => "Json(" ++ Shown.text "key must be a string" ++ ")"
  | io reason => "Io(" ++ Shown.text reason ++ ")"
  | property key value element source =>
    shownFields "Property"
      [("key", Shown.text key), ("value", Shown.text value), ("element", Shown.text element),
        ("source", source.shown)]

def DecodeError.shown : DecodeError → String
  | emptyInput target => shownFields "EmptyInput" [("target", Shown.text target)]
  | inputTooLarge length limit =>
    shownFields "InputTooLarge" [("len", toString length), ("max", toString limit)]
  | parse target message =>
    shownFields "Parse" [("target", Shown.text target), ("message", Shown.text message)]
  | format error => "Format(" ++ error.shown ++ ")"

end PropertyGraph
