import PropertyGraph.Error
import PropertyGraph.Json.Printer

/-!
# Faults in JSON texts

Why reading stopped, and where.  A text can be no JSON, or its value can be another than what was
asked for.  A place is kept as the number of bytes from it to the end of the text; a fault about a
value gets its place only when the reader around the value gives up.
-/

namespace PropertyGraph.Json

/-- What is wrong with a text that is no JSON. -/
inductive SyntaxFault where
  | endInValue
  | endInList
  | endInObject
  | endInString
  | colon
  | listCommaOrEnd
  | objectCommaOrEnd
  | literal
  | value
  | escape
  | number
  | numberRange
  | loneSurrogate
  | unfinishedSurrogate
  | controlCharacter
  | keyNotText
  | trailingComma
  | trailingCharacters
  | depth
deriving DecidableEq

def SyntaxFault.message : SyntaxFault → String
  | endInValue => "EOF while parsing a value"
  | endInList => "EOF while parsing a list"
  | endInObject => "EOF while parsing an object"
  | endInString => "EOF while parsing a string"
  | colon => "expected `:`"
  | listCommaOrEnd => "expected `,` or `]`"
  | objectCommaOrEnd => "expected `,` or `\x7d`"
  | literal => "expected ident"
  | value => "expected value"
  | escape => "invalid escape"
  | number => "invalid number"
  | numberRange => "number out of range"
  | loneSurrogate => "lone leading surrogate in hex escape"
  | unfinishedSurrogate => "unexpected end of hex escape"
  | controlCharacter => "control character (\\u0000-\\u001F) found while parsing a string"
  | keyNotText => "key must be a string"
  | trailingComma => "trailing comma"
  | trailingCharacters => "trailing characters"
  | depth => "recursion limit exceeded"

/-- What stands at a place where a value begins: a scalar, or the opening of a list or an object. -/
inductive Lead where
  | scalar (v : Json)
  | list
  | object

def Lead.message : Lead → String
  | scalar (.bool b) => "boolean `" ++ String.ofList (boolChars b) ++ "`"
  | scalar (.number (.integer n _)) => "integer `" ++ String.ofList (Decimal.signed n) ++ "`"
  | scalar (.number (.double x)) => "floating point `" ++ String.ofList (Layout.json64.finite x) ++ "`"
  | scalar (.string s) => "string " ++ Shown.text s
  | scalar _ => "null"
  | list => "sequence"
  | object => "map"

/-- Why a value is not what was asked for. -/
inductive ValueFault where
  | type (found : Lead) (expected : String)
  | range (n : Int) (expected : String)
  | variant (name : String) (expected : List String)
  | duplicateField (name : String)
  | missingField (name : String)
  | length (found : Nat) (expected : String)
  | format (error : FormatError)

def ValueFault.message : ValueFault → String
  | type found expected => "invalid type: " ++ found.message ++ ", expected " ++ expected
  | range n expected =>
    "invalid value: integer `" ++ String.ofList (Decimal.signed n) ++ "`, expected " ++ expected
  | variant name expected =>
    "unknown variant `" ++ name ++ "`, expected " ++
      String.intercalate " or " (expected.map fun e => "`" ++ e ++ "`")
  | duplicateField name => "duplicate field `" ++ name ++ "`"
  | missingField name => "missing field `" ++ name ++ "`"
  | length found expected => "invalid length " ++ toString found ++ ", expected " ++ expected
  | format error => error.message

/-- Why reading stopped. -/
inductive Cause where
  | text (fault : SyntaxFault)
  | value (fault : ValueFault)

def Cause.message : Cause → String
  | text fault => fault.message
  | value fault => fault.message

/-- Why reading stopped, and how many bytes were left there if the place is known. -/
structure Fault where
  cause : Cause
  unread : Option Nat

def byteLength (s : List Char) : Nat := s.foldr (fun c n => c.utf8Size + n) 0

/-- A place in a text: the line from 1 on, and the bytes of the line up to the place. -/
structure Position where
  line : Nat
  column : Nat
deriving DecidableEq

/-- The place after a number of bytes. -/
def Position.after (start : Position) : List Char → Nat → Position
  | [], _ => start
  | c :: s, bytes =>
    if bytes < c.utf8Size then { start with column := start.column + bytes }
    else if c = '\n' then after ⟨start.line + 1, 0⟩ s (bytes - c.utf8Size)
    else after { start with column := start.column + c.utf8Size } s (bytes - c.utf8Size)

/-- The place of a fault in the text that was read. -/
def Fault.position? (fault : Fault) (text : List Char) : Option Position :=
  fault.unread.map fun unread => Position.after ⟨1, 0⟩ text (byteLength text - unread)

/-- The message for a fault in a text, with its place if it has one. -/
def Fault.message (fault : Fault) (text : List Char) : String :=
  match fault.position? text with
  | some p => fault.cause.message ++ " at line " ++ toString p.line ++ " column " ++ toString p.column
  | none => fault.cause.message

/-- The form in which a command shows a fault: the message, and the place or zeros. -/
def Fault.shown (fault : Fault) (text : List Char) : String :=
  let p := (fault.position? text).getD ⟨0, 0⟩
  "Error(" ++ Shown.text fault.cause.message ++ ", line: " ++ toString p.line ++ ", column: " ++
    toString p.column ++ ")"

end PropertyGraph.Json
