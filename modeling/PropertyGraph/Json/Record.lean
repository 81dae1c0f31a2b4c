import PropertyGraph.Json.Parser
import PropertyGraph.Element

/-!
# Reading values of a known type

Readers that ask for a value of one type: scalars, lists, objects, and records with named fields.  A
value of another type is a fault about the value, placed where the reader stands.  A record is read
from an object, whose other members are skipped, or from an array of its fields in order.  The key
facts: a field is read once (`readField_of_isSet`), and a wrong scalar is a fault with a place
(`mismatch_eq`).
-/

namespace PropertyGraph.Json.Reader

/-- Stops at a value of another type than was asked for. -/
def mismatch {α : Type} (found : Lead) (expected : String) : Reader α :=
  placed (reject (.type found expected))

/-- A wrong scalar is a fault with a place. -/
theorem mismatch_eq {α : Type} (found : Lead) (expected : String) (s : List Char) :
    (mismatch found expected : Reader α) s =
      .error ⟨.value (.type found expected), some (byteLength s)⟩ s := rfl

/-! ### Scalars -/

def bool : Reader Bool := do
  match ← lead with
  | .scalar (.bool b) => pure b
  | found => mismatch found "a boolean"

def string : Reader String := do
  match ← lead with
  | .scalar (.string s) => pure s
  | found => mismatch found "a string"

/-- Reads an integer between two bounds. -/
def integer (expected : String) (low high : Int) : Reader Int := do
  match ← lead with
  | .scalar (.number (.integer n _)) =>
    if low ≤ n ∧ n ≤ high then pure n else placed (reject (.range n expected))
  | found => mismatch found expected

def int64 : Reader Int64 := Int64.ofInt <$> integer "i64" (-9223372036854775808) 9223372036854775807

def int32 : Reader Int32 := Int32.ofInt <$> integer "i32" (-2147483648) 2147483647

def float64 : Reader Binary64 := do
  match ← lead with
  | .scalar (.number n) => pure n.toBinary
  | found => mismatch found "f64"

/-- Reads the null value where only it may stand. -/
def unit : Reader Unit := do
  match ← lead with
  | .scalar .null => pure ()
  | found => mismatch found "unit"

/-- Reads a value that may be null. -/
def optional {α : Type} (read : Reader α) : Reader (Option α) := do
  match ← peekToken with
  | some 'n' => do
    advance
    literal ['u', 'l', 'l']
    pure none
  | _ => some <$> read

/-- What a timestamp is asked for as. -/
def timestampExpected : String := "an integral number of milliseconds since the epoch"

/-- Reads a timestamp from a number of milliseconds.  The opening of a list or an object is taken
before it is refused. -/
def timestamp (depth : Nat) : Reader Timestamp := do
  match ← lead with
  | .scalar (.number n) =>
    match Timestamp.ofRead n with
    | .ok t => pure t
    | .error e => placed (reject (.format e))
  | .list => nested depth fun _ => enclosed endList (reject (.type .list timestampExpected))
  | .object => nested depth fun _ => enclosed endObject (reject (.type .object timestampExpected))
  | found => mismatch found timestampExpected

/-! ### Lists, objects and kinds of elements -/

def list {α : Type} (item : Nat → Reader α) (depth : Nat) : Reader (List α) := do
  match ← lead with
  | .list => nested depth fun depth => enclosed endList (items (item depth))
  | found => mismatch found "a sequence"

def object (depth : Nat) : Reader (List (String × Json)) := do
  match ← lead with
  | .object => nested depth valueMembers
  | found => mismatch found "a map"

def elementKindName : Reader ElementKind := do
  match ← lead with
  | .scalar (.string s) =>
    match ElementKind.ofName? s with
    | some kind => pure kind
    | none => placed (reject (.variant s [ElementKind.vertex.name, ElementKind.edge.name]))
  | found => mismatch found "variant identifier"

/-- Reads the member of an object that names a kind of elements by its key, with the null value. -/
def elementKindMember : Reader ElementKind := do
  advance
  let kind ← elementKindName
  colon
  unit
  match ← peekToken with
  | some '\x7d' => do
    advance
    pure kind
  | some _ => failAhead .value 0
  | none => failAhead .endInObject 0

/-- Reads a kind of elements: its name, or an object with the name as its only key. -/
def elementKind (depth : Nat) : Reader ElementKind := do
  match ← peekToken with
  | some '\x7b' => nested depth fun _ => elementKindMember
  | some '"' => elementKindName
  | some _ => failAtNext .value
  | none => failAtNext .endInValue

/-! ### Records -/

/-- Where a field may be missing: nowhere, in an object alone, or in an array too. -/
inductive Presence where
  | required | nullable | defaulted
deriving DecidableEq

/-- A field of a record that is read into a draft: whether the draft has it, and how it is read into
the draft. -/
structure Field (σ : Type) where
  name : String
  presence : Presence
  isSet : σ → Bool
  read : Nat → σ → Reader σ

/-- A record: its name in messages and its fields in order. -/
structure Record (σ : Type) where
  name : String
  fields : List (Field σ)

variable {σ : Type}

/-- Reads a field from its colon on; a field that was read before is refused. -/
def readField (depth : Nat) (field : Field σ) (draft : σ) : Reader σ :=
  if field.isSet draft then reject (.duplicateField field.name)
  else do
    colon
    field.read depth draft

/-- Reads a member of an object: one of the fields, or something that is skipped. -/
def readMember (depth : Nat) (fields : List (Field σ)) (key : String) (draft : σ) : Reader σ :=
  match fields.find? (·.name == key) with
  | some field => readField depth field draft
  | none => do
    colon
    skip
    pure draft

/-- Reads the members of an object, in which no required field may be missing. -/
def readMembers (depth : Nat) (record : Record σ) (draft : σ) : Reader σ := do
  let draft ← members (readMember depth record.fields) draft
  match record.fields.find? fun field => field.presence == .required && !field.isSet draft with
  | some field => reject (.missingField field.name)
  | none => pure draft

/-- Reads the items of an array as fields in order, from the one with an index on. -/
def readItems (depth : Nat) (record : Record σ) : Nat → List (Field σ) → σ → Reader σ
  | _, [], draft => pure draft
  | index, field :: fields, draft => do
    if ← hasItem (index == 0) then do
      let draft ← field.read depth draft
      readItems depth record (index + 1) fields draft
    else if field.presence = .defaulted then readItems depth record (index + 1) fields draft
    else reject (.length index (record.name ++ " with " ++ toString record.fields.length ++ " elements"))

/-- Reads a record into a draft. -/
def record (form : Record σ) (draft : σ) (depth : Nat) : Reader σ := do
  match ← lead with
  | .list => nested depth fun depth => enclosed endList (readItems depth form 0 form.fields draft)
  | .object => nested depth fun depth => enclosed endObject (readMembers depth form draft)
  | found => mismatch found form.name

/-- A field is read once. -/
theorem readField_of_isSet {depth : Nat} {field : Field σ} {draft : σ} (h : field.isSet draft) :
    readField depth field draft = reject (.duplicateField field.name) := by
  rw [readField, if_pos h]

end PropertyGraph.Json.Reader
