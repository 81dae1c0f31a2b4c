import PropertyGraph.Json.Reader

/-!
# Reading whole JSON values

Values of any sort, values that are skipped, and texts that hold one value.  A value that is read
nests at most `maxDepth` lists and objects; one that is skipped may nest to any depth and is checked
for its form alone.  The key fact: a repeated key keeps its first place and takes the last value
(`Json.keys_insert`).
-/

namespace PropertyGraph.Json

/-- The number of lists and objects that may be open at a time. -/
def maxDepth : Nat := 127

namespace Reader

/-- Goes one level down, unless all levels are used up. -/
def nested {α : Type} (depth : Nat) (read : Nat → Reader α) : Reader α :=
  match depth with
  | 0 => failAtNext .depth
  | depth + 1 => read depth

/-! ### Values -/

/-- Reads a member of an object: the colon and the value. -/
def memberWith (read : Reader Json) (key : String) (ms : List (String × Json)) :
    Reader (List (String × Json)) := do
  colon
  let v ← read
  pure (Json.insert key v ms)

/-- Reads a value, given the reader of the values in it unless all levels are used up. -/
def valueWith (read : Option (Reader Json)) : Reader Json := do
  match ← lead, read with
  | .scalar v, _ => pure v
  | .list, some read => .array <$> enclosed endList (items read)
  | .object, some read => .object <$> enclosed endObject (members (memberWith read) [])
  | _, none => failAtNext .depth

/-- Reads a value with a number of levels left. -/
def value : Nat → Reader Json
  | 0 => valueWith none
  | depth + 1 => valueWith (some (value depth))

/-- Reads the members of an object with a number of levels left, its opening brace being next. -/
def valueMembers (depth : Nat) : Reader (List (String × Json)) :=
  enclosed endObject (members (memberWith (value depth)) [])

/-! ### Values that are skipped -/

/-- Skips what comes after the backslash of an escape. -/
def skipEscape : Reader Unit := do
  match ← peek with
  | none => failAhead .endInString 0
  | some 'u' => do
    advance
    let _ ← hexEscape
  | some c => if (simpleEscape? c).isSome then advance else failAhead .escape 1

/-- Skips the characters of a string and the quote that ends it; the length of `room` bounds their
number. -/
def skipStringItems : Room → Reader Unit
  | [] => failAhead .endInString 0
  | _ :: room => do
    match ← peek with
    | none => failAhead .endInString 0
    | some '"' => advance
    | some '\\' => do
      advance
      skipEscape
      skipStringItems room
    | some c =>
      if c.toNat < 0x20 then failAhead .controlCharacter 0
      else do
        advance
        skipStringItems room

def skipString : Reader Unit := withRoom skipStringItems

def skipExponent : Reader Unit := do
  let sign ← peek
  if sign = some '+' ∨ sign = some '-' then advance
  let written ← digits
  if written.isEmpty then failAhead .number 1

def skipExponentIfAny : Reader Unit := do
  let c ← peek
  if c = some 'e' ∨ c = some 'E' then do
    advance
    skipExponent

def skipAfterInteger : Reader Unit := do
  let c ← peek
  if c = some '.' then do
    advance
    let written ← digits
    if written.isEmpty then failAtNext .number else skipExponentIfAny
  else skipExponentIfAny

def skipNumber : Reader Unit := do
  match ← digits with
  | [] => failAhead .number 1
  | ['0'] => skipAfterInteger
  | '0' :: left => failBehind .number (left.length - 1)
  | _ => skipAfterInteger

/-- Skips a scalar; the opening of a list or an object stays, and is given. -/
def skipLead : Reader (Option Char) := do
  match ← peekToken with
  | none => failAtNext .endInValue
  | some 'n' => do
    advance
    literal ['u', 'l', 'l']
    pure none
  | some 't' => do
    advance
    literal ['r', 'u', 'e']
    pure none
  | some 'f' => do
    advance
    literal ['a', 'l', 's', 'e']
    pure none
  | some '"' => do
    advance
    skipString
    pure none
  | some '-' => do
    advance
    skipNumber
    pure none
  | some c =>
    if c = '[' ∨ c = '\x7b' then do
      advance
      pure (some c)
    else if c.isDigit then do
      skipNumber
      pure none
    else failAtNext .value

/-- Skips the items of a list from one on, and the closing bracket; the length of `room` bounds their
number. -/
def skipItems (skip : Reader Unit) : Room → Reader Unit
  | [] => failAtNext .endInList
  | _ :: room => do
    skip
    match ← peekToken with
    | none => failAtNext .endInList
    | some ',' => do
      advance
      skipItems skip room
    | some ']' => advance
    | some _ => failAtNext .listCommaOrEnd

/-- Skips the members of an object from one on, and the closing brace; the length of `room` bounds
their number. -/
def skipMembers (skip : Reader Unit) : Room → Reader Unit
  | [] => failAtNext .endInObject
  | _ :: room => do
    match ← peekToken with
    | none => failAtNext .endInObject
    | some '"' => do
      advance
      skipString
      colon
      skip
      match ← peekToken with
      | none => failAtNext .endInObject
      | some ',' => do
        advance
        skipMembers skip room
      | some '\x7d' => advance
      | some _ => failAtNext .objectCommaOrEnd
    | some _ => failAtNext .keyNotText

/-- Skips a value, given the skipper of the values in it. -/
def skipWith (skip : Reader Unit) : Reader Unit := do
  match ← skipLead with
  | none => pure ()
  | some '[' => do
    match ← peekToken with
    | none => failAtNext .endInList
    | some ']' => advance
    | some _ => withRoom (skipItems skip)
  | some _ => do
    match ← peekToken with
    | none => failAtNext .endInObject
    | some '\x7d' => advance
    | some _ => withRoom (skipMembers skip)

/-- Skips a value; the length of `room` bounds how deep it nests. -/
def skipTo : Room → Reader Unit
  | [] => failAtNext .endInValue
  | _ :: room => skipWith (skipTo room)

def skip : Reader Unit := withRoom skipTo

/-! ### Whole texts -/

/-- Takes the blanks at the end of a text, after which nothing may come. -/
def atEnd : Reader Unit := do
  match ← peekToken with
  | none => pure ()
  | some _ => failAtNext .trailingCharacters

/-- The value that a reader finds in a text that holds nothing else. -/
def ofText {α : Type} (read : Reader α) (text : List Char) : Except Fault α :=
  match read text with
  | .ok a rest =>
    match atEnd rest with
    | .ok _ _ => .ok a
    | .error fault _ => .error fault
  | .error fault _ => .error fault

end Reader

def parse (text : List Char) : Except Fault Json := Reader.ofText (Reader.value maxDepth) text

end PropertyGraph.Json
