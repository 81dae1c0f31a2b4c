import PropertyGraph.Json.Fault
import PropertyGraph.Text.Blank

/-!
# Reading JSON

Readers take characters from the front of a text and give a value or a fault.  This module has the
readers of blanks, literals, strings and numbers, and those of lists and objects over readers of what
is in them.
-/

namespace PropertyGraph.Json

/-- A reader: the rest of the text is its state, also after a fault. -/
abbrev Reader (α : Type) := EStateM Fault (List Char) α

namespace Reader

/-! ### Faults and places -/

/-- Stops with a fault of the text a number of bytes ahead. -/
def failAhead {α : Type} (fault : SyntaxFault) (bytes : Nat) : Reader α := fun s =>
  .error ⟨.text fault, some (byteLength s - bytes)⟩ s

/-- Stops with a fault of the text a number of bytes back. -/
def failBehind {α : Type} (fault : SyntaxFault) (bytes : Nat) : Reader α := fun s =>
  .error ⟨.text fault, some (byteLength s + bytes)⟩ s

/-- Stops with a fault of the text at the character that comes next, or at the end. -/
def failAtNext {α : Type} (fault : SyntaxFault) : Reader α := failAhead fault 1

/-- Stops with a fault of the value, whose place is still open. -/
def reject {α : Type} (fault : ValueFault) : Reader α := throw ⟨.value fault, none⟩

/-- Gives a fault without a place the one where the reader stands. -/
def placed {α : Type} (read : Reader α) : Reader α := fun s =>
  match read s with
  | .error ⟨cause, none⟩ rest => .error ⟨cause, some (byteLength rest)⟩ rest
  | result => result

/-! ### Characters -/

/-- The next character, which stays. -/
def peek : Reader (Option Char) := fun s => .ok s.head? s

def advance : Reader Unit := fun s => .ok () s.tail

def skipBlanks : Reader Unit := fun s => .ok () (s.dropWhile isJsonBlank)

/-- The next character after blanks, which stays. -/
def peekToken : Reader (Option Char) := do
  skipBlanks
  peek

def literal : List Char → Reader Unit
  | [] => pure ()
  | c :: cs => do
    match ← peek with
    | none => failAhead .endInValue 0
    | some d =>
      if d = c then do
        advance
        literal cs
      else failAtNext .literal

/-- How often a reader may repeat itself: a text that is as long.  Each round takes a character at
least, so the text that is left, with one round more for its end, is room enough. -/
abbrev Room := List Char

/-- Reads with room for the text that is left. -/
def withRoom {α : Type} (read : Room → Reader α) : Reader α := fun s => read (' ' :: s) s

/-! ### Strings -/

def hexValue? (c : Char) : Option Nat :=
  if '0' ≤ c ∧ c ≤ '9' then some (c.toNat - '0'.toNat)
  else if 'a' ≤ c ∧ c ≤ 'f' then some (c.toNat - 'a'.toNat + 10)
  else if 'A' ≤ c ∧ c ≤ 'F' then some (c.toNat - 'A'.toNat + 10)
  else none

def hexValue4? (a b c d : Char) : Option Nat := do
  let a ← hexValue? a
  let b ← hexValue? b
  let c ← hexValue? c
  let d ← hexValue? d
  some (((a * 16 + b) * 16 + c) * 16 + d)

def hexEscape : Reader Nat := fun s =>
  match s with
  | a :: b :: c :: d :: rest =>
    match hexValue4? a b c d with
    | some n => .ok n rest
    | none => failAhead .escape 4 s
  | _ => if byteLength s < 4 then failAhead .endInString (byteLength s) s else failAhead .escape 4 s

/-- Reads the second half of a pair of escapes that stands for one character. -/
def secondHalf : Reader Nat := do
  match ← peek with
  | none => failAhead .endInString 0
  | some '\\' => do
    advance
    match ← peek with
    | none => failAhead .endInString 0
    | some 'u' => do
      advance
      hexEscape
    | some _ => failAhead .unfinishedSurrogate 1
  | some _ => failAhead .unfinishedSurrogate 1

/-- Reads the digits of an escape, and those of a second escape if the first is half of a pair. -/
def unicodeEscape : Reader Char := do
  let high ← hexEscape
  if 0xdc00 ≤ high ∧ high ≤ 0xdfff then failAhead .loneSurrogate 0
  else if 0xd800 ≤ high ∧ high ≤ 0xdbff then do
    let low ← secondHalf
    if 0xdc00 ≤ low ∧ low ≤ 0xdfff then
      pure (Char.ofNat ((high - 0xd800) * 0x400 + (low - 0xdc00) + 0x10000))
    else failAhead .loneSurrogate 0
  else pure (Char.ofNat high)

/-- The character that an escape of one character stands for. -/
def simpleEscape? : Char → Option Char
  | '"' => some '"'
  | '\\' => some '\\'
  | '/' => some '/'
  | 'b' => some '\x08'
  | 'f' => some '\x0c'
  | 'n' => some '\n'
  | 'r' => some '\r'
  | 't' => some '\t'
  | _ => none

/-- Reads what comes after the backslash of an escape. -/
def escape : Reader Char := do
  match ← peek with
  | none => failAhead .endInString 0
  | some 'u' => do
    advance
    unicodeEscape
  | some c =>
    match simpleEscape? c with
    | some d => do
      advance
      pure d
    | none => failAhead .escape 1

/-- Reads a character of a string, or the quote that ends it. -/
def stringItem : Reader (Option Char) := do
  match ← peek with
  | none => failAhead .endInString 0
  | some '"' => do
    advance
    pure none
  | some '\\' => do
    advance
    some <$> escape
  | some c =>
    if c.toNat < 0x20 then failAhead .controlCharacter 1
    else do
      advance
      pure (some c)

/-- Reads the characters of a string after some, and the quote that ends it; the length of `room`
bounds their number. -/
def stringItems : Room → List Char → Reader (List Char)
  | [], _ => failAhead .endInString 0
  | _ :: room, before => do
    match ← stringItem with
    | some c => stringItems room (c :: before)
    | none => pure before.reverse

def stringBody : Reader String := withRoom fun room => String.ofList <$> stringItems room []

/-! ### Numbers -/

/-- Takes digits into a number as long as it stays within a limit, and gives the digits left over. -/
def absorb (limit : Nat) : Nat → List Char → Nat × List Char
  | acc, [] => (acc, [])
  | acc, c :: cs =>
    if acc * 10 + Decimal.digitValue c ≤ limit then absorb limit (acc * 10 + Decimal.digitValue c) cs
    else (acc, c :: cs)

/-- The largest number that the digits of a significand are taken into. -/
def significandLimit : Nat := 18446744073709551615

/-- The largest number that the digits of an exponent are taken into. -/
def exponentLimit : Nat := 2147483647

def digits : Reader (List Char) := fun s => .ok (s.takeWhile Char.isDigit) (s.dropWhile Char.isDigit)

/-- The largest exponent whose power of ten is in the table of rounded powers. -/
def tableEnd : Nat := 308

/-- The ordinal of a power of ten in the table. -/
def powerOrdinal (exponent : Nat) : Nat := BinaryFormat.binary64.natOrdinal (tenPow exponent)

/-- The ordinal of a significand times a power of ten: the significand is rounded, and then its
product with or quotient by a rounded power is rounded again.  Powers past the table make the number
too large, or are divided by in two steps, or leave nothing; the significands that are read are below
`2 ^ 64`. -/
def scaledOrdinal (significand : Nat) (exponent : Int) : Nat :=
  let F := BinaryFormat.binary64
  let ordinal := F.natOrdinal significand
  let power := exponent.natAbs
  if 0 ≤ exponent then
    if power ≤ tableEnd then F.mulOrdinal ordinal (powerOrdinal power)
    else if significand = 0 then 0 else F.infinity
  else if power ≤ tableEnd then F.divOrdinal ordinal (powerOrdinal power)
  else if power ≤ 2 * tableEnd then
    F.divOrdinal (F.divOrdinal ordinal (powerOrdinal tableEnd)) (powerOrdinal (power - tableEnd))
  else 0

/-- The double that is a significand times a power of ten; it has to be finite. -/
def double (negative : Bool) (significand : Nat) (exponent : Int) : Reader Number :=
  match Binary.ofOrdinal negative (scaledOrdinal significand exponent) with
  | .finite x => pure (.double x)
  | _ => failAhead .numberRange 0

def exponentPart (negative : Bool) (significand : Nat) (exponent : Int) : Reader Number := do
  let sign ← peek
  if sign = some '+' ∨ sign = some '-' then advance
  let written ← digits
  match written, ← peek with
  | [], none => failAhead .endInValue 0
  | [], some _ => failAhead .number 1
  | _, _ =>
    match absorb exponentLimit 0 written with
    | (n, []) => double negative significand (if sign = some '-' then exponent - n else exponent + n)
    | (_, _ :: left) =>
      if significand ≠ 0 ∧ sign ≠ some '-' then failBehind .numberRange left.length
      else double negative 0 0

def exponentIfAny (negative : Bool) (significand : Nat) (exponent : Int) : Reader Number := do
  let c ← peek
  if c = some 'e' ∨ c = some 'E' then do
    advance
    exponentPart negative significand exponent
  else double negative significand exponent

def fractionPart (negative : Bool) (significand : Nat) (exponent : Int) : Reader Number := do
  let written ← digits
  match written, ← peek with
  | [], none => failAhead .endInValue 0
  | [], some _ => failAtNext .number
  | _, _ =>
    let (n, left) := absorb significandLimit significand written
    exponentIfAny negative n (exponent - (written.length - left.length))

/-- Whether an integer fits a signed or an unsigned word of 64 bits. -/
abbrev fitsInteger (n : Int) : Prop := -9223372036854775808 ≤ n ∧ n < 18446744073709551616

/-- Reads what comes after the integer digits of a number.  Digits that the significand has no room
for count as zeros; without a fraction and an exponent an integer that fits is kept as it is, except
that minus zero is a double. -/
def afterInteger (negative : Bool) (integer : List Char) : Reader Number := do
  let (n, left) := absorb significandLimit 0 integer
  let c ← peek
  if c = some '.' then do
    advance
    fractionPart negative n left.length
  else if c = some 'e' ∨ c = some 'E' then do
    advance
    exponentPart negative n left.length
  else
    let value : Int := if negative then -n else n
    if h : left = [] ∧ ¬(negative ∧ n = 0) ∧ fitsInteger value then pure (.integer value h.2.2)
    else double negative n left.length

def number (negative : Bool) : Reader Number := do
  match ← peek with
  | none => failAhead .endInValue 0
  | some '0' => do
    advance
    match ← peek with
    | some c => if c.isDigit then failAtNext .number else afterInteger negative ['0']
    | none => afterInteger negative ['0']
  | some c =>
    if c.isDigit then do
      let integer ← digits
      afterInteger negative integer
    else failAhead .number 1

/-! ### Where a value begins -/

/-- Reads a scalar; the opening of a list or an object stays. -/
def lead : Reader Lead := do
  match ← peekToken with
  | none => failAhead .endInValue 0
  | some 'n' => do
    advance
    literal ['u', 'l', 'l']
    pure (.scalar .null)
  | some 't' => do
    advance
    literal ['r', 'u', 'e']
    pure (.scalar (.bool true))
  | some 'f' => do
    advance
    literal ['a', 'l', 's', 'e']
    pure (.scalar (.bool false))
  | some '"' => do
    advance
    let s ← stringBody
    pure (.scalar (.string s))
  | some '-' => do
    advance
    let n ← number true
    pure (.scalar (.number n))
  | some '[' => pure .list
  | some '\x7b' => pure .object
  | some c =>
    if c.isDigit then do
      let n ← number false
      pure (.scalar (.number n))
    else failAtNext .value

/-! ### Lists and objects -/

/-- Whether a list has a further item; a comma before it is taken. -/
def hasItem (first : Bool) : Reader Bool := do
  match ← peekToken with
  | none => failAtNext .endInList
  | some ']' => pure false
  | some c =>
    if first then pure true
    else if c = ',' then do
      advance
      match ← peekToken with
      | none => failAtNext .endInValue
      | some ']' => failAtNext .trailingComma
      | some _ => pure true
    else failAtNext .listCommaOrEnd

/-- Whether an object has a further member; a comma and the quote before its key are taken. -/
def hasMember (first : Bool) : Reader Bool := do
  match ← peekToken with
  | none => failAtNext .endInObject
  | some '\x7d' => pure false
  | some c =>
    if first then
      if c = '"' then do
        advance
        pure true
      else failAtNext .keyNotText
    else if c = ',' then do
      advance
      match ← peekToken with
      | none => failAtNext .endInValue
      | some '"' => do
        advance
        pure true
      | some '\x7d' => failAtNext .trailingComma
      | some _ => failAtNext .keyNotText
    else failAtNext .objectCommaOrEnd

def endList : Reader Unit := do
  match ← peekToken with
  | none => failAtNext .endInList
  | some ']' => advance
  | some ',' => do
    advance
    match ← peekToken with
    | some ']' => failAtNext .trailingComma
    | _ => failAtNext .trailingCharacters
  | some _ => failAtNext .trailingCharacters

def endObject : Reader Unit := do
  match ← peekToken with
  | none => failAtNext .endInObject
  | some '\x7d' => advance
  | some ',' => failAtNext .trailingComma
  | some _ => failAtNext .trailingCharacters

/-- Takes the colon between a key and its value. -/
def colon : Reader Unit := do
  match ← peekToken with
  | none => failAtNext .endInObject
  | some ':' => advance
  | some _ => failAtNext .colon

/-- Reads what is between an opening, which is taken first, and its closing.  If the inside fails the
closing is taken all the same if it can be, and a fault without a place is placed after it. -/
def enclosed {α : Type} (close : Reader Unit) (inside : Reader α) : Reader α := do
  advance
  fun s =>
    match inside s with
    | .ok a rest =>
      match close rest with
      | .ok _ rest => .ok a rest
      | .error fault rest => .error fault rest
    | .error fault rest =>
      match close rest with
      | .ok _ rest => placed (throw fault) rest
      | .error _ rest => placed (throw fault) rest

/-- Reads the items of a list after some; the length of `room` bounds their number. -/
def itemsAfter {α : Type} (item : Reader α) : Room → Bool → List α → Reader (List α)
  | [], _, _ => failAtNext .endInList
  | _ :: room, first, before => do
    if ← hasItem first then do
      let x ← item
      itemsAfter item room false (x :: before)
    else pure before.reverse

def items {α : Type} (item : Reader α) : Reader (List α) :=
  withRoom fun room => itemsAfter item room true []

/-- Reads the members of an object into a state; `member` gets the key and reads from the colon on,
and the length of `room` bounds their number. -/
def membersAfter {σ : Type} (member : String → σ → Reader σ) : Room → Bool → σ → Reader σ
  | [], _, _ => failAtNext .endInObject
  | _ :: room, first, state => do
    if ← hasMember first then do
      let key ← stringBody
      let state ← member key state
      membersAfter member room false state
    else pure state

/-- Reads the members of an object into a state. -/
def members {σ : Type} (member : String → σ → Reader σ) (state : σ) : Reader σ :=
  withRoom fun room => membersAfter member room true state

end Reader

end PropertyGraph.Json
