import PropertyGraph.Json.Basic
import PropertyGraph.Binary.Layout
import PropertyGraph.Text.Quoted
import PropertyGraph.Text.Shown

/-!
# JSON values as text

The compact text of a value, without blanks, and the form in which messages show a value.  The key
facts: an array is its items between brackets with commas between them (`compact_array`), and an
object its members between braces (`compact_object`).
-/

namespace PropertyGraph.Json

def Number.chars : Number → List Char
  | .integer n _ => Decimal.signed n
  | .double x => Layout.json64.finite x

def Number.text (n : Number) : String := String.ofList n.chars

def boolChars : Bool → List Char
  | true => ['t', 'r', 'u', 'e']
  | false => ['f', 'a', 'l', 's', 'e']

def nullChars : List Char := ['n', 'u', 'l', 'l']

/-- A text as a JSON string. -/
def stringChars (s : String) : List Char := Quoted.quote s.toList

mutual

def compact : Json → List Char
  | .null => nullChars
  | .bool b => boolChars b
  | .number n => n.chars
  | .string s => stringChars s
  | .array [] => ['[', ']']
  | .array (x :: xs) => '[' :: (x.compact ++ compactItems xs)
  | .object [] => ['\x7b', '\x7d']
  | .object ((k, v) :: ms) => '\x7b' :: (stringChars k ++ ':' :: (v.compact ++ compactMembers ms))

/-- The items after the first one, and the closing bracket. -/
def compactItems : List Json → List Char
  | [] => [']']
  | x :: xs => ',' :: (x.compact ++ compactItems xs)

/-- The members after the first one, and the closing brace. -/
def compactMembers : List (String × Json) → List Char
  | [] => ['\x7d']
  | (k, v) :: ms => ',' :: (stringChars k ++ ':' :: (v.compact ++ compactMembers ms))

end

def text (j : Json) : String := String.ofList j.compact

/-- Texts with commas between them. -/
def commaJoin (texts : List (List Char)) : List Char := texts.intersperse [','] |>.flatten

private theorem compactItems_eq (x : Json) (xs : List Json) :
    x.compact ++ compactItems xs = commaJoin ((x :: xs).map compact) ++ [']'] := by
  induction xs generalizing x with
  | nil => simp [compactItems, commaJoin]
  | cons y ys ih =>
    rw [compactItems, ih y]
    simp [commaJoin]

/-- An array is its items between brackets with commas between them. -/
theorem compact_array (xs : List Json) :
    (array xs).compact = '[' :: (commaJoin (xs.map compact) ++ [']']) := by
  cases xs with
  | nil => simp [compact, commaJoin]
  | cons x xs => rw [compact, compactItems_eq]

/-- A member: the key, a colon and the value. -/
def member (m : String × Json) : List Char := stringChars m.1 ++ ':' :: m.2.compact

private theorem compactMembers_eq (k : String) (v : Json) (ms : List (String × Json)) :
    stringChars k ++ ':' :: (v.compact ++ compactMembers ms) =
      commaJoin (((k, v) :: ms).map member) ++ ['\x7d'] := by
  induction ms generalizing k v with
  | nil => simp [compactMembers, commaJoin, member]
  | cons m ms ih =>
    obtain ⟨k', v'⟩ := m
    rw [compactMembers, ih k' v']
    simp [commaJoin, member]

/-- An object is its members between braces with commas between them. -/
theorem compact_object (ms : List (String × Json)) :
    (object ms).compact = '\x7b' :: (commaJoin (ms.map member) ++ ['\x7d']) := by
  match ms with
  | [] => simp [compact, commaJoin]
  | (k, v) :: ms => rw [compact, compactMembers_eq]

/-- Shown texts with a comma and a blank between them. -/
def listed (texts : List String) : String := String.intercalate ", " texts

mutual

def shown : Json → String
  | .null => "Null"
  | .bool b => "Bool(" ++ (if b then "true" else "false") ++ ")"
  | .number n => "Number(" ++ n.text ++ ")"
  | .string s => "String(" ++ Shown.text s ++ ")"
  | .array xs => "Array [" ++ listed (shownItems xs) ++ "]"
  | .object ms => "Object \x7b" ++ listed (shownMembers ms) ++ "\x7d"

def shownItems : List Json → List String
  | [] => []
  | x :: xs => x.shown :: shownItems xs

def shownMembers : List (String × Json) → List String
  | [] => []
  | (k, v) :: ms => (Shown.text k ++ ": " ++ v.shown) :: shownMembers ms

end

end PropertyGraph.Json
