import PropertyGraph.Binary.Rounding

/-!
# JSON values

The values of JSON as they are read and held: a number is a 64-bit integer, signed or unsigned, or a
finite double, and an object is a list of members in order.  The key facts: setting a member keeps the
keys distinct (`keys_insert`), and the member that was set is found (`lookup_insert_self`).
-/

namespace PropertyGraph

/-- A number: an integer that fits a signed or an unsigned word of 64 bits, or a finite double. -/
inductive Json.Number where
  | integer (n : Int) (fits : -9223372036854775808 ≤ n ∧ n < 18446744073709551616)
  | double (x : Finite64)
deriving DecidableEq

/-- A JSON value.  The members of an object keep their order. -/
inductive Json where
  | null
  | bool (b : Bool)
  | number (n : Json.Number)
  | string (s : String)
  | array (items : List Json)
  | object (members : List (String × Json))
deriving Inhabited

namespace Json

/-- The types of values that messages tell apart. -/
inductive Kind where
  | null | bool | number | string | array | object
deriving DecidableEq

def Kind.name : Kind → String
  | null => "null"
  | bool => "bool"
  | number => "number"
  | string => "string"
  | array => "array"
  | object => "object"

def kind : Json → Kind
  | null => .null
  | bool _ => .bool
  | number _ => .number
  | string _ => .string
  | array _ => .array
  | object _ => .object

def ofInt64 (n : Int64) : Json :=
  .number (.integer n.toInt ⟨n.le_toInt, Int.lt_trans n.toInt_lt (by decide)⟩)

/-- A double as a value; those that are not finite have no number and become null. -/
def ofBinary : Binary64 → Json
  | .finite x => .number (.double x)
  | _ => .null

namespace Number

/-- The double nearest to a number. -/
def toBinary : Number → Binary64
  | integer n _ => .ofInt n
  | double x => .finite x

/-- The number as a signed integer of 64 bits, if it is held as an integer and fits. -/
def int64? : Number → Option Int64
  | integer n _ => if n < 9223372036854775808 then some (.ofInt n) else none
  | double _ => none

/-- Numbers are equal if they are held alike and are numerically equal: `1` and `1.0` differ. -/
def equal : Number → Number → Bool
  | integer m _, integer n _ => m == n
  | double x, double y => x.equal y
  | _, _ => false

end Number

/-- Sets a member: a key that exists keeps its place, a new one goes to the end. -/
def insert (key : String) (value : Json) : List (String × Json) → List (String × Json)
  | [] => [(key, value)]
  | (k, v) :: rest => if k = key then (k, value) :: rest else (k, v) :: insert key value rest

mutual

/-- Equality of values; objects are equal if they have the same members in any order. -/
def equal : Json → Json → Bool
  | .null, .null => true
  | .bool a, .bool b => a == b
  | .number m, .number n => m.equal n
  | .string s, .string t => s == t
  | .array xs, .array ys => equalItems xs ys
  | .object ms, .object ns => ms.length == ns.length && equalMembers ms ns
  | _, _ => false

def equalItems : List Json → List Json → Bool
  | [], [] => true
  | x :: xs, y :: ys => x.equal y && equalItems xs ys
  | _, _ => false

/-- Whether each member is in the other list with an equal value. -/
def equalMembers : List (String × Json) → List (String × Json) → Bool
  | [], _ => true
  | (k, v) :: rest, ns =>
    (match ns.lookup k with
    | some w => v.equal w
    | none => false) && equalMembers rest ns

end

/-- The keys after a member is set. -/
theorem keys_insert (key : String) (value : Json) (ms : List (String × Json)) :
    (insert key value ms).map Prod.fst =
      if key ∈ ms.map Prod.fst then ms.map Prod.fst else ms.map Prod.fst ++ [key] := by
  induction ms with
  | nil => simp [insert]
  | cons m ms ih =>
    obtain ⟨k, v⟩ := m
    by_cases hk : k = key
    · simp [insert, hk]
    · simp only [insert, if_neg hk, List.map_cons, ih, List.mem_cons, Ne.symm hk, false_or]
      split <;> simp

/-- Setting a member keeps the keys distinct. -/
theorem nodup_insert {key : String} {value : Json} {ms : List (String × Json)} (h : (ms.map Prod.fst).Nodup) :
    ((insert key value ms).map Prod.fst).Nodup := by
  rw [keys_insert]
  split
  · exact h
  · rename_i hk
    refine List.nodup_append.2 ⟨h, by simp, ?_⟩
    intro a ha b hb hab
    rw [List.mem_singleton] at hb
    exact hk (hb ▸ hab ▸ ha)

/-- The member that was set is found. -/
theorem lookup_insert_self (key : String) (value : Json) (ms : List (String × Json)) :
    (insert key value ms).lookup key = some value := by
  induction ms with
  | nil => simp [insert]
  | cons m ms ih =>
    obtain ⟨k, v⟩ := m
    by_cases hk : k = key
    · simp [insert, hk]
    · simp [insert, hk, ih, List.lookup_cons, beq_eq_false_iff_ne.2 (Ne.symm hk)]

end Json

end PropertyGraph
