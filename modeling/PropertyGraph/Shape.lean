import PropertyGraph.Decode

/-!
# Reading values of a known shape

A shape says which property values a text is expected to hold.  Numbers are read as doubles and then
narrowed, so that a registry's policy on lost digits applies to them.  The key facts: a null value has
every shape (`apply_null`), the shape `any` takes every value (`apply_any`), and a text is read as what
the shape makes of the value in it (`fromTextShape_of_ok`).
-/

namespace PropertyGraph

/-- What is known of the values in a text. -/
inductive Shape where
  | any
  | number (kind : NumberKind)
  | timestamp
  | text
  | bool
  | id
  | list (inner : Shape)
deriving DecidableEq

/-- A warning of narrowing: a double may have lost digits before it was brought to a kind. -/
structure Warning where
  kind : NumberKind
  value : Binary64
deriving DecidableEq

/-- A result with the warnings that were given before it, also if it is an error. -/
abbrev Logged (α : Type) := ExceptT FormatError (StateM (List Warning)) α

theorem Logged.run_bind {α β : Type} (x : Logged α) (f : α → Logged β) (log : List Warning) :
    (x >>= f).run log = match x.run log with
      | (.ok a, after) => (f a).run after
      | (.error e, after) => (.error e, after) := by
  show (match x.run log with | (result, after) => ExceptT.bindCont f result after) = _
  rcases x.run log with ⟨_ | _, _⟩ <;> rfl

namespace Shape

def name : Shape → String
  | any => "any"
  | number kind => kind.name
  | timestamp => "timestamp"
  | text => "text"
  | bool => "bool"
  | id => "id"
  | list inner => "list<" ++ inner.name ++ ">"

/-- The integer that a number is as an identifier: a whole number of 64 bits, also if it is held as a
double.  An integer without a sign that has no room is brought to a double too. -/
def numericId (n : Json.Number) : Except FormatError Int64 :=
  match n.int64?, n.toBinary with
  | some i, _ => .ok i
  | none, .finite x =>
    if !x.isIntegral then .error (.notIntegral (.finite x))
    else if Timestamp.fits x.truncated then .ok (.ofInt x.truncated)
    else .error (.outOfRange n.text .numericId)
  | none, x => .error (.notIntegral x)

/-- Narrows a number under a policy on lost digits. -/
def narrow (policy : PrecisionPolicy) (v : PropertyValue) (kind : NumberKind) : Logged PropertyValue :=
  match policy, v.doubtful? kind with
  | _, none => pure (v.narrow kind)
  | .warn, some x => do
    modify (· ++ [⟨kind, x⟩])
    pure (v.narrow kind)
  | .reject, some x => throw (.precisionLoss x kind)

/-- The result of a computation that gives no warnings. -/
def quiet {α : Type} (result : Except FormatError α) : Logged α := ExceptT.mk (pure result)

/-- The value of a shape that a JSON value is; the null value is no value. -/
def apply (r : Registry) : Shape → Json → Logged (Option PropertyValue)
  | _, .null => pure none
  | any, j => pure (PropertyValue.ofJson? j)
  | number kind, .number n => some <$> narrow r.precision (.float64 n.toBinary) kind
  | number _, j => throw (.notANumber j.kind)
  | timestamp, j => (some ∘ .timestamp) <$> quiet (Timestamp.ofJson r.timestamps j)
  | text, .string s => pure (some (.text s))
  | text, j => throw (.typeMismatch .string j.kind)
  | bool, .bool b => pure (some (.bool b))
  | bool, j => throw (.typeMismatch .bool j.kind)
  | id, .string s => pure (some (.id (.textual s)))
  | id, .number n => (some ∘ .id ∘ .numeric) <$> quiet (numericId n)
  | id, j => throw (.typeMismatch .identifier j.kind)
  | list inner, .array items => do
    let values ← items.mapM (apply r inner)
    pure (some (.list (values.map (·.getD (.nested .null)))))
  | list _, j => throw (.typeMismatch .array j.kind)

/-- The shape `any` takes every value. -/
theorem apply_any (r : Registry) (j : Json) : apply r any j = pure (PropertyValue.ofJson? j) := by
  cases j <;> rfl

/-- The null value has every shape. -/
theorem apply_null (r : Registry) (s : Shape) : apply r s .null = pure none := by
  cases s <;> rfl

end Shape

/-- A property narrowed to a kind of numbers, with the warning that is given if digits may have been lost. -/
def ElementDoc.propertyAs (doc : ElementDoc) (key : String) (kind : NumberKind) : Logged (Option PropertyValue) :=
  (doc.property? key).mapM (Shape.narrow .warn · kind)

/-- Reads a text as a value of a shape, with the warnings that were given. -/
def Registry.fromTextShape (r : Registry) (shape : Shape) (text : String) :
    Except DecodeError (Option PropertyValue) × List Warning :=
  match r.fromText ⟨shape.name, Json.Reader.value Json.maxDepth⟩ text with
  | .error e => (.error e, [])
  | .ok j =>
    match (shape.apply r j).run [] with
    | (.ok v, warnings) => (.ok v, warnings)
    | (.error e, warnings) => (.error (.format e), warnings)

namespace Registry

variable {r : Registry} {shape : Shape} {text : String}

theorem fromTextShape_of_error {e : DecodeError}
    (h : r.fromText ⟨shape.name, Json.Reader.value Json.maxDepth⟩ text = .error e) :
    r.fromTextShape shape text = (.error e, []) := by
  rw [fromTextShape, h]

/-- What a text is read as with a shape is what the shape makes of the value in it. -/
theorem fromTextShape_of_ok {j : Json}
    (h : r.fromText ⟨shape.name, Json.Reader.value Json.maxDepth⟩ text = .ok j) :
    r.fromTextShape shape text =
      (((shape.apply r j).run []).1.mapError .format, ((shape.apply r j).run []).2) := by
  rw [fromTextShape, h]
  dsimp only
  rcases (shape.apply r j).run [] with ⟨_ | _, _⟩ <;> rfl

end Registry

end PropertyGraph
