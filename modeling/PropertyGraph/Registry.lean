import PropertyGraph.Timestamp

/-!
# Registries

The table of the forms in which things with more than one form are written, together with what a
reader does about lost digits and how long a text it takes.  The key facts: of two registrations for
the same domain the later one counts (`codec_register`), and the other domain is left alone
(`codec_register_of_ne`).
-/

namespace PropertyGraph

/-- How a type tag goes with an identifier: both in an array, or the tag as the key of an object. -/
inductive TagStyle where
  | array | object
deriving DecidableEq

/-- How identifiers inside property values are written. -/
inductive IdFormat where
  | plain
  | tagged (style : TagStyle)
deriving DecidableEq

/-- What a reader does about doubles that may have lost digits. -/
inductive PrecisionPolicy where
  | warn | reject
deriving DecidableEq

/-- The domains with more than one written form. -/
inductive CodecKind where
  | timestamp | identifier
deriving DecidableEq

/-- A written form for a domain. -/
inductive Codec where
  | timestamp (format : TimestampFormat)
  | identifier (format : IdFormat)
deriving DecidableEq

def Codec.kind : Codec → CodecKind
  | timestamp _ => .timestamp
  | identifier _ => .identifier

/-- The forms in use, the policy about lost digits and the longest text that is read, in bytes. -/
structure Registry where
  timestamps : TimestampFormat := .epochMillis
  identifiers : IdFormat := .plain
  precision : PrecisionPolicy := .warn
  maxTextLength : Nat := 64 * 1024 * 1024
deriving DecidableEq

namespace Registry

def default : Registry := {}

/-- The form in use for a domain. -/
def codec (r : Registry) : CodecKind → Codec
  | .timestamp => .timestamp r.timestamps
  | .identifier => .identifier r.identifiers

def register (r : Registry) : Codec → Registry
  | .timestamp format => { r with timestamps := format }
  | .identifier format => { r with identifiers := format }

/-- Of two registrations for the same domain the later one counts. -/
theorem codec_register (r : Registry) (c : Codec) : (r.register c).codec c.kind = c := by
  cases c <;> rfl

/-- A registration leaves the other domain alone. -/
theorem codec_register_of_ne {r : Registry} {c : Codec} {kind : CodecKind} (h : c.kind ≠ kind) :
    (r.register c).codec kind = r.codec kind := by
  cases c <;> cases kind <;> first | rfl | exact absurd rfl h

end Registry

end PropertyGraph
