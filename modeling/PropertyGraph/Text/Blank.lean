/-!
# Blank text

The characters with the Unicode property `White_Space`, and texts that hold nothing else.  The key
fact: the blanks that JSON allows between its tokens are among them (`isBlank_of_isJsonBlank`).
-/

namespace PropertyGraph

/-- The ranges of the code points that are white space. -/
def blankRanges : List (Nat × Nat) :=
  [(0x9, 0xd), (0x20, 0x20), (0x85, 0x85), (0xa0, 0xa0), (0x1680, 0x1680), (0x2000, 0x200a), (0x2028, 0x2029),
   (0x202f, 0x202f), (0x205f, 0x205f), (0x3000, 0x3000)]

def isBlank (c : Char) : Bool :=
  blankRanges.any fun range => range.1 ≤ c.toNat && c.toNat ≤ range.2

def isBlankText (s : List Char) : Bool := s.all isBlank

/-- The blanks that JSON allows between its tokens. -/
def isJsonBlank (c : Char) : Bool := c == ' ' || c == '\t' || c == '\n' || c == '\r'

theorem isBlank_of_isJsonBlank {c : Char} (h : isJsonBlank c) : isBlank c := by
  simp only [isJsonBlank, Bool.or_eq_true, beq_iff_eq] at h
  rcases h with ((rfl | rfl) | rfl) | rfl <;> rfl

end PropertyGraph
