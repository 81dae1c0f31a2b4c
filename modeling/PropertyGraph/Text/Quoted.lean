/-!
# Quoted texts of JSON

A text between quotes: the quote, the backslash and the control characters are written as escapes,
everything else as it is.  The key fact: an escape is never empty (`escape_ne_nil`).
-/

namespace PropertyGraph.Quoted

def hexDigit (n : Nat) : Char := n.digitChar

/-- How a character is written inside quotes. -/
def escape (c : Char) : List Char :=
  if c = '"' then ['\\', '"']
  else if c = '\\' then ['\\', '\\']
  else if 0x20 ≤ c.toNat then [c]
  else if c = '\n' then ['\\', 'n']
  else if c = '\r' then ['\\', 'r']
  else if c = '\t' then ['\\', 't']
  else if c = '\x08' then ['\\', 'b']
  else if c = '\x0c' then ['\\', 'f']
  else ['\\', 'u', '0', '0', hexDigit (c.toNat / 16), hexDigit (c.toNat % 16)]

def quote (s : List Char) : List Char := '"' :: (s.flatMap escape ++ ['"'])

theorem escape_ne_nil (c : Char) : escape c ≠ [] := by
  unfold escape
  repeat' split
  all_goals simp

end PropertyGraph.Quoted
