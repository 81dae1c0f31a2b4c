import PropertyGraph.Text.Printable

/-!
# Texts shown in messages

A text between double quotes as messages show it: quotes, backslashes and line ends are escaped, and a
character without a form of its own is given by its number in hexadecimal digits.
-/

namespace PropertyGraph.Shown

def character (c : Char) : List Char :=
  if c = '"' then ['\\', '"']
  else if c = '\\' then ['\\', '\\']
  else if c = '\n' then ['\\', 'n']
  else if c = '\r' then ['\\', 'r']
  else if c = '\t' then ['\\', 't']
  else if c = '\x00' then ['\\', '0']
  else if isPrintable c then [c]
  else '\\' :: 'u' :: '\x7b' :: Nat.toDigits 16 c.toNat ++ ['\x7d']

def text (s : String) : String :=
  String.ofList ('"' :: (s.toList.flatMap character ++ ['"']))

end PropertyGraph.Shown
