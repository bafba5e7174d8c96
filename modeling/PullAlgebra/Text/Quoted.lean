import PullAlgebra.Text.Unprintable

/-!
# PullAlgebra.Text.Quoted

A text between double quotes, as messages show it. A backslash stands before a quote and a
backslash and spells the usual controls; other characters that would not show are spelt by their
code point in hexadecimal digits, as in `\u{301}`.
-/

namespace PullAlgebra
namespace Text

/-- How one character is spelt inside the quotes. -/
def escape (c : Char) : List Char :=
  if c = '"' then ['\\', '"']
  else if c = '\\' then ['\\', '\\']
  else if c = '\n' then ['\\', 'n']
  else if c = '\r' then ['\\', 'r']
  else if c = '\t' then ['\\', 't']
  else if c.toNat = 0 then ['\\', '0']
  else if isUnprintable c then '\\' :: 'u' :: '\x7b' :: (Nat.toDigits 16 c.toNat ++ ['\x7d'])
  else [c]

/-- The text between double quotes. -/
def quote (s : String) : String :=
  String.ofList ('"' :: (s.toList.flatMap escape ++ ['"']))

end Text
end PullAlgebra
