import Warmup.Text.Decimal
import Warmup.Text.Hidden

/-!
# Names in messages

A name inside a message stands between double quotes, with the characters that
would not show written as escapes: the quote, the backslash, the tab, the line
breaks and the zero character by one letter, every other one by its number in
hexadecimal between braces.
-/

namespace Warmup.Text

/-- The lower-case hexadecimal digits of `n`. -/
def hexDigits (n : Nat) : List Char := Nat.toDigits 16 n

/-- A character as it stands in a quoted name. -/
def escapeName (c : Char) : List Char :=
  if c = '"' then ['\\', '"']
  else if c = '\\' then ['\\', '\\']
  else if c = '\t' then ['\\', 't']
  else if c = '\n' then ['\\', 'n']
  else if c = '\r' then ['\\', 'r']
  else if c = '\x00' then ['\\', '0']
  else if isHidden c then ['\\', 'u', '\x7b'] ++ hexDigits c.toNat ++ ['\x7d']
  else [c]

/-- The name `s` between quotes. -/
def quoted (s : String) : String := String.ofList ('"' :: s.toList.flatMap escapeName ++ ['"'])

end Warmup.Text
