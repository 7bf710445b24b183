import Warmup.Json.Value
import Warmup.Text.Decimal

/-!
# Writing JSON

The pretty form: an item or field per line, two blanks per level, `": "`
between a field and its value, and nothing between the brackets of an empty
list. In a string, only the quote, the backslash and the control characters
below U+0020 are escaped.

A foreign value is written `-0`, and a field name without a text as the half of
a pair: the shortest texts that read back as such.
-/

namespace Warmup.Json

/-- The lower-case hexadecimal digit of `d`, for `d < 16`. -/
def hexChar (d : Nat) : Char := if d < 10 then Char.ofNat (48 + d) else Char.ofNat (87 + d)

/-- A character as it stands in a string literal. -/
def escape (c : Char) : List Char :=
  if c = '"' then ['\\', '"']
  else if c = '\\' then ['\\', '\\']
  else if c = '\x08' then ['\\', 'b']
  else if c = '\x0c' then ['\\', 'f']
  else if c = '\n' then ['\\', 'n']
  else if c = '\r' then ['\\', 'r']
  else if c = '\t' then ['\\', 't']
  else if c.toNat < 32 then ['\\', 'u', '0', '0', hexChar (c.toNat / 16), hexChar (c.toNat % 16)]
  else [c]

/-- The string literal of `s`. -/
def quote (s : String) : List Char := '"' :: s.toList.flatMap escape ++ ['"']

/-- The literal of a field name. -/
def quoteName : Option String → List Char
  | some s => quote s
  | none => ['"', '\\', 'u', 'd', '8', '0', '0', '"']

/-- A new line at nesting `level`. -/
def newline (level : Nat) : List Char := '\n' :: List.replicate (2 * level) ' '

mutual

/-- The pretty form of a value that stands at nesting `level`. -/
def pretty (level : Nat) (v : Value) : List Char :=
  match v with
  | .null => ['n', 'u', 'l', 'l']
  | .bool true => ['t', 'r', 'u', 'e']
  | .bool false => ['f', 'a', 'l', 's', 'e']
  | .natural n => Text.Decimal.digits n
  | .string s => quote s
  | .array [] => ['[', ']']
  | .array (v :: vs) =>
    '[' :: newline (level + 1) ++ pretty (level + 1) v ++ prettyItems (level + 1) vs ++
      newline level ++ [']']
  | .object [] => ['\x7b', '\x7d']
  | .object ((k, v) :: fs) =>
    '\x7b' :: newline (level + 1) ++ quoteName k ++ [':', ' '] ++ pretty (level + 1) v ++
      prettyFields (level + 1) fs ++ newline level ++ ['\x7d']
  | .foreign => ['-', '0']
termination_by structural v

/-- The further items of a list, each on a line of its own. -/
def prettyItems (level : Nat) (vs : List Value) : List Char :=
  match vs with
  | [] => []
  | v :: vs => ',' :: newline level ++ pretty level v ++ prettyItems level vs
termination_by structural vs

/-- The further fields of a record, each on a line of its own. -/
def prettyFields (level : Nat) (fs : List (Option String × Value)) : List Char :=
  match fs with
  | [] => []
  | (k, v) :: fs =>
    ',' :: newline level ++ quoteName k ++ [':', ' '] ++ pretty level v ++ prettyFields level fs
termination_by structural fs

end

/-- The text of a value. -/
def write (v : Value) : String := String.ofList (pretty 0 v)

end Warmup.Json
