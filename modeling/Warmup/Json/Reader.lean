import Warmup.Json.Value
import Warmup.Text.Decimal

/-!
# Reading JSON

Strict JSON by recursive descent: no comments, no trailing commas, no byte
order mark, no control characters inside strings, nothing but blanks after the
value. Nesting is not bounded here: how deep a record may nest is a matter of
its format.

* `string`: the units of a string literal, up to its closing quote;
* `number`: a number literal;
* `value`, `items`, `fields`: the grammar, with a bound on the steps taken;
* `read`: a whole text.

A step consumes a character or hands over to a step that does, so twice the
length of the text bounds the steps.
-/

namespace Warmup.Json

/-- Blanks may stand between any two tokens. -/
def isBlank (c : Char) : Bool := c = ' ' || c = '\t' || c = '\n' || c = '\r'

/-- The text after its leading blanks. -/
def skipBlanks (cs : List Char) : List Char := cs.dropWhile isBlank

/-! ## Strings -/

/-- A unit of a string literal: a character, or half of a pair that an escape
    wrote. -/
inductive TextUnit
  | scalar (c : Char)
  | surrogate (n : Nat)
  deriving DecidableEq

/-- The value of a hexadecimal digit. -/
def hexDigit (c : Char) : Option Nat :=
  if c.isDigit then some (c.toNat - 48)
  else if 'a' ≤ c ∧ c ≤ 'f' then some (c.toNat - 87)
  else if 'A' ≤ c ∧ c ≤ 'F' then some (c.toNat - 55)
  else none

/-- The unit written by four hexadecimal digits. -/
def hexUnit (a b c d : Char) : Option TextUnit := do
  let n := 4096 * (← hexDigit a) + 256 * (← hexDigit b) + 16 * (← hexDigit c) + (← hexDigit d)
  return if 0xD800 ≤ n ∧ n < 0xE000 then .surrogate n else .scalar (Char.ofNat n)

/-- The character that a one-letter escape stands for. -/
def shortEscape (c : Char) : Option Char :=
  if c = '"' ∨ c = '\\' ∨ c = '/' then some c
  else if c = 'b' then some '\x08'
  else if c = 'f' then some '\x0c'
  else if c = 'n' then some '\n'
  else if c = 'r' then some '\r'
  else if c = 't' then some '\t'
  else none

/-- The units of a string literal after its opening quote, and the text after
    its closing one. -/
def units : List Char → Option (List TextUnit × List Char)
  | [] => none
  | '"' :: rest => some ([], rest)
  | '\\' :: 'u' :: a :: b :: c :: d :: rest => do
    let u ← hexUnit a b c d
    let (us, rest) ← units rest
    return (u :: us, rest)
  | '\\' :: e :: rest => do
    let c ← shortEscape e
    let (us, rest) ← units rest
    return (.scalar c :: us, rest)
  | c :: rest =>
    if c.toNat < 32 ∨ c = '\\' then none
    else do
      let (us, rest) ← units rest
      return (.scalar c :: us, rest)

/-- The characters of a string literal: the halves of a surrogate pair join,
    and an unpaired half is none. -/
def join : List TextUnit → Option (List Char)
  | [] => some []
  | .scalar c :: us => do return c :: (← join us)
  | .surrogate hi :: .surrogate lo :: us =>
    if hi < 0xDC00 ∧ 0xDC00 ≤ lo then do
      return Char.ofNat (0x10000 + 0x400 * (hi - 0xD800) + (lo - 0xDC00)) :: (← join us)
    else none
  | .surrogate _ :: _ => none

/-- A string literal after its opening quote: its text, if it has one. -/
def string (cs : List Char) : Option (Option String × List Char) := do
  let (us, rest) ← units cs
  return ((join us).map String.ofList, rest)

/-! ## Numbers -/

/-- The text after the fraction of a number, if there is one. -/
def skipFraction : List Char → Option (List Char)
  | '.' :: rest =>
    if (rest.takeWhile Char.isDigit).isEmpty then none else some (rest.dropWhile Char.isDigit)
  | rest => some rest

/-- The text after an optional sign. -/
def skipSign : List Char → List Char
  | '+' :: rest => rest
  | '-' :: rest => rest
  | rest => rest

/-- The text after the exponent of a number, if there is one. -/
def skipExponent : List Char → Option (List Char)
  | c :: rest =>
    if c = 'e' ∨ c = 'E' then
      let digits := skipSign rest
      if (digits.takeWhile Char.isDigit).isEmpty then none else some (digits.dropWhile Char.isDigit)
    else some (c :: rest)
  | [] => some []

/-- Whether a number has neither fraction nor exponent, by the text after its
    integer part. -/
def endsWhole : List Char → Bool
  | c :: _ => c ≠ '.' && c ≠ 'e' && c ≠ 'E'
  | [] => true

/-- An unsigned number: the digits of its integer part, whether it is nothing
    but these, and the text after it. -/
def unsigned (cs : List Char) : Option (List Char × Bool × List Char) := do
  let digits := cs.takeWhile Char.isDigit
  let rest := cs.dropWhile Char.isDigit
  guard (!digits.isEmpty && (digits.length = 1 || digits.head? ≠ some '0'))
  let tail ← skipExponent (← skipFraction rest)
  return (digits, endsWhole rest, tail)

/-- A number literal. -/
def number : List Char → Option (Value × List Char)
  | '-' :: rest => do
    let (_, _, tail) ← unsigned rest
    return (.foreign, tail)
  | cs => do
    let (digits, whole, tail) ← unsigned cs
    return (if whole then .natural (Text.Decimal.value digits) else .foreign, tail)

/-! ## The grammar -/

mutual

/-- A value, in at most `steps` steps. -/
def value (steps : Nat) (cs : List Char) : Option (Value × List Char) :=
  match steps with
  | 0 => none
  | steps + 1 =>
    match skipBlanks cs with
    | 'n' :: 'u' :: 'l' :: 'l' :: rest => some (.null, rest)
    | 't' :: 'r' :: 'u' :: 'e' :: rest => some (.bool true, rest)
    | 'f' :: 'a' :: 'l' :: 's' :: 'e' :: rest => some (.bool false, rest)
    | '"' :: rest => do
      let (s, rest) ← string rest
      return (match s with | some s => .string s | none => .foreign, rest)
    | '[' :: rest =>
      match skipBlanks rest with
      | ']' :: rest => some (.array [], rest)
      | rest => do
        let (vs, rest) ← items steps rest
        return (.array vs, rest)
    | '\x7b' :: rest =>
      match skipBlanks rest with
      | '\x7d' :: rest => some (.object [], rest)
      | rest => do
        let (fs, rest) ← fields steps rest
        return (.object fs, rest)
    | cs => number cs
termination_by structural steps

/-- The items of a list up to its closing bracket. -/
def items (steps : Nat) (cs : List Char) : Option (List Value × List Char) :=
  match steps with
  | 0 => none
  | steps + 1 => do
    let (v, rest) ← value steps cs
    match skipBlanks rest with
    | ',' :: rest => do
      let (vs, rest) ← items steps rest
      return (v :: vs, rest)
    | ']' :: rest => return ([v], rest)
    | _ => none
termination_by structural steps

/-- The fields of a record up to its closing brace. -/
def fields (steps : Nat) (cs : List Char) : Option (List (Option String × Value) × List Char) :=
  match steps with
  | 0 => none
  | steps + 1 =>
    match skipBlanks cs with
    | '"' :: rest => do
      let (k, rest) ← string rest
      match skipBlanks rest with
      | ':' :: rest => do
        let (v, rest) ← value steps rest
        match skipBlanks rest with
        | ',' :: rest => do
          let (fs, rest) ← fields steps rest
          return ((k, v) :: fs, rest)
        | '\x7d' :: rest => return ([(k, v)], rest)
        | _ => none
      | _ => none
    | _ => none
termination_by structural steps

end

/-- The value that the whole text `cs` writes. -/
def readChars (cs : List Char) : Option Value := do
  let (v, rest) ← value (2 * cs.length + 2) cs
  guard (skipBlanks rest).isEmpty
  return v

/-- The value that the whole text `s` writes. -/
def read (s : String) : Option Value := readChars s.toList

end Warmup.Json
