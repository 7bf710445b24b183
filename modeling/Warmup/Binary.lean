/-!
# Binary fields

A binary record is the bytes of its fields one after the other. A number takes
a fixed count of bytes, lowest first; a text is the count of its bytes and these
bytes; a list is the count of its items and these items. Reading a field gives
its value and the bytes after it, or nothing if the bytes do not write one.
-/

namespace Warmup.Binary

/-- Bytes. -/
abbrev Bytes := List UInt8

/-- A field that can be read. -/
abbrev Reader (α : Type) := Bytes → Option (α × Bytes)

/-! ## Numbers -/

/-- The lowest `width` bytes of `n`. -/
def word : Nat → Nat → Bytes
  | 0, _ => []
  | width + 1, n => UInt8.ofNat n :: word width (n / 256)

/-- A number of `width` bytes. -/
def readWord : Nat → Reader Nat
  | 0, bs => some (0, bs)
  | _ + 1, [] => none
  | width + 1, b :: bs => do
    let (n, bs) ← readWord width bs
    return (b.toNat + 256 * n, bs)

/-! ## Texts -/

/-- The bytes of a text. -/
def utf8 (s : String) : Bytes := s.toUTF8.data.toList

/-- The text that some bytes write. -/
def ofUtf8? (bs : Bytes) : Option String := String.fromUTF8? ⟨bs.toArray⟩

/-- The count of the bytes of a text, and these bytes. -/
def text (s : String) : Bytes := word 8 (utf8 s).length ++ utf8 s

/-- A text. -/
def readText : Reader String := fun bs => do
  let (n, bs) ← readWord 8 bs
  guard (n ≤ bs.length)
  return (← ofUtf8? (bs.take n), bs.drop n)

/-! ## Lists and choices -/

/-- The count of some items, and these items. -/
def list {α : Type} (item : α → Bytes) (xs : List α) : Bytes := word 8 xs.length ++ xs.flatMap item

/-- A given number of items. -/
def readItems {α : Type} (item : Reader α) : Nat → Reader (List α)
  | 0, bs => some ([], bs)
  | n + 1, bs => do
    let (x, bs) ← item bs
    let (xs, bs) ← readItems item n bs
    return (x :: xs, bs)

/-- A list. -/
def readList {α : Type} (item : Reader α) : Reader (List α) := fun bs => do
  let (n, bs) ← readWord 8 bs
  readItems item n bs

/-- A value that may be missing: a byte that says so, and the value. -/
def option {α : Type} (item : α → Bytes) : Option α → Bytes
  | none => [0]
  | some x => 1 :: item x

/-- A value that may be missing. -/
def readOption {α : Type} (item : Reader α) : Reader (Option α)
  | 0 :: bs => some (none, bs)
  | 1 :: bs => (item bs).map fun r => (some r.1, r.2)
  | _ => none

end Warmup.Binary
