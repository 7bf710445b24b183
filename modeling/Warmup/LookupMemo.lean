import Warmup.LookupKey

/-!
# The lookup memo

Lookups along the superclass chain are remembered, failures too, until a
method is added or replaced (`flush`).
-/

namespace Warmup

/-- Remembered lookups and their statistics. -/
structure LookupMemo where
  entries : List (LookupKey × Option MethodId) := []
  hits : Nat := 0
  misses : Nat := 0
  flushes : Nat := 0

namespace LookupMemo

/-- The method that a key leads to, and the memo after it was asked. -/
def lookup (memo : LookupMemo) (t : ClassTable) (k : LookupKey) : Option MethodId × LookupMemo :=
  match memo.entries.lookup k with
  | some m => (m, { memo with hits := memo.hits + 1 })
  | none =>
    let m := k.resolve t
    (m, { memo with entries := (k, m) :: memo.entries, misses := memo.misses + 1 })

/-- The memo with nothing remembered. -/
def flush (memo : LookupMemo) : LookupMemo :=
  { memo with entries := [], flushes := memo.flushes + 1 }

/-- The remembered keys and methods. -/
def roots (memo : LookupMemo) : List Root :=
  memo.entries.flatMap fun e => e.1.roots ++ match e.2 with
    | some m => [.method m]
    | none => []

end LookupMemo

end Warmup
