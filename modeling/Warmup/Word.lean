import Warmup.Fault

/-!
# Machine words

Counts, costs and levels are natural numbers that must fit a machine word.
`Word.fit` checks a result, and a result that does not fit is an overflow.
-/

namespace Warmup.Word

/-- The number of words of `bits` bits. -/
def size (bits : Nat) : Nat := Nat.pow 2 bits

/-- The number `n`, if it fits in `bits` bits. -/
def fit (bits n : Nat) : Except Fault Nat := if n < size bits then .ok n else .error .overflow

/-- The number `n`, or the largest one of `bits` bits. -/
def saturate (bits n : Nat) : Nat := min n (size bits - 1)

end Warmup.Word
