/-!
# Decimal numerals

The decimal digits of a natural number, most significant first and without
leading zeros (`digits`), and the number that a list of digits stands for
(`value`).
-/

namespace Warmup.Text.Decimal

/-- The digit `d`, for `d < 10`. -/
def digit (d : Nat) : Char := Char.ofNat (48 + d)

/-- The decimal digits of `n`. -/
def digits (n : Nat) : List Char :=
  if n < 10 then [digit n] else digits (n / 10) ++ [digit (n % 10)]

/-- The number written by the digits `ds`. -/
def value (ds : List Char) : Nat := ds.foldl (fun n d => 10 * n + (d.toNat - 48)) 0

end Warmup.Text.Decimal
