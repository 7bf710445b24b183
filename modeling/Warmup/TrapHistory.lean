import Warmup.LookupKey

/-!
# Trap history

What earlier traps have taught: sends at which no trap may stand again, and, per
key, how often traps have led to a recompilation, as an exponent that the
invocation limit grows by.
-/

namespace Warmup

/-- What earlier traps have taught. -/
structure TrapHistory where
  /-- Sends that must be compiled as sends, each once. -/
  disabled : List (MethodId × Bci) := []
  /-- Exponents of the invocation limit. -/
  backoffs : List (LookupKey × Nat) := []
  deriving DecidableEq

namespace TrapHistory

/-- Whether a send must be compiled as a send. -/
def isDisabled (h : TrapHistory) (m : MethodId) (bci : Bci) : Bool := h.disabled.contains (m, bci)

/-- The history in which a send must be compiled as a send. -/
def disable (h : TrapHistory) (m : MethodId) (bci : Bci) : TrapHistory :=
  if h.isDisabled m bci then h else { h with disabled := (m, bci) :: h.disabled }

/-- The exponent of a key. -/
def backoff (h : TrapHistory) (k : LookupKey) : Nat := (h.backoffs.lookup k).getD 0

/-- The history with the next exponent of a key, which is at most `max`. -/
def bump (h : TrapHistory) (k : LookupKey) (max : Nat) : TrapHistory :=
  { h with backoffs := (k, min (h.backoff k + 1) max) :: h.backoffs.filter (·.1 ≠ k) }

/-- The history without the sends of a method. -/
def forget (h : TrapHistory) (m : MethodId) : TrapHistory :=
  { h with disabled := h.disabled.filter (·.1 ≠ m) }

end TrapHistory

end Warmup
