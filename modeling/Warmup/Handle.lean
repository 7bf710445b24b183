/-!
# Handles

Every table of the machine is append-only, and an object is named by its
position in its table. A handle is such a position, with a type of its own per
table, so that a class is never taken for a method. A handle need not name
anything: what looks it up says so.

The objects a table keeps alive are its *roots* (`Root`).
-/

namespace Warmup

/-- A class, by its position in the class table. -/
structure ClassId where
  index : Nat
  deriving DecidableEq

/-- A method or block, by its position in the class table. -/
structure MethodId where
  index : Nat
  deriving DecidableEq

/-- A message selector, by the order in which its name was first seen. -/
structure Selector where
  index : Nat
  deriving DecidableEq

/-- A native method, by its position in the code table. -/
structure NativeId where
  index : Nat
  deriving DecidableEq

/-- A process, by its position in the process table. -/
structure ProcessId where
  index : Nat
  deriving DecidableEq

/-- A lexical context, by its position in the process table. -/
structure ContextId where
  index : Nat
  deriving DecidableEq

/-- A scope of a feedback tree, by the order in which scopes were added. -/
structure ScopeId where
  index : Nat
  deriving DecidableEq

/-- A position in a method body. -/
abbrev Bci := Nat

/-- Positions in ascending order, each once. -/
def sortBcis (bcis : List Bci) : List Bci := (bcis.mergeSort fun a b => a ≤ b).eraseDups

/-- A scope of a native method, by its offset in the method's descriptors. -/
abbrev Offset := Nat

/-- An object that a table keeps alive. -/
inductive Root
  | cls (c : ClassId)
  | method (m : MethodId)
  | native (n : NativeId)
  deriving DecidableEq

end Warmup
