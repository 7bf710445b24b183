import Warmup.InlineCache

/-!
# Native methods

Of compiled code the machine keeps what its feedback needs: which methods were
inlined where (`ScopeDesc`), the caches of the sends that were not inlined
(`CallSite`), and the branches that were left out because they had never been
taken (`TrapSite`). The machine code itself plays no part.
-/

namespace Warmup

/-- The scope of a method that was compiled in, the root or an inlined one. -/
structure ScopeDesc where
  offset : Offset
  /-- The scope and position it was inlined at; the root has none. -/
  sender : Option (Offset × Bci)
  key : LookupKey
  method : MethodId
  /-- Compiled without full debug information, and so without traps. -/
  lite : Bool
  deriving DecidableEq

/-- The cache of a send that was not inlined. -/
structure CallSite where
  scope : Offset
  bci : Bci
  cache : InlineCache
  deriving DecidableEq

/-- A trap in place of a branch that had never been taken. -/
structure TrapSite where
  scope : Offset
  bci : Bci
  /-- The trap has fired. -/
  used : Bool := false
  deriving DecidableEq

/-- Whether code may be entered. -/
inductive CodeState
  /-- The current version of its key. -/
  | live
  /-- There is a newer version; activations may still run this one. -/
  | superseded
  /-- Not to be entered again. -/
  | invalid
  deriving DecidableEq

/-- The word for a code state. -/
def CodeState.name : CodeState → String
  | live => "Live"
  | superseded => "Superseded"
  | invalid => "Invalid"

/-- The handle of code that is in no table. -/
def NativeId.unassigned : NativeId := ⟨4294967295⟩

/-- A compiled method. -/
structure NativeMethod where
  id : NativeId := .unassigned
  key : LookupKey
  method : MethodId
  /-- How often its key had been compiled, this one included. -/
  version : Nat := 0
  /-- Optimization level. -/
  level : Nat
  invocations : Nat := 0
  /-- Invocations since the counter was last at its limit. -/
  overflowCount : Nat := 0
  trapCount : Nat := 0
  /-- The number of compilations when it was installed. -/
  compiledAt : Nat := 0
  size : Nat := 0
  state : CodeState := .live
  scopes : List ScopeDesc := []
  sites : List CallSite := []
  traps : List TrapSite := []
  deriving DecidableEq

namespace NativeMethod

/-- Whether it may still run. -/
def isValid (n : NativeMethod) : Bool := n.state ≠ .invalid

/-- The scope at an offset. -/
def scope? (n : NativeMethod) (o : Offset) : Option ScopeDesc := n.scopes.find? (·.offset = o)

/-- Whether a method was compiled in. -/
def dependsOn (n : NativeMethod) (m : MethodId) : Bool :=
  n.method = m || n.scopes.any (·.method = m)

/-- The code itself, and what its scopes and caches hold. -/
def roots (n : NativeMethod) : List Root :=
  .native n.id :: n.key.roots ++ [.method n.method] ++
    n.scopes.flatMap (fun s => s.key.roots ++ [.method s.method]) ++
    n.sites.flatMap fun s => s.cache.roots

end NativeMethod

end Warmup
