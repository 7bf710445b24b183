import Warmup.LookupKey

/-!
# Polymorphic inline caches

An entry of a cache pairs a receiver class with the code that runs for it. A
`Pic` holds several entries, or, once there are too many, only the last class
that was looked up. A pic is never changed: a larger one takes its place.

Pics live in a code space of fixed capacity (`PicSpace`), which counts the
entries that are alive. An allocation that does not fit fails, and so does
every megamorphic one if these are turned off.
-/

namespace Warmup

/-- The code that a cache entry leads to. -/
inductive Target
  | compiled (n : NativeId)
  | interpreted (m : MethodId)
  deriving DecidableEq

namespace Target

/-- Whether it is native code. -/
def isCompiled : Target → Bool
  | compiled _ => true
  | interpreted _ => false

/-- The code itself. -/
def root : Target → Root
  | compiled n => .native n
  | interpreted m => .method m

end Target

/-- A receiver class and the code that runs for it. -/
structure CacheEntry where
  cls : ClassId
  target : Target
  deriving DecidableEq

/-- The class and the code. -/
def CacheEntry.roots (e : CacheEntry) : List Root := [.cls e.cls, e.target.root]

/-- A polymorphic inline cache. -/
inductive Pic
  | entries (es : List CacheEntry)
  | megamorphic (last : Option ClassId)
  deriving DecidableEq

namespace Pic

/-- The entries, of which a megamorphic pic has none. -/
def toList : Pic → List CacheEntry
  | entries es => es
  | megamorphic _ => []

/-- Whether it has given up telling classes apart. -/
def isMegamorphic : Pic → Bool
  | entries _ => false
  | megamorphic _ => true

/-- The code for a class. -/
def find? (p : Pic) (c : ClassId) : Option Target := (p.toList.find? (·.cls = c)).map (·.target)

/-- The space it takes. -/
def footprint : Pic → Nat
  | entries es => es.length
  | megamorphic _ => 1

/-- The classes and the code of the entries, or the last class. -/
def roots : Pic → List Root
  | entries es => es.flatMap CacheEntry.roots
  | megamorphic (some c) => [.cls c]
  | megamorphic none => []

end Pic

/-! ## The code space -/

/-- The space that pics live in. -/
structure PicSpace where
  capacity : Nat := 65536
  megamorphicStubs : Bool := true
  used : Nat := 0
  allocations : Nat := 0
  frees : Nat := 0
  failures : Nat := 0
  deriving DecidableEq

namespace PicSpace

/-- Whether a pic may be allocated. -/
def admits (s : PicSpace) (p : Pic) : Bool :=
  (!p.isMegamorphic || s.megamorphicStubs) && s.used + p.footprint ≤ s.capacity

/-- Whether a pic was allocated, and the space after that. -/
def allocate (s : PicSpace) (p : Pic) : Bool × PicSpace :=
  if s.admits p then
    (true, { s with used := s.used + p.footprint, allocations := s.allocations + 1 })
  else (false, { s with failures := s.failures + 1 })

/-- The space without a pic. -/
def free (s : PicSpace) (p : Pic) : PicSpace :=
  { s with used := s.used - p.footprint, frees := s.frees + 1 }

end PicSpace

end Warmup
