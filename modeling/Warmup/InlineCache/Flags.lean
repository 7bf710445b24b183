/-!
# Flags of a cache

What a cache remembers besides its entries. `dirty` and `megamorphic` follow
its history; the others are fixed when the send is compiled. The bits, from the
lowest, are in the order of the fields.
-/

namespace Warmup

/-- The flags of a cache. -/
structure CacheFlags where
  /-- The send has missed at least once. -/
  dirty : Bool := false
  /-- The send is part of optimized code. -/
  optimized : Bool := false
  /-- The send is not to be inlined. -/
  uninlinable : Bool := false
  superSend : Bool := false
  megamorphic : Bool := false
  /-- The receiver class was known to the compiler. -/
  receiverStatic : Bool := false
  /-- The send counts its invocations. -/
  counting : Bool := false
  deriving DecidableEq

namespace CacheFlags

/-- The flags in the order of their bits. -/
def toList (f : CacheFlags) : List Bool :=
  [f.dirty, f.optimized, f.uninlinable, f.superSend, f.megamorphic, f.receiverStatic, f.counting]

/-- The flags as a number. -/
def toNat (f : CacheFlags) : Nat := f.toList.foldr (fun b n => b.toNat + 2 * n) 0

/-- The flags that the lowest seven bits of `n` stand for. -/
def ofNat (n : Nat) : CacheFlags where
  dirty := n.testBit 0
  optimized := n.testBit 1
  uninlinable := n.testBit 2
  superSend := n.testBit 3
  megamorphic := n.testBit 4
  receiverStatic := n.testBit 5
  counting := n.testBit 6

/-- The flags with those that a compiler may set. -/
def withCompiled (f g : CacheFlags) : CacheFlags where
  dirty := f.dirty
  optimized := f.optimized || g.optimized
  uninlinable := f.uninlinable || g.uninlinable
  superSend := f.superSend || g.superSend
  megamorphic := f.megamorphic
  receiverStatic := f.receiverStatic || g.receiverStatic
  counting := f.counting || g.counting

/-- The text of the flags: the names of those that are set. -/
def describe (f : CacheFlags) : String :=
  let names := ["DIRTY", "OPTIMIZED", "UNINLINABLE", "SUPER_SEND", "MEGAMORPHIC",
    "RECEIVER_STATIC", "COUNTING"]
  let set := (names.zip f.toList).filterMap fun p => if p.2 then some p.1 else none
  "IcFlags(" ++ (if set.isEmpty then "0x0" else " | ".intercalate set) ++ ")"

end CacheFlags

end Warmup
