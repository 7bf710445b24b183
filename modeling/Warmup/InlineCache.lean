import Warmup.InlineCache.Flags
import Warmup.InlineCache.Pic

/-!
# Inline caches

Every send that is not inlined has a cache of its own. It starts empty and
learns the receiver classes that reach it: one, then several, then too many.

* `dispatch`: a send through the cache; a class that the cache knows is a hit,
  and any other one is looked up and added (`miss`);
* `clear`: the cache without its entries;
* `cleanup`: the cache without the entries that are no longer right.

A cache with one entry for native code calls it directly; every other entry
takes a `Pic`. If the space for that is exhausted, the cache is emptied and the
send goes through nevertheless. The `dirty` flag survives all of this, and tells
a send that never ran from one whose cache was emptied.
-/

namespace Warmup

/-- What the send calls. -/
inductive Destination
  /-- The lookup. -/
  | stub
  /-- Native code that checks its receiver class. -/
  | direct (e : CacheEntry)
  | pic (p : Pic)
  deriving DecidableEq

/-- How much a cache has seen. -/
inductive CacheState
  | empty
  | monomorphic
  | polymorphic
  | megamorphic
  deriving DecidableEq

/-- The word for a cache state. -/
def CacheState.name : CacheState → String
  | empty => "Empty"
  | monomorphic => "Monomorphic"
  | polymorphic => "Polymorphic"
  | megamorphic => "Megamorphic"

/-- What a send did to its cache. -/
inductive Transition
  /-- The cache knew the class. -/
  | hit (t : Target)
  /-- The empty cache got its first entry. -/
  | filled (t : Target)
  /-- The cache got a further entry. -/
  | grown (t : Target)
  /-- The cache had no room for a further entry. -/
  | wentMegamorphic (t : Target)
  /-- The cache was megamorphic before. -/
  | megamorphicLookup (t : Target)
  /-- The lookup found nothing. -/
  | notUnderstood
  /-- There was no space for a pic. -/
  | fallback (t : Target)
  deriving DecidableEq

/-- The word for a transition. -/
def Transition.name : Transition → String
  | hit _ => "Hit"
  | filled _ => "Filled"
  | grown _ => "Grown"
  | wentMegamorphic _ => "WentMegamorphic"
  | megamorphicLookup _ => "MegamorphicLookup"
  | notUnderstood => "NotUnderstood"
  | fallback _ => "Fallback"

/-- The code that a send ran. -/
def Transition.target? : Transition → Option Target
  | hit t | filled t | grown t | wentMegamorphic t | megamorphicLookup t | fallback t => some t
  | notUnderstood => none

/-- The cache of a send. -/
structure InlineCache where
  selector : Selector
  /-- Where the lookup of a super send starts. -/
  superClass : Option ClassId := none
  flags : CacheFlags := {}
  dest : Destination := .stub
  hits : Nat := 0
  misses : Nat := 0
  deriving DecidableEq

namespace InlineCache

/-- The empty cache of a send. -/
def fresh (s : Selector) : InlineCache := { selector := s }

/-- The empty cache of a super send whose lookup starts at `c`. -/
def freshSuper (s : Selector) (c : ClassId) : InlineCache :=
  { selector := s, superClass := some c, flags := { superSend := true } }

/-- The empty cache of a send; one with a lookup class is a super send. -/
def freshAt (s : Selector) : Option ClassId → InlineCache
  | some c => freshSuper s c
  | none => fresh s

/-- The cache with flags set by the compiler. -/
def withFlags (c : InlineCache) (f : CacheFlags) : InlineCache :=
  { c with flags := c.flags.withCompiled f }

/-! ## Queries -/

/-- The entries, oldest first. -/
def entries (c : InlineCache) : List CacheEntry :=
  match c.dest with
  | .stub => []
  | .direct e => [e]
  | .pic p => p.toList

/-- Whether it calls the lookup. -/
def isEmpty (c : InlineCache) : Bool := c.dest = .stub

/-- Whether it has given up telling classes apart. -/
def isMegamorphic (c : InlineCache) : Bool :=
  match c.dest with
  | .pic p => p.isMegamorphic
  | _ => false

/-- Whether the send never ran. -/
def neverExecuted (c : InlineCache) : Bool := c.isEmpty && !c.flags.dirty

/-- How much it has seen. -/
def state (c : InlineCache) : CacheState :=
  match c.dest with
  | .stub => .empty
  | .direct _ => .monomorphic
  | .pic p =>
    match p.toList.length with
    | 0 => .megamorphic
    | 1 => .monomorphic
    | _ => .polymorphic

/-- The key that the send looks up for a receiver class. -/
def lookupKey (c : InlineCache) (receiver : ClassId) : LookupKey :=
  .send (c.superClass.getD receiver) c.selector

/-- The code that the cache knows for a receiver class. -/
def cached? (c : InlineCache) (receiver : ClassId) : Option Target :=
  match c.dest with
  | .stub => none
  | .direct e => if e.cls = receiver then some e.target else none
  | .pic p => p.find? receiver

/-- The lookup class, and what the destination holds. -/
def roots (c : InlineCache) : List Root :=
  (match c.superClass with | some d => [.cls d] | none => []) ++
    match c.dest with
    | .stub => []
    | .direct e => e.roots
    | .pic p => p.roots

/-! ## Changes -/

/-- The cache without its destination, and the space without its pic. -/
def release (c : InlineCache) (space : PicSpace) : InlineCache × PicSpace :=
  ({ c with dest := .stub }, match c.dest with | .pic p => space.free p | _ => space)

/-- Whether `p` took the place of the destination; if not, there is none. -/
def install (c : InlineCache) (p : Pic) (space : PicSpace) : Bool × InlineCache × PicSpace :=
  let (c, space) := c.release space
  match space.allocate p with
  | (true, space) => (true, { c with dest := .pic p }, space)
  | (false, space) => (false, c, space)

/-- A send through a cache: what it did, the cache and the space after it. -/
structure Sent where
  transition : Transition
  cache : InlineCache
  space : PicSpace

/-- The cache and the space after `p` was installed, for a send that runs `t`
    and does `change` if there is room. -/
def grow (c : InlineCache) (p : Pic) (space : PicSpace) (change : Target → Transition)
    (t : Target) : Sent :=
  match c.install p space with
  | (true, c, space) => ⟨change t, c, space⟩
  | (false, c, space) => ⟨.fallback t, c, space⟩

/-- A send to a class the cache does not know, given what the lookup answers. -/
def miss (c : InlineCache) (receiver : ClassId) (answer : Option Target) (space : PicSpace)
    (maxEntries : Nat) : Sent :=
  let c := { c with misses := c.misses + 1, flags := { c.flags with dirty := true } }
  match answer with
  | none => ⟨.notUnderstood, c, space⟩
  | some t =>
    match c.dest with
    | .stub =>
      if t.isCompiled then ⟨.filled t, { c with dest := .direct ⟨receiver, t⟩ }, space⟩
      else c.grow (.entries [⟨receiver, t⟩]) space .filled t
    | .pic (.megamorphic _) =>
      ⟨.megamorphicLookup t, { c with dest := .pic (.megamorphic (some receiver)) }, space⟩
    | _ =>
      let es := c.entries ++ [⟨receiver, t⟩]
      if es.length ≤ maxEntries then c.grow (.entries es) space .grown t
      else
        match c.install (.megamorphic (some receiver)) space with
        | (true, c, space) =>
          ⟨.wentMegamorphic t, { c with flags := { c.flags with megamorphic := true } }, space⟩
        | (false, c, space) => ⟨.fallback t, c, space⟩

/-- A send of which the cache knows the class. -/
def hit (c : InlineCache) (t : Target) (space : PicSpace) : Sent :=
  ⟨.hit t, { c with hits := c.hits + 1 }, space⟩

/-- A send through the cache, with a lookup for the classes it does not know. -/
def dispatch (c : InlineCache) (receiver : ClassId) (resolve : LookupKey → Option Target)
    (space : PicSpace) (maxEntries : Nat) : Sent :=
  match c.cached? receiver with
  | some t => c.hit t space
  | none => c.miss receiver (resolve (c.lookupKey receiver)) space maxEntries

/-- The cache without its entries. -/
def clear (c : InlineCache) (space : PicSpace) : InlineCache × PicSpace :=
  let (c, space) := c.release space
  ({ c with flags := { c.flags with megamorphic := false } }, space)

/-- The number of entries dropped because they are not current, the cache and
    the space without them. A megamorphic cache has nothing to drop. -/
def cleanup (c : InlineCache) (isCurrent : LookupKey → Target → Bool) (space : PicSpace) :
    Nat × InlineCache × PicSpace :=
  let live := c.entries.filter fun e => isCurrent (c.lookupKey e.cls) e.target
  let removed := c.entries.length - live.length
  if removed = 0 then (0, c, space)
  else
    match live with
    | [] => (removed, c.clear space)
    | [e] =>
      if e.target.isCompiled then
        let (c, space) := c.release space
        (removed, { c with dest := .direct e }, space)
      else (removed, (c.install (.entries [e]) space).2)
    | es => (removed, (c.install (.entries es) space).2)

end InlineCache

end Warmup
