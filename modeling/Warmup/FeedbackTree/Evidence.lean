import Warmup.CodeTable
import Warmup.FeedbackTree.Recorded
import Warmup.Settings
import Warmup.SiteTable

/-!
# Gathering feedback

The feedback tree of a method is put together from what the machine holds, its
`Evidence`: the database if it has an entry, else the scopes and caches of the
current native code, else the interpreter's caches.

* `Evidence.treeOfNative`: the scopes of native code hang as they were inlined
  (`placeScopes`), its traps and caches say what is known about the other sends;
* `Evidence.attachCache`: what a cache says about its send. A cache with few
  enough classes is *trusted*, and its callees are walked in turn, a bounded
  number of levels deep.

The scopes, traps and caches of native code are taken in a fixed order, so that
equal evidence gives equal trees.
-/

namespace Warmup

/-- What the machine knows about earlier executions. -/
structure Evidence where
  classes : ClassTable
  code : CodeTable
  sites : SiteTable
  /-- The database, if it is consulted. -/
  database : Option Database
  settings : Settings.Feedback

namespace Evidence

open FeedbackTree

/-- How a tree changes by what the cache of a send says. -/
abbrev Attach := FeedbackTree → ScopeId → Bci → InlineCache → FeedbackTree

/-! ## The scopes of native code -/

/-- Scopes of native code that have got their place in a tree. -/
structure Placed where
  tree : FeedbackTree
  /-- Their handles, newest first. -/
  ids : List (Offset × ScopeId) := []
  /-- Those that may still get callees, innermost first. -/
  opened : List (Offset × ScopeId) := []

/-- One scope more. -/
def Placed.add (p : Placed) (n : NativeMethod) (level : Nat) (d : ScopeDesc)
    (opened : List (Offset × ScopeId)) (sender : Option (ScopeId × Bci)) : Placed :=
  let (tree, id) := p.tree.add (.inlined d.key d.method n.id d.offset d.lite) sender level
  { tree := tree, ids := (d.offset, id) :: p.ids, opened := (d.offset, id) :: opened }

/-- A scope put below its sender, which must still be open; the first one
    without a sender is put at `parent`, and any other one is left out. -/
def Placed.step (n : NativeMethod) (level : Nat) (parent : Option (ScopeId × Bci)) (p : Placed)
    (d : ScopeDesc) :
    Placed :=
  match d.sender with
  | none => if p.ids.isEmpty then p.add n level d p.opened parent else p
  | some (sender, bci) =>
    match p.opened.dropWhile (·.1 ≠ sender) with
    | [] => { p with opened := [] }
    | s :: rest => p.add n level d (s :: rest) (some (s.2, bci))

/-- The scopes of native code put at `parent`, by ascending offsets. -/
def placeScopes (n : NativeMethod) (level : Nat) (parent : Option (ScopeId × Bci))
    (t : FeedbackTree) : Placed :=
  (n.scopes.mergeSort fun a b => a.offset ≤ b.offset).foldl
    (Placed.step n level parent) { tree := t }

/-- Whether a record may stand before another one: inner scopes come first, and
    in a scope the positions ascend. -/
def recordLe (a b : Offset × Bci) : Bool := if a.1 = b.1 then a.2 ≤ b.2 else b.1 < a.1

/-- What a trap of native code says about its send. -/
def attachTrap (ids : List (Offset × ScopeId)) (level : Nat) (t : FeedbackTree) (s : TrapSite) :
    FeedbackTree :=
  match ids.lookup s.scope with
  | none => t
  | some id =>
    if s.used then t.markUncommon id s.bci else t.addUntaken id s.bci .uncommonBranch (level + 1)

/-- What a cache of native code says about its send. -/
def attachSite (attach : Attach) (ids : List (Offset × ScopeId)) (t : FeedbackTree) (s : CallSite) :
    FeedbackTree :=
  match ids.lookup s.scope with
  | none => t
  | some id => attach t id s.bci s.cache

/-- The tree with native code at `parent`: its scopes, then its traps, then its
    caches. -/
def walkNative (attach : Attach) (n : NativeMethod) (level : Nat) (parent : Option (ScopeId × Bci))
    (t : FeedbackTree) : FeedbackTree :=
  let p := placeScopes n level parent t
  let traps := n.traps.mergeSort fun a b => recordLe (a.scope, a.bci) (b.scope, b.bci)
  let sites := n.sites.mergeSort fun a b => recordLe (a.scope, a.bci) (b.scope, b.bci)
  sites.foldl (attachSite attach p.ids) (traps.foldl (attachTrap p.ids level) p.tree)

/-- The tree with what the interpreter's caches say about a method. -/
def walkInterpreted (e : Evidence) (attach : Attach) (m : MethodId) (t : FeedbackTree)
    (s : ScopeId) : FeedbackTree :=
  (e.sites.ofMethod m).foldl (fun t c => attach t s c.1 c.2) t

/-! ## Caches -/

/-- Whether the classes in a cache count: if there are few enough of them, or
    one for a selector that is hot. -/
def trusts (e : Evidence) (trusted : Bool) (c : InlineCache) : Bool :=
  let n := c.entries.length
  let limit := if trusted then e.settings.trustLimit else e.settings.untrustedLimit
  n ≤ limit.toNat || (n ≤ 1 && e.settings.hotSelectors.contains (e.classes.selectorName c.selector))

/-- Whether native code has run often enough to be trusted. -/
def isHot (e : Evidence) (n : NativeMethod) : Bool :=
  e.settings.minInvocations.toNat ≤ n.invocations

/-- Whether native code is recent enough to be walked again. -/
def isYoung (e : Evidence) (n : NativeMethod) : Bool :=
  e.code.epoch - n.compiledAt ≤ e.settings.maxRewalkAge.toNat

/-- The tree with the callee that a cache entry leads to. Its own callees are
    attached by `deeper`, and not at all where that is missing. -/
def attachEntry (e : Evidence) (outer : LookupKey) (trusted : Bool) (level : Nat)
    (deeper : Option Attach) (s : ScopeId) (bci : Bci) (selector : Selector) (t : FeedbackTree)
    (entry : CacheEntry) : FeedbackTree :=
  let key := LookupKey.send entry.cls selector
  let sender := some (s, bci)
  match e.database.bind (·.lookup e.classes outer (some key)), key.resolve e.classes with
  | some n, some m => graft e.classes n key m t sender (level + 1)
  | _, _ =>
    match entry.target with
    | .compiled id =>
      match (e.code.get? id).filter (·.isValid) with
      | none => t
      | some n =>
        match deeper.filter fun _ => trusted && e.isYoung n && e.isHot n with
        | some attach => walkNative attach n (level + 1) sender t
        | none => (t.add (.callee key n.method entry.target) sender (level + 1)).1
    | .interpreted m =>
      match deeper.filter fun _ => e.sites.hasFeedback m with
      | some attach =>
        let (t, id) := t.add (.interpreted key m trusted) sender (level + 1)
        e.walkInterpreted attach m t id
      | none => (t.add (.callee key m entry.target) sender (level + 1)).1

/-- The tree with what the cache of a send says, at some level, where `deeper`
    attaches the caches of its callees. -/
def attachAt (e : Evidence) (outer : LookupKey) (trusted : Bool) (level : Nat)
    (deeper : Option Attach) : Attach :=
  fun t s bci c =>
    if c.neverExecuted then
      if t.isUncommon s bci then t else t.addUntaken s bci .neverExecuted (level + 1)
    else if c.isMegamorphic || c.flags.uninlinable then
      (t.add (.uninlinable c.isMegamorphic) (some (s, bci)) (level + 1)).1
    else if c.isEmpty || !e.trusts trusted c then t
    else c.entries.foldl (e.attachEntry outer trusted level deeper s bci c.selector)
      (t.markComplete s bci)

/-- The tree with what the cache of a send says, where `left` levels of callees
    may be walked. -/
def attachCache (e : Evidence) (outer : LookupKey) (trusted : Bool) : Nat → Attach
  | 0 => e.attachAt outer trusted e.settings.maxDepth.toNat none
  | left + 1 =>
    e.attachAt outer trusted (e.settings.maxDepth.toNat - (left + 1))
      (some (e.attachCache outer trusted left))

/-! ## Trees -/

/-- The tree of native code. -/
def treeOfNative (e : Evidence) (n : NativeMethod) (trusted : Bool) : FeedbackTree :=
  if e.settings.enabled then
    let t := walkNative (e.attachCache n.key trusted e.settings.maxDepth.toNat) n 0 none .empty
    if t.scopes.isEmpty then null else t
  else null

/-- The tree of a method that was never compiled. -/
def treeOfInterpreted (e : Evidence) (key : LookupKey) (m : MethodId) : FeedbackTree :=
  if e.settings.enabled then
    e.walkInterpreted (e.attachCache key true e.settings.maxDepth.toNat) m
      (single (.interpreted key m true)) root
  else null

/-- The tree for compiling a method under a key. -/
def treeFor (e : Evidence) (key : LookupKey) (m : MethodId) : FeedbackTree :=
  match e.database.bind (·.tree? e.classes key none) with
  | some t => t
  | none =>
    match e.code.currentMethod? key with
    | some n => e.treeOfNative n (e.isHot n)
    | none => e.treeOfInterpreted key m

end Evidence

end Warmup
