import Warmup.Engine

/-!
# Sends

Sends go through inline caches, those of interpreted methods and those in native
code. A class that the cache does not know is looked up, and leads to the
current native code of its key if there is some.
-/

namespace Warmup.Engine

/-- The code that a key leads to when it is looked up, and the memo after
    that. -/
def target (e : Engine) (k : LookupKey) : Option Target × LookupMemo :=
  let (m, memo) := e.memo.lookup e.classes k
  (m.map fun m => match e.code.current? k with
    | some n => .compiled n
    | none => .interpreted m, memo)

/-- Whether a cache entry for a key is what a lookup would lead to. -/
def isCurrent (e : Engine) (k : LookupKey) : Target → Bool
  | .compiled n => e.code.current? k = some n
  | .interpreted m => k.resolve e.classes = some m && (e.code.current? k).isNone

/-- A send through a cache, with room for `maxEntries` classes. -/
def dispatch (e : Engine) (c : InlineCache) (receiver : ClassId) (maxEntries : Nat) :
    Engine × Transition × InlineCache :=
  match c.cached? receiver with
  | some t =>
    let sent := c.hit t e.pics
    ({ e with pics := sent.space }, sent.transition, sent.cache)
  | none =>
    let (answer, memo) := e.target (c.lookupKey receiver)
    let sent := c.miss receiver answer e.pics maxEntries
    ({ e with pics := sent.space, memo := memo }, sent.transition, sent.cache)

/-- The engine after a send, which must be understood while the scheduler
    runs. -/
def afterSend (e : Engine) (t : Transition) : Outcome Engine Transition :=
  let tally := { e.tally with sends := e.tally.sends + 1 }
  if t = .notUnderstood then
    let e := { e with tally := { tally with notUnderstood := tally.notUnderstood + 1 } }
    if e.processes.inScheduler then .fail e (.fatal .lookupInScheduler) else .done e t
  else .done { e with tally := tally } t

/-- The empty cache of a send of a method. -/
def freshSite (e : Engine) (m : Method) (s : SendSite) : InlineCache :=
  InlineCache.freshAt s.selector (if s.isSuper then e.classes.superclass? m.holder else none)

/-- A send of an interpreted method. -/
def sendInterpreted (e : Engine) (method : MethodId) (bci : Bci) (receiver : ClassId) :
    Outcome Engine Transition :=
  match e.classes.method method with
  | .error f => .fail e f
  | .ok m =>
    match m.sendAt? bci with
    | none => .fail e (.unknown .callSite bci)
    | some s =>
      let cache := (e.sites.cache? method bci).getD (e.freshSite m s)
      let (e, t, cache) := e.dispatch cache receiver e.settings.caches.maxEntries.toNat
      { e with sites := e.sites.put method bci cache }.afterSend t

/-- A send in native code, by the place of its cache. -/
def sendCompiled (e : Engine) (n : NativeId) (site : Nat) (receiver : ClassId) :
    Outcome Engine Transition :=
  match e.code.get n with
  | .error f => .fail e f
  | .ok native =>
    match native.sites[site]? with
    | none => .fail e (.unknown .callSite site)
    | some s =>
      let (e, t, cache) := e.dispatch s.cache receiver e.settings.caches.maxEntries.toNat
      { e with code := e.code.modify n fun m =>
        { m with sites := m.sites.set site { s with cache := cache } } }.afterSend t

/-- The engine with a cache for every send of a method. -/
def link (e : Engine) (method : MethodId) : Except Fault Engine := do
  let m ← e.classes.method method
  return { e with
    sites := m.sends.foldl (fun t s => t.ensure method s.bci (e.freshSite m s)) e.sites }

end Warmup.Engine
