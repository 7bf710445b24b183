import Warmup.Engine.Send

/-!
# New definitions

A new method makes everything wrong that was built on the method it takes the
place of: remembered lookups, native code it was compiled into, what its traps
and caches have taught, and the entries of other caches that lead to it.
-/

namespace Warmup.Engine

/-- The number of entries dropped from some caches of native code, the caches
    and the space without them. -/
def cleanupCallSites (isCurrent : LookupKey → Target → Bool) :
    List CallSite → PicSpace → Nat × List CallSite × PicSpace
  | [], space => (0, [], space)
  | s :: rest, space =>
    let (n, c, space) := s.cache.cleanup isCurrent space
    let (k, rest, space) := cleanupCallSites isCurrent rest space
    (n + k, { s with cache := c } :: rest, space)

/-- The number of entries dropped from the caches of valid code, the code and
    the space without them. -/
def cleanupNatives (isCurrent : LookupKey → Target → Bool) :
    List NativeMethod → PicSpace → Nat × List NativeMethod × PicSpace
  | [], space => (0, [], space)
  | m :: rest, space =>
    let (n, m, space) :=
      if m.isValid then
        let (n, sites, space) := cleanupCallSites isCurrent m.sites space
        (n, { m with sites := sites }, space)
      else (0, m, space)
    let (k, rest, space) := cleanupNatives isCurrent rest space
    (n + k, m :: rest, space)

/-- The number of cache entries dropped because they are not current, and the
    engine without them. -/
def cleanup (e : Engine) : Nat × Engine :=
  let (n, sites, space) := e.sites.cleanup e.isCurrent e.pics
  let (k, methods, space) := cleanupNatives e.isCurrent e.code.methods space
  (n + k, { e with sites := sites, code := { e.code with methods := methods }, pics := space })

/-- The engine without what was built on a method that a class had before. -/
def retract (e : Engine) (old : MethodId) : Engine :=
  let e := { e with code := (e.code.invalidateDependents old).2 }
  if (e.classes.method? old).any (·.superseded) then
    let (sites, pics) := e.sites.removeMethod old e.pics
    { e with traps := e.traps.forget old, sites := sites, pics := pics }
  else e

/-- The engine with a new method of a class. -/
def replaceMethod (e : Engine) (c : ClassId) (d : Draft) : Except Fault (Engine × MethodId) := do
  let old := e.classes.lookup c d.selector
  let (classes, new) ← e.classes.addMethod c d
  let e := { e with classes := classes, memo := e.memo.flush }
  let e := (old.map e.retract).getD e
  return (e.cleanup.2, new)

end Warmup.Engine
