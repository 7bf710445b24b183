import Warmup.SendGraph

/-!
# Emission

A send graph becomes native code: every scope leaves a descriptor, every real or
residual send a cache, and every trap a trap site. The size of the code is the
cost of all its methods, changed by what became of their sends.
-/

namespace Warmup

/-- The size of the test for one receiver class. -/
def typeTestSize : Nat := 2

/-- The size of a trap. -/
def trapSize : Nat := 2

namespace Resolution

/-- By how much the size of a send changes. The size of the tests for receiver
    classes is computed in machine words. -/
def growth : Resolution → Except Fault Int
  | inlined _ _ => .ok (-sendCost)
  | typeCase arms residual => do
    let tests ← Word.fit 32 (typeTestSize * (arms.length % Word.size 32))
    return match residual with
      | .send _ => tests
      | .trap _ => tests + (trapSize - sendCost)
  | send _ => .ok 0
  | trap _ => .ok (trapSize - sendCost)

end Resolution

namespace SendNode

/-- Whether a send may stand before another one: by scope, then by position. -/
def le (a b : SendNode) : Bool := if a.scope = b.scope then a.bci ≤ b.bci else a.scope < b.scope

/-- The cache of a send that is left. -/
def site? (n : SendNode) : Option CallSite :=
  n.resolution.send?.map fun s =>
    ⟨n.scope, n.bci, (InlineCache.freshAt n.selector s.lookupClass).withFlags s.flags⟩

/-- The site of a trap. -/
def trap? (n : SendNode) : Option TrapSite :=
  n.resolution.trap?.map fun _ => { scope := n.scope, bci := n.bci }

end SendNode

/-- The descriptor of a scope. -/
def CompileScope.desc (s : CompileScope) : ScopeDesc := ⟨s.id, s.sender, s.key, s.method, s.lite⟩

namespace SendGraph

/-- The cost of all methods that are compiled. -/
def cost (g : SendGraph) (c : ClassTable) : Except Fault Nat := do
  let costs ← g.scopes.mapM fun s => do (← c.method s.method).cost
  return costs.foldr (· + ·) 0

/-- The native code of a send graph. -/
def emit (g : SendGraph) (c : ClassTable) : Except Fault NativeMethod := do
  let cost ← g.cost c
  let growth ← g.sends.mapM (·.resolution.growth)
  let size : Int := cost + growth.foldr (· + ·) 0
  let nodes := g.sends.mergeSort SendNode.le
  return {
    key := g.key
    method := g.method
    level := g.level
    size := size.toNat % Word.size 32
    scopes := g.scopes.map (·.desc)
    sites := nodes.filterMap (·.site?)
    traps := nodes.filterMap (·.trap?) }

end SendGraph

end Warmup
