import Warmup.Estimate
import Warmup.SendGraph

/-!
# Inlining

Every send of the method, and of every callee that is inlined, is resolved by
what is known about its receiver:

* a class that is known for certain: the callee takes the place of the send;
* classes that are expected: a type case with an inlined callee for each, and a
  residual for all others;
* nothing that can be inlined: a real send;
* a send, or a residual, that never ran: a trap, if traps are allowed there.

`Compiler.expand` does this for a scope. It goes at most as deep as the settings
allow; the callees of a scope are expanded by a function that it is given, so
that the recursion is on the depth that is left.
-/

namespace Warmup

/-- A part of a send graph, with the statistics of its construction. -/
structure Fragment where
  scopes : List CompileScope := []
  sends : List SendNode := []
  stats : InliningStats := {}

namespace Fragment

/-- Two parts, one after the other. -/
def append (a b : Fragment) : Fragment :=
  ⟨a.scopes ++ b.scopes, a.sends ++ b.sends, a.stats.append b.stats⟩

/-- The part, with something more in the statistics. -/
def count (f : Fragment) (n : InliningStats) : Fragment := { f with stats := f.stats.append n }

/-- The part that consists of a rejection. -/
def ofRejection (r : Rejection) : Fragment := { stats := { rejected := [r] } }

/-- The part that consists of a send. -/
def ofSend (s : CompileScope) (site : SendSite) (r : Resolution) : Fragment :=
  { sends := [⟨s.id, site.bci, site.selector, r⟩] }

/-- A send stays one, and counts as such. -/
def leaveSend (f : Fragment) (q : RealSend) : Resolution × Fragment :=
  (.send q, f.count { realSends := 1 })

/-- A trap takes the place of a send. -/
def putTrap (f : Fragment) (n : TrapNode) : Resolution × Fragment :=
  (.trap n, f.count { traps := 1 })

/-- The callee takes the place of a send if it was inlined, or the send stays. -/
def putCallee (f : Fragment) (d : ClassId) (callee : Option Offset) (q : RealSend) :
    Resolution × Fragment :=
  match callee with
  | some o => (.inlined d o, f.count { inlined := 1 })
  | none => f.leaveSend q

/-- A type case takes the place of a send: its callees count, and so does what is
    left for other classes. -/
def putTypeCase (f : Fragment) (arms : List (ClassId × Offset)) (residual : Residual) :
    Resolution × Fragment :=
  let f := f.count { inlined := arms.length, typeCases := 1 }
  (.typeCase arms residual, match residual with
    | .send _ => f.count { realSends := 1 }
    | .trap _ => f.count { traps := 1 })

end Fragment

/-- A scope that sends, with the methods and receiver classes of the scopes it
    is inlined into, innermost first and its own included. -/
structure Caller where
  scope : CompileScope
  trail : List (MethodId × ClassId)

/-- How the scopes one level deeper are expanded, if that is allowed. -/
abbrev Deeper := Option (Caller → Except Fault Fragment)

/-- A callee that a send would run. -/
structure Callee where
  key : LookupKey
  method : MethodId
  /-- The class of the receiver in the callee. -/
  receiver : ClassId

namespace Compiler

variable (c : Compiler) (t : FeedbackTree)

/-! ## Callees -/

/-- The callee that a send to a receiver of class `d` runs: a block that is
    known to be called, or the method that lookup finds. -/
def callee? (d : ClassId) (receiver : KnownValue) (site : SendSite) : Option Callee :=
  match receiver, c.classes.isBlockInvocation site.selector with
  | .block m outer, true => some ⟨.given d m, m, outer⟩
  | _, _ =>
    ((LookupKey.send d site.selector).resolve c.classes).map fun m => ⟨.send d site.selector, m, d⟩

/-- The callee that a super send runs. -/
def superCallee? (s : CompileScope) (site : SendSite) : Option Callee := do
  let m ← c.classes.method? s.method
  let target ← c.classes.superLookup m.holder site.selector
  return ⟨.given s.receiver target, target, s.receiver⟩

/-- Where the lookup of a super send starts. -/
def superClass? (s : CompileScope) : Option ClassId :=
  (c.classes.method? s.method).bind fun m => c.classes.superclass? m.holder

/-- The decision on a callee: it must not occur too often on the trail. -/
def decideAt (caller : Caller) (site : SendSite) (e : Callee) (m : Method) :
    Except Fault Decision := do
  let recursion := caller.trail.count (e.method, e.key.cls)
  if c.settings.inlining.maxUnroll.toNat < recursion then return .rejected (.recursive recursion)
  let homeCost ← (m.home.bind c.classes.method?).mapM Method.cost
  c.shouldInline {
    method := m
    receiver := e.key.cls
    blockArgs := site.args.countP fun a => (caller.scope.value a).isBlock
    homeCost := homeCost }

/-- The scope of a callee that is inlined at a send. -/
def calleeScope (s : CompileScope) (site : SendSite) (e : Callee) (m : Method) (builtin : Bool)
    (next : Offset) :
    CompileScope where
  id := next
  key := e.key
  method := e.method
  sender := some (s.id, site.bci)
  depth := s.depth + 1
  receiver := e.receiver
  args := site.args.map s.value
  feedback := s.feedback.bind fun f => t.find? f site.bci e.key
  lite := s.lite || builtin || m.hint = .always

/-- The offset of a callee that was inlined, if it was, and the part of the
    graph that the attempt gives; the callee would be at offset `next`. -/
def inline (deeper : Deeper) (caller : Caller) (site : SendSite) (e : Option Callee)
    (next : Offset) :
    Except Fault (Option Offset × Fragment) :=
  match e.bind fun e => (c.classes.method? e.method).map fun m => (e, m) with
  | none => .ok (none, .ofRejection .lookupFailed)
  | some (e, m) =>
    match deeper with
    | none => .ok (none, .ofRejection (.tooDeep (caller.scope.depth + 1)))
    | some expand => do
      match ← c.decideAt caller site e m with
      | .rejected why => return (none, .ofRejection why)
      | .allowed builtin =>
        let scope := calleeScope t caller.scope site e m builtin next
        return (some next, ← expand ⟨scope, (e.method, e.key.cls) :: caller.trail⟩)

/-- The callees that were inlined for some receiver classes, and the part of
    the graph that the attempts give. -/
def inlineArms (deeper : Deeper) (caller : Caller) (site : SendSite) :
    List ClassId → Offset → Except Fault (List (ClassId × Offset) × Fragment)
  | [], _ => .ok ([], {})
  | d :: ds, next => do
    let (callee, part) ← c.inline t deeper caller site (c.callee? d .unknown site) next
    let (arms, rest) ← inlineArms deeper caller site ds (next + part.scopes.length)
    return ((callee.map fun o => (d, o)).toList ++ arms, part.append rest)

/-! ## Sends -/

/-- Whether a real send counts its invocations. -/
def counts (others : Likelihood) : Bool := c.settings.inlining.countingSends && others ≠ .unlikely

/-- Whether a trap may take the place of a send. -/
def canTrap (s : CompileScope) (bci : Bci) : Bool :=
  !s.lite && c.settings.inlining.uncommonTraps && !c.traps.isDisabled s.method bci &&
    !s.feedback.any fun f => t.isUncommon f bci

/-- A super send: its callee is known. -/
def resolveSuper (deeper : Deeper) (caller : Caller) (site : SendSite) (next : Offset) :
    Except Fault (Resolution × Fragment) := do
  let (callee, part) ← c.inline t deeper caller site (c.superCallee? caller.scope site) next
  let left :=
    ⟨{ optimized := true, superSend := true, receiverStatic := true }, c.superClass? caller.scope⟩
  return part.putCallee caller.scope.receiver callee left

/-- A send to a receiver of which the class is known. -/
def resolveStatic (deeper : Deeper) (caller : Caller) (site : SendSite) (d : ClassId)
    (receiver : KnownValue) (next : Offset) : Except Fault (Resolution × Fragment) := do
  let (callee, part) ← c.inline t deeper caller site (c.callee? d receiver site) next
  let left := ⟨{ optimized := true, receiverStatic := true, counting := c.counts .likely }, none⟩
  return part.putCallee d callee left

/-- The receiver classes that are expected at a send. -/
def estimate (s : CompileScope) (site : SendSite) : Estimate :=
  let seen := s.feedback.bind fun f =>
    if c.settings.feedback.enabled then Estimate.ofFeedback t f site.bci else none
  (seen <|> Estimate.predict c.classes site.selector).getD {}

/-- Whether feedback says that a send must not be inlined. -/
def isUninlinable (s : CompileScope) (site : SendSite) : Bool :=
  c.settings.feedback.enabled && s.feedback.any fun f => t.isUninlinable f site.bci

/-- A send that stays one, where other classes than those expected have some
    likelihood. -/
def openSend (others : Likelihood) : RealSend :=
  ⟨{ optimized := true, counting := c.counts others }, none⟩

/-- A send to a receiver of some expected classes. -/
def resolveEstimate (deeper : Deeper) (caller : Caller) (site : SendSite) (e : Estimate)
    (next : Offset) :
    Except Fault (Resolution × Fragment) := do
  let traps := e.others = .untaken && c.canTrap t caller.scope site.bci
  if e.classes.isEmpty then
    return if traps then Fragment.putTrap {} (.ofSend site) else Fragment.leaveSend
      {} (c.openSend e.others)
  let (arms, part) ← c.inlineArms t deeper caller site e.classes next
  let missing := arms.length < e.classes.length
  return if arms.isEmpty then part.leaveSend (c.openSend e.others)
    else if missing then part.putTypeCase arms (.send (c.openSend .likely))
    else if traps then part.putTypeCase arms (.trap (.ofSend site))
    else part.putTypeCase arms (.send (c.openSend e.others))

/-- What becomes of a send, and the part of the graph that is inlined there,
    whose offsets start at `next`. -/
def resolve (deeper : Deeper) (caller : Caller) (site : SendSite) (next : Offset) :
    Except Fault (Resolution × Fragment) :=
  if site.isSuper then c.resolveSuper t deeper caller site next
  else
    match caller.scope.value site.receiver with
    | .cls d => c.resolveStatic t deeper caller site d (.cls d) next
    | .block m outer => c.resolveStatic t deeper caller site .blockClosure (.block m outer) next
    | .unknown =>
      if c.isUninlinable t caller.scope site then
        .ok (Fragment.leaveSend {} ⟨{ optimized := true, uninlinable := true }, none⟩)
      else c.resolveEstimate t deeper caller site (c.estimate t caller.scope site) next

/-! ## Scopes -/

/-- The part of the graph that some sends of a scope give. -/
def expandSends (deeper : Deeper) (caller : Caller) : List SendSite → Offset → Except Fault Fragment
  | [], _ => .ok {}
  | site :: rest, next => do
    let (resolution, part) ← c.resolve t deeper caller site next
    let after ← expandSends deeper caller rest (next + part.scopes.length)
    return part.append ((Fragment.ofSend caller.scope site resolution).append after)

/-- The part of the graph that a scope gives, given how its callees are
    expanded. -/
def expandWith (deeper : Deeper) (caller : Caller) : Except Fault Fragment := do
  let sends := ((c.classes.method? caller.scope.method).map Method.sends).getD []
  let rest ← c.expandSends t deeper caller sends (caller.scope.id + 1)
  return { rest with scopes := caller.scope :: rest.scopes }

/-- The part of the graph that a scope gives, where callees are inlined at most
    `levels` deep. -/
def expand : Nat → Caller → Except Fault Fragment
  | 0, caller => c.expandWith t none caller
  | levels + 1, caller => c.expandWith t (some (expand levels)) caller

/-- The scope of the method that is compiled. -/
def rootScope (key : LookupKey) (m : Method) : CompileScope where
  id := 0
  key := key
  method := m.id
  receiver := key.cls
  args := List.replicate m.argCount .unknown
  feedback := if t.isNull then none else some FeedbackTree.root

/-- The send graph of a method, and the statistics. -/
def graph (key : LookupKey) (method : MethodId) (level : Nat) :
    Except Fault (SendGraph × InliningStats) := do
  let m ← c.classes.method method
  let part ← c.expand t c.settings.inlining.maxDepth.toNat ⟨rootScope t key m, [(m.id, key.cls)]⟩
  return (⟨key, method, level, part.scopes, part.sends⟩, part.stats)

end Compiler

end Warmup
