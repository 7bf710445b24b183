import Warmup.InliningPolicy

/-!
# Send graphs

The outcome of inlining: the scopes that are compiled together, the method
itself and every inlined callee, each before those inlined into it; and for
every send of these scopes what becomes of it (`Resolution`). Statistics are kept
while the graph is built (`InliningStats`).
-/

namespace Warmup

/-- What is known about an operand in a scope. -/
inductive KnownValue
  /-- An object of exactly this class. -/
  | cls (c : ClassId)
  /-- A block literal, written where the receiver has this class. -/
  | block (m : MethodId) (receiver : ClassId)
  | unknown
  deriving DecidableEq

/-- Whether it is a block literal. -/
def KnownValue.isBlock : KnownValue → Bool
  | block _ _ => true
  | _ => false

/-- A method that is compiled, the root or an inlined one. -/
structure CompileScope where
  id : Offset
  key : LookupKey
  method : MethodId
  /-- The scope and position it is inlined at; the root has none. -/
  sender : Option (Offset × Bci) := none
  depth : Nat := 0
  receiver : ClassId
  args : List KnownValue := []
  /-- The feedback about it. -/
  feedback : Option ScopeId := none
  /-- Compiled without full debug information, and so without traps. -/
  lite : Bool := false
  deriving DecidableEq

/-- The value of an operand in a scope. -/
def CompileScope.value (s : CompileScope) : Operand → KnownValue
  | .self => .cls s.receiver
  | .arg i => s.args[i]?.getD .unknown
  | .literal c => .cls c
  | .block m => .block m s.receiver
  | .unknown => .unknown

/-- A send that is not inlined. -/
structure RealSend where
  flags : CacheFlags
  /-- Where the lookup of a super send starts. -/
  lookupClass : Option ClassId := none
  deriving DecidableEq

/-- A trap, with the operands that it must save. -/
structure TrapNode where
  spill : List Operand := []
  deriving DecidableEq

/-- The trap in place of a send. -/
def TrapNode.ofSend (s : SendSite) : TrapNode := ⟨s.receiver :: s.args⟩

/-- What happens if no arm of a type case matches. -/
inductive Residual
  | send (s : RealSend)
  | trap (t : TrapNode)
  deriving DecidableEq

/-- What becomes of a send. -/
inductive Resolution
  /-- The callee takes its place. -/
  | inlined (cls : ClassId) (callee : Offset)
  /-- The callee is chosen by the receiver class. -/
  | typeCase (arms : List (ClassId × Offset)) (residual : Residual)
  | send (s : RealSend)
  | trap (t : TrapNode)
  deriving DecidableEq

namespace Resolution

/-- The callees that are inlined, with their receiver classes. -/
def arms : Resolution → List (ClassId × Offset)
  | inlined c callee => [(c, callee)]
  | typeCase arms _ => arms
  | send _ | trap _ => []

/-- Whether the receiver class chooses a callee. -/
def isTypeCase : Resolution → Bool
  | typeCase _ _ => true
  | _ => false

/-- The send that is left, if there is one. -/
def send? : Resolution → Option RealSend
  | send s | typeCase _ (.send s) => some s
  | _ => none

/-- The trap that is left, if there is one. -/
def trap? : Resolution → Option TrapNode
  | trap t | typeCase _ (.trap t) => some t
  | _ => none

end Resolution

/-- A send of a scope, and what becomes of it. -/
structure SendNode where
  scope : Offset
  bci : Bci
  selector : Selector
  resolution : Resolution
  deriving DecidableEq

/-- The scopes that are compiled together, in the order of their offsets, and
    their sends. -/
structure SendGraph where
  key : LookupKey
  method : MethodId
  level : Nat
  scopes : List CompileScope
  sends : List SendNode
  deriving DecidableEq

namespace SendGraph

/-- The sends of a scope. -/
def sendsIn (g : SendGraph) (s : Offset) : List SendNode := g.sends.filter (·.scope = s)

/-- The send of a scope at a position. -/
def sendAt? (g : SendGraph) (s : Offset) (bci : Bci) : Option SendNode :=
  g.sends.find? fun n => n.scope = s ∧ n.bci = bci

/-- How deep callees are inlined. -/
def depth (g : SendGraph) : Nat := (g.scopes.map (·.depth)).foldl max 0

/-- The number of callees that take the place of sends. -/
def inlinedCount (g : SendGraph) : Nat := (g.sends.map (·.resolution.arms.length)).foldr (· + ·) 0

/-- The number of sends whose callee the receiver class chooses. -/
def typeCaseCount (g : SendGraph) : Nat := g.sends.countP (·.resolution.isTypeCase)

/-- The number of sends that are left. -/
def realSendCount (g : SendGraph) : Nat := g.sends.countP (·.resolution.send?.isSome)

/-- The number of traps. -/
def trapCount (g : SendGraph) : Nat := g.sends.countP (·.resolution.trap?.isSome)

end SendGraph

/-- What is counted while sends are resolved, and why callees were not inlined,
    in the order of the attempts. -/
structure InliningStats where
  inlined : Nat := 0
  typeCases : Nat := 0
  realSends : Nat := 0
  traps : Nat := 0
  rejected : List Rejection := []
  deriving DecidableEq

/-- The statistics of two parts of the work, one after the other. -/
def InliningStats.append (a b : InliningStats) : InliningStats where
  inlined := a.inlined + b.inlined
  typeCases := a.typeCases + b.typeCases
  realSends := a.realSends + b.realSends
  traps := a.traps + b.traps
  rejected := a.rejected ++ b.rejected

end Warmup
