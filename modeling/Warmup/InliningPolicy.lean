import Warmup.CodeTable
import Warmup.Settings
import Warmup.TrapHistory

/-!
# The inlining policy

Whether a callee is worth inlining at a send. The programmer's hint decides
first. A block that makes up too little of its home is not worth it; then its
cost must be within a limit, which grows with the number of block arguments
(`Compiler.sizeLimit`). Basic operations on primitive receivers are exempt from
the limit.

* `Compiler.shouldInline`: the decision for a callee;
* `Compiler.wouldInline`: the same, as far as it can be foreseen from outside
  the compiler, where the size of code that exists counts too.
-/

namespace Warmup

/-- All that a compilation reads, besides feedback. -/
structure Compiler where
  settings : Settings
  classes : ClassTable
  code : CodeTable
  traps : TrapHistory

/-- Why a callee is not inlined. -/
inductive Rejection
  | disabled
  | neverInline
  | blockTooSmall (cost homeCost : Nat)
  | tooExpensive (cost limit : Nat)
  | compiledTooLarge (size limit : Nat)
  | recursive (depth : Nat)
  | tooDeep (depth : Nat)
  | lookupFailed
  deriving DecidableEq

namespace Rejection

/-- The name under which rejections are counted. -/
def name : Rejection → String
  | disabled => "disabled"
  | neverInline => "never inline"
  | blockTooSmall _ _ => "block too small"
  | tooExpensive _ _ => "too expensive"
  | compiledTooLarge _ _ => "compiled too large"
  | recursive _ => "recursive"
  | tooDeep _ => "too deep"
  | lookupFailed => "lookup failed"

/-- The text of a rejection. -/
def text : Rejection → String
  | blockTooSmall cost home =>
    "block cost " ++ toString cost ++ " is a negligible part of home cost " ++ toString home
  | tooExpensive cost limit => "cost " ++ toString cost ++ " exceeds limit " ++ toString limit
  | compiledTooLarge size limit =>
    "compiled size " ++ toString size ++ " exceeds limit " ++ toString limit
  | recursive depth => "recursive call unrolled " ++ toString depth ++ " times"
  | tooDeep depth => "inline depth " ++ toString depth ++ " too deep"
  | r => r.name

end Rejection

/-- Whether a callee is inlined. -/
inductive Decision
  /-- It is; `builtin` if only as a basic operation. -/
  | allowed (builtin : Bool)
  | rejected (why : Rejection)
  deriving DecidableEq

/-- A callee that might be inlined at a send. -/
structure Candidate where
  method : Method
  /-- The receiver class. -/
  receiver : ClassId
  /-- The arguments that are known to be blocks. -/
  blockArgs : Nat := 0
  /-- The cost of the home of a block. -/
  homeCost : Option Nat := none

/-- Whether a block makes up less of its home than a percentage. -/
def Candidate.isNegligible (k : Candidate) (percent cost homeCost : Nat) : Bool :=
  k.method.isBlock && cost * 100 < percent * homeCost

namespace Compiler

/-- The cost up to which a callee is inlined. -/
def sizeLimit (c : Compiler) (k : Candidate) : Except Fault Nat :=
  let s := c.settings.inlining
  let base := if k.method.isBlock then s.maxBlockCost else s.maxMethodCost
  Word.fit 32 (base.toNat + k.blockArgs % Word.size 32 * s.blockArgBonus.toNat)

/-- Whether a callee is a basic operation on a primitive receiver. -/
def isBuiltin (c : Compiler) (k : Candidate) : Bool :=
  k.receiver.isPrimitive &&
    c.settings.inlining.builtinSelectors.contains (c.classes.selectorName k.method.selector)

/-- The decision on a callee without a hint, by its cost. -/
def decideByCost (c : Compiler) (k : Candidate) : Except Fault Decision := do
  let cost ← k.method.cost
  match k.homeCost.filter (k.isNegligible c.settings.inlining.minBlockPercent.toNat cost) with
  | some homeCost => return .rejected (.blockTooSmall cost homeCost)
  | none =>
    let limit ← c.sizeLimit k
    return if cost ≤ limit then .allowed false
      else if c.isBuiltin k then .allowed true
      else .rejected (.tooExpensive cost limit)

/-- The decision on a callee. -/
def shouldInline (c : Compiler) (k : Candidate) : Except Fault Decision :=
  if c.settings.inlining.enabled then
    match k.method.hint with
    | .never => .ok (.rejected .neverInline)
    | .always => .ok (.allowed false)
    | .unspecified => c.decideByCost k
  else .ok (.rejected .disabled)

/-- The decision that is to be expected on a callee whose own code is filed
    under `key`: it must not be too large. -/
def wouldInline (c : Compiler) (k : Candidate) (key : LookupKey) : Except Fault Decision := do
  match ← c.shouldInline k with
  | .rejected why => return .rejected why
  | .allowed builtin =>
    let limit := c.settings.inlining.maxCompiledSize.toNat
    match (c.code.currentMethod? key).filter (limit < ·.size) with
    | some n => return .rejected (.compiledTooLarge n.size limit)
    | none => return .allowed builtin

end Compiler

end Warmup
