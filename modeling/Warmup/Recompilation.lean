import Warmup.InliningPolicy
import Warmup.ProcessTable

/-!
# The recompilation policy

When a method has run often enough, or has trapped too often, something should
be compiled, but rarely that method: a small method is better compiled as part
of its caller. The search for a candidate goes up the stack for as long as the
method would be inlined into its caller, within limits (`Compiler.ascend`). From
a block it goes to the block's home, and a method entered by a super send is
left to its caller.

* `Compiler.candidate`: the activation to compile, or why there is none;
* `Compiler.nextLevel`: whether code of a key may be compiled again, and at
  which level.
-/

namespace Warmup

/-- What asks for a recompilation. -/
inductive Trigger
  | counter
  | trap
  deriving DecidableEq

/-- Why code is not compiled again. -/
inductive Refusal
  | tooManyVersions (versions : Nat)
  | maxLevel (level : Nat)
  | tooYoung (invocations : Nat)
  deriving DecidableEq

namespace Refusal

/-- The word for a refusal. -/
def name : Refusal → String
  | tooManyVersions _ => "TooManyVersions"
  | maxLevel _ => "MaxLevel"
  | tooYoung _ => "TooYoung"

/-- The number that was out of range. -/
def number : Refusal → Nat
  | tooManyVersions n | maxLevel n | tooYoung n => n

/-- The text of a refusal. -/
def text : Refusal → String
  | tooManyVersions n => "already compiled " ++ toString n ++ " times"
  | maxLevel n => "already at optimization level " ++ toString n
  | tooYoung n => "only " ++ toString n ++ " invocations"

end Refusal

/-- An activation whose method is to be compiled. -/
structure Choice where
  frame : Nat
  key : LookupKey
  method : MethodId
  /-- The current code of the key. -/
  current : Option NativeId
  /-- The level to compile at. -/
  level : Nat
  deriving DecidableEq

/-- What becomes of a request to recompile. -/
inductive Verdict
  | recompile (c : Choice)
  /-- The home of a block is not on the stack, and only counts an invocation. -/
  | deferred (home : MethodId)
  | declined (why : Refusal)
  deriving DecidableEq

namespace Compiler

variable (c : Compiler)

/-- The level at which code of a key is compiled next, or why it is not: there
    must not be too many versions; current code must not be optimized fully
    already, unless it traps, and must have run often enough. Without current
    code it is the highest level so far. -/
def nextLevel (key : LookupKey) (trigger : Trigger) : Except Fault (Except Refusal Nat) := do
  let s := c.settings.recompile
  let versions := c.code.versionCount key
  if s.maxVersions.toNat ≤ versions then return .error (.tooManyVersions versions)
  match c.code.currentMethod? key with
  | some n =>
    if trigger = .counter ∧ s.maxLevel.toNat ≤ n.level then return .error (.maxLevel n.level)
    if n.invocations < s.minInvocations.toNat then return .error (.tooYoung n.invocations)
    return .ok (min (← Word.fit 8 (n.level + 1)) s.maxLevel.toNat)
  | none =>
    let levels := (c.code.methods.filter (·.key = key)).map (·.level)
    return .ok (min (max (levels.max?.getD 1) 1) (max s.maxLevel.toNat 1))

/-- Whether the method of an activation would be inlined into its caller. -/
def inlinesActivation (a : Activation) : Except Fault Bool := do
  match c.classes.method? a.method with
  | none => return false
  | some m =>
    let homeCost ← (m.home.bind c.classes.method?).mapM Method.cost
    match ← c.wouldInline { method := m, receiver := a.key.cls, homeCost := homeCost } a.key with
    | .allowed _ => return true
    | .rejected _ => return false

/-- Whether the search may go on to a caller, having crossed `interpreted`
    interpreted activations. It may not if the caller is optimized fully, or if
    there is newer code than the caller runs. -/
def maySearch (caller : Activation) (interpreted : Nat) : Bool :=
  match caller.execution with
  | .compiled n _ =>
    match c.code.get? n with
    | none => false
    | some e => e.level < c.settings.recompile.maxLevel.toNat && !c.code.isNewerThan caller.key n
  | .interpreted =>
    interpreted + 1 ≤ c.settings.recompile.maxInterpretedCrossed.toNat &&
      (c.code.current? caller.key).isNone

/-- Where the search ends: at an activation, or at a block without its home on
    the stack. -/
inductive Ascent
  | frame (i : Nat)
  | orphan (home : MethodId)

/-- The method that a block without its home on the stack counts for. -/
def orphanHome (a : Activation) : MethodId :=
  ((c.classes.method? a.method).bind (·.home)).getD a.method

/-- The search from activation `i` on, which takes at most `steps` steps. -/
def ascend (stack : List Activation) : Nat → Nat → Nat → Nat → Except Fault Ascent
  | 0, i, _, _ => .ok (.frame i)
  | steps + 1, i, crossed, interpreted =>
    match stack[i]? with
    | none => .ok (.frame i)
    | some a =>
      if a.isBlock then
        match a.home.bind fun h => creator? stack h i with
        | some home => ascend stack steps home crossed interpreted
        | none => .ok (.orphan (c.orphanHome a))
      else
        match i with
        | 0 => .ok (.frame 0)
        | j + 1 => do
          if !(← c.inlinesActivation a) || c.settings.recompile.maxCrossed.toNat < crossed + 1 then
            return .frame (j + 1)
          match stack[j]?.filter (c.maySearch · interpreted) with
          | none => return .frame (j + 1)
          | some caller =>
            ascend stack steps j (crossed + 1)
              (if caller.isCompiled then interpreted else interpreted + 1)

/-- The nearest activation at or below `i` that was not entered by a super send,
    or the oldest one. -/
def belowSupers (stack : List Activation) : Nat → Nat
  | 0 => 0
  | i + 1 => if stack[i + 1]?.any (·.superSend) then belowSupers stack i else i + 1

/-- The activation to compile, for a request by activation `start`. -/
def candidate (t : ProcessTable) (p : ProcessId) (start : Nat) (trigger : Trigger) :
    Except Fault Verdict := do
  let stack ← t.stack p
  let _ ← t.frame p start
  match ← c.ascend stack (start + 1) start 0 0 with
  | .orphan home => return .deferred home
  | .frame i =>
    let j := belowSupers stack i
    let a ← t.frame p j
    match ← c.nextLevel a.key trigger with
    | .ok level => return .recompile ⟨j, a.key, a.method, c.code.current? a.key, level⟩
    | .error why => return .declined why

end Compiler

end Warmup
