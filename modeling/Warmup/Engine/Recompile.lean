import Warmup.Engine.Send
import Warmup.Recompilation

/-!
# Invocations and recompilation

Every invocation of an activation is counted, by its method while it is
interpreted and by its code once it is compiled. A counter that reaches its
limit starts again at zero and asks for a recompilation.
-/

namespace Warmup

/-- What a request to recompile led to. -/
inductive Recompiled
  | compiled (n : NativeId) (key : LookupKey)
  | deferred (home : MethodId)
  | declined (why : Refusal)
  deriving DecidableEq

namespace Engine

/-- The engine after a request to recompile, by an activation. -/
def recompile (e : Engine) (p : ProcessId) (i : Nat) (trigger : Trigger) :
    Except Fault (Engine × Recompiled) := do
  match ← e.compiler.candidate e.processes p i trigger with
  | .recompile c =>
    let (e, n) ← e.compileAt c.key c.level
    let again := c.current.isSome || 1 < e.code.versionCount c.key
    let recompilations := e.tally.recompilations + if again then 1 else 0
    return ({ e with tally := { e.tally with recompilations := recompilations } },
      .compiled n c.key)
  | .deferred home =>
    let e := e.setCount home (e.invocationCount home + 1)
    return ({ e with tally := { e.tally with deferred := e.tally.deferred + 1 } }, .deferred home)
  | .declined why =>
    return ({ e with tally := { e.tally with declined := e.tally.declined + 1 } }, .declined why)

/-- The next state of a counter with a limit, and whether it has reached it. -/
def tick (count limit : Nat) : Nat × Bool :=
  if limit ≤ count + 1 then (0, true) else (count + 1, false)

/-- The engine with one invocation of an activation counted, and whether its
    counter has reached its limit. -/
def count (e : Engine) (a : Activation) (limit : Nat) : Except Fault (Engine × Bool) := do
  match a.native? with
  | some n =>
    let native ← e.code.get n
    let (ticks, full) := tick native.overflowCount limit
    let code := e.code.modify n fun m =>
      { m with invocations := Word.saturate 32 (m.invocations + 1), overflowCount := ticks }
    return ({ e with code := code }, full)
  | none =>
    let e ← if e.sites.hasFeedback a.method then pure e else e.link a.method
    let (ticks, full) := tick (e.invocationCount a.method) limit
    return (e.setCount a.method ticks, full)

/-- The engine after an invocation of an activation, and what came of it if a
    counter has reached its limit. -/
def invoke (e : Engine) (p : ProcessId) (i : Nat) : Outcome Engine (Option Recompiled) :=
  let counted : Except Fault (Engine × Bool) := do
    let a ← e.processes.frame p i
    e.count a (← e.settings.invocationLimit (e.traps.backoff a.key))
  match counted with
  | .error f => .fail e f
  | .ok (e, false) => .done e none
  | .ok (e, true) =>
    match e.recompile p i .counter with
    | .error f => .fail e f
    | .ok (e, r) => .done e (some r)

end Engine

end Warmup
