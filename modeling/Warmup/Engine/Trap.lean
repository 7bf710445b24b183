import Warmup.Deoptimization
import Warmup.Engine.Recompile

/-!
# Traps

A trap that fires is marked as used, and its activation is deoptimized. Code
that has trapped often enough is made invalid: the sends whose traps were used
are compiled as sends from then on, and its key waits longer for its next
compilation.
-/

namespace Warmup

/-- The code that traps have made invalid. -/
structure Retired where
  native : NativeId
  key : LookupKey
  /-- The sends at which no trap may stand again. -/
  disabled : List (MethodId × Bci)
  backoff : Nat
  deriving DecidableEq

/-- What a trap led to. -/
structure Fired where
  /-- The trap had not fired before. -/
  patched : Bool
  trapCount : Nat
  deoptimized : Deoptimized
  retired : Option Retired
  deriving DecidableEq

namespace NativeMethod

/-- The code with a trap that is used and counted. -/
def patch (n : NativeMethod) (trap : Nat) (count : Nat) : NativeMethod :=
  { n with traps := n.traps.modify trap fun s => { s with used := true }, trapCount := count }

/-- The sends whose traps were used. -/
def usedTraps (n : NativeMethod) : List (MethodId × Bci) :=
  (n.traps.filter (·.used)).filterMap fun s => (n.scope? s.scope).map fun d => (d.method, s.bci)

end NativeMethod

namespace Engine

/-- The engine in which code that has trapped too often is invalid, if it is
    so. -/
def retire (e : Engine) (n : NativeMethod) : Engine × Option Retired :=
  if e.settings.traps.threshold.toNat ≤ n.trapCount ∧ n.isValid then
    let disabled := n.usedTraps
    let traps := (disabled.foldl (fun h d => h.disable d.1 d.2) e.traps).bump n.key
      e.settings.recompile.maxBackoff.toNat
    ({ e with traps := traps, code := (e.code.invalidate n.id).2 },
      some ⟨n.id, n.key, disabled, traps.backoff n.key⟩)
  else (e, none)

/-- The code of the activation in which a trap fires, and the trap. -/
def firing (e : Engine) (p : ProcessId) (i trap : Nat) : Except Fault (NativeMethod × TrapSite) := do
  if e.processes.inScheduler then .error (.fatal .trapInScheduler)
  match (← e.processes.frame p i).native? with
  | none => .error (.fatal .trapInInterpretedFrame)
  | some id =>
    let n ← e.code.get id
    match n.traps[trap]? with
    | none => .error (.unknown .trap trap)
    | some s => return (n, s)

/-- The engine after a trap has fired in an activation. -/
def fire (e : Engine) (p : ProcessId) (i trap : Nat) : Outcome Engine Fired :=
  let fired : Except Fault (NativeMethod × Bool) := do
    let (n, s) ← e.firing p i trap
    return (n.patch trap (← Word.fit 32 (n.trapCount + 1)), !s.used)
  match fired with
  | .error f => .fail e f
  | .ok (n, patched) =>
    let (e, retired) := { e with code := e.code.modify n.id fun _ => n }.retire n
    let o := e.processes.deoptimize e.code p i
    let e := { e with processes := o.state }
    match o.result with
    | .error f => .fail e f
    | .ok deoptimized => .done e ⟨patched, n.trapCount, deoptimized, retired⟩

/-- The engine after a trap has fired and code that has trapped too often was
    compiled again, with what came of that. -/
def uncommonTrap (e : Engine) (p : ProcessId) (i trap : Nat) :
    Outcome Engine (Fired × Option Recompiled) :=
  (e.fire p i trap).andThen fun e fired =>
    let e := { e with tally := { e.tally with traps := e.tally.traps + 1 } }
    match fired.retired with
    | none => .done e (fired, none)
    | some _ =>
      match e.recompile p i .trap with
      | .error f => .fail e f
      | .ok (e, r) => .done e (fired, some r)

end Engine

end Warmup
