import Warmup.Handle
import Warmup.Text.Quoted

/-!
# Faults

Most that can go wrong in the machine is an ordinary result: a send that is not
understood, a callee that is not inlined, feedback that is missing. A `Fault`
is the rest, by its cause; `Fault.message` is its text.

`Fault.overflow` differs from all others: a number left its machine word, the
run is over, and no state is defined after it. Every other fault is reported
and the machine goes on from the state it has reached.
-/

namespace Warmup

/-- The class and selector names that stand for a lookup key outside the
    machine. -/
structure NamedKey where
  className : String
  selector : String
  deriving DecidableEq

/-- The text of a named key inside a message. -/
def NamedKey.describe (k : NamedKey) : String :=
  "DatabaseKey \x7b class: " ++ Text.quoted k.className ++ ", selector: " ++
    Text.quoted k.selector ++ " \x7d"

/-- What a handle was expected to name. -/
inductive HandleKind
  | cls
  | method
  | native
  | process
  | frame
  | callSite
  | trap
  deriving DecidableEq

/-- The word for a kind of handle. -/
def HandleKind.name : HandleKind → String
  | .cls => "class"
  | .method => "method"
  | .native => "native method"
  | .process => "process"
  | .frame => "frame"
  | .callSite => "call site"
  | .trap => "uncommon trap"

/-- Why the machine must stop. -/
inductive FatalCause
  | trapInScheduler
  | trapInInterpretedFrame
  | lookupInScheduler
  deriving DecidableEq

/-- The text of a fatal cause. -/
def FatalCause.text : FatalCause → String
  | .trapInScheduler => "uncommon trap fired in the scheduler context"
  | .trapInInterpretedFrame => "uncommon trap fired in an interpreted frame"
  | .lookupInScheduler => "lookup failed in the scheduler context"

/-- A setting that the machine cannot work with. -/
inductive SettingFault
  | tooFewEntries
  | notAPercentage
  | noFramesCrossed
  | interpretedExceedsAll
  | noInvocationLimit
  | limitBelowMinimum
  | noVersions
  | noTrapThreshold
  deriving DecidableEq

/-- The text of a faulty setting. -/
def SettingFault.text : SettingFault → String
  | .tooFewEntries => "ic.max_entries must be at least 2"
  | .notAPercentage => "inlining.min_block_cost_fraction is a percentage"
  | .noFramesCrossed => "recompile.max_frames_crossed must be positive"
  | .interpretedExceedsAll => "recompile.max_interpreted_frames_crossed exceeds max_frames_crossed"
  | .noInvocationLimit => "recompile.invocation_limit must be positive"
  | .limitBelowMinimum => "recompile.invocation_limit is below min_invocations_before_recompile"
  | .noVersions => "recompile.max_versions must be positive"
  | .noTrapThreshold => "trap.recompile_threshold must be positive"

/-- Why an operation has no result. -/
inductive Fault
  /-- A number left its machine word. -/
  | overflow
  /-- The machine must stop. -/
  | fatal (cause : FatalCause)
  /-- A handle names nothing. -/
  | unknown (kind : HandleKind) (index : Nat)
  /-- No method answers a send, given as `Class>>selector`. -/
  | notUnderstood (send : String)
  /-- A setting is out of range. -/
  | setting (cause : SettingFault)
  /-- A stored entry has an empty class or selector name. -/
  | unnamed (outer : NamedKey) (inner : Option NamedKey)
  /-- A text is not the JSON that was expected. -/
  | json
  /-- Bytes do not decode. -/
  | binary
  /-- A file could not be read. -/
  | file
  deriving DecidableEq

namespace Fault

/-- The text of a fault. -/
def message : Fault → String
  | overflow => "arithmetic overflow"
  | fatal cause => "FatalError: " ++ cause.text
  | unknown kind index => "InvalidHandle: unknown " ++ kind.name ++ " " ++ toString index
  | notUnderstood send => "LookupError: " ++ send ++ " not understood"
  | setting cause => "ConfigError: " ++ cause.text
  | unnamed outer inner =>
    "DatabaseError: entry with empty class or selector name: " ++ outer.describe ++ " / " ++
      match inner with
      | some k => "Some(" ++ k.describe ++ ")"
      | none => "None"
  | json => "malformed JSON"
  | binary => "malformed binary data"
  | file => "unreadable file"

/-- Whether the machine must stop. -/
def isFatal : Fault → Bool
  | fatal _ => true
  | _ => false

end Fault

/-- What an operation leaves behind: the state it has reached, also when it
    fails, and its result. -/
structure Outcome (σ α : Type) where
  state : σ
  result : Except Fault α

namespace Outcome

variable {σ α β : Type}

/-- An operation that succeeds. -/
def done (s : σ) (a : α) : Outcome σ α := ⟨s, .ok a⟩

/-- An operation that fails. -/
def fail (s : σ) (f : Fault) : Outcome σ α := ⟨s, .error f⟩

/-- A further operation, if the first one succeeds. -/
def andThen (o : Outcome σ α) (f : σ → α → Outcome σ β) : Outcome σ β :=
  match o.result with
  | .ok a => f o.state a
  | .error e => ⟨o.state, .error e⟩

end Outcome

end Warmup
