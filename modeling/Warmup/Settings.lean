import Warmup.Word

/-!
# Settings

Every threshold the machine consults, in five groups: inline caches, type
feedback, inlining, recompilation and traps. A field's type is the word it is
stored in. `Settings.validate` names the first setting that the machine cannot
work with; `Settings.invocationLimit` is the number of invocations that leads
to a compilation, which doubles with every trap-driven recompilation.
-/

namespace Warmup

namespace Settings

/-- Inline caches. -/
structure Caches where
  /-- Classes a cache distinguishes before it goes megamorphic. -/
  maxEntries : UInt64 := 4
  /-- Entries of polymorphic caches that may be alive at once. -/
  picCapacity : UInt64 := 65536
  /-- Whether a cache may go megamorphic at all. -/
  megamorphicStubs : Bool := true
  deriving DecidableEq

/-- Type feedback. -/
structure Feedback where
  /-- Whether earlier executions are consulted. -/
  enabled : Bool := true
  /-- Largest cache that counts while its caller is not trusted. -/
  untrustedLimit : UInt64 := 1
  /-- Largest cache that counts once its caller is trusted. -/
  trustLimit : UInt64 := 4
  /-- Invocations after which a native method is trusted. -/
  minInvocations : UInt32 := 10
  /-- Compilations after which a native method is too old to be walked again. -/
  maxRewalkAge : UInt64 := 1000
  /-- Nesting of callees that are walked. -/
  maxDepth : UInt32 := 4
  /-- Selectors whose single observed class always counts. -/
  hotSelectors : List String := ["+", "-", "*", "//", "\\\\", "<", "<=", ">", ">=", "=", "~="]
  deriving DecidableEq

/-- Inlining. -/
structure Inlining where
  /-- Whether anything is inlined. -/
  enabled : Bool := true
  /-- Cost up to which a method is inlined. -/
  maxMethodCost : UInt32 := 40
  /-- Cost up to which a block is inlined. -/
  maxBlockCost : UInt32 := 60
  /-- Cost allowed in addition per argument that is a block. -/
  blockArgBonus : UInt32 := 20
  /-- Percentage of its home's cost that a block must reach. -/
  minBlockPercent : UInt32 := 5
  /-- Further occurrences of one callee on a chain of inlined scopes. -/
  maxUnroll : UInt64 := 1
  /-- Nesting of inlined scopes. -/
  maxDepth : UInt64 := 8
  /-- Compiled size up to which the recompiler expects inlining. -/
  maxCompiledSize : UInt32 := 400
  /-- Whether real sends count their invocations. -/
  countingSends : Bool := true
  /-- Whether a branch never taken may become a trap. -/
  uncommonTraps : Bool := true
  /-- Selectors inlined on primitive receivers whatever they cost. -/
  builtinSelectors : List String :=
    ["+", "-", "*", "<", "<=", ">", ">=", "=", "~=", "at:", "at:put:",
      "size", "ifTrue:", "ifFalse:", "ifTrue:ifFalse:", "and:", "or:", "not"]
  deriving DecidableEq

/-- Recompilation. -/
structure Recompile where
  /-- Interpreted frames that the search for a candidate may cross. -/
  maxInterpretedCrossed : UInt64 := 3
  /-- Frames that the search for a candidate may cross. -/
  maxCrossed : UInt64 := 8
  /-- Versions of one method. -/
  maxVersions : UInt16 := 4
  /-- Highest optimization level. -/
  maxLevel : UInt8 := 2
  /-- Invocations before native code may be recompiled. -/
  minInvocations : UInt32 := 100
  /-- Invocations that lead to a compilation. -/
  invocationLimit : UInt32 := 10000
  /-- Largest exponent by which the invocation limit grows. -/
  maxBackoff : UInt32 := 4
  deriving DecidableEq

/-- Uncommon traps. -/
structure Traps where
  /-- Firings in one native method that lead to its recompilation. -/
  threshold : UInt32 := 3
  deriving DecidableEq

end Settings

/-- All settings of a machine. -/
structure Settings where
  caches : Settings.Caches := {}
  feedback : Settings.Feedback := {}
  inlining : Settings.Inlining := {}
  recompile : Settings.Recompile := {}
  traps : Settings.Traps := {}
  deriving DecidableEq

namespace Settings

/-! ## Presets -/

/-- Little inlining, little trust. -/
def conservative : Settings where
  feedback := { trustLimit := 2, maxDepth := 2 }
  inlining := { maxMethodCost := 20, maxBlockCost := 30, maxDepth := 3, uncommonTraps := false }

/-- Deep inlining and eager traps. -/
def aggressive : Settings where
  feedback := { untrustedLimit := 2, maxDepth := 8 }
  inlining := { maxMethodCost := 120, maxBlockCost := 160, maxDepth := 16, maxUnroll := 2 }
  traps := { threshold := 5 }

/-! ## Validation -/

/-- The first setting the machine cannot work with, if there is one. -/
def fault? (s : Settings) : Option SettingFault :=
  if s.caches.maxEntries < 2 then some .tooFewEntries
  else if s.inlining.minBlockPercent > 100 then some .notAPercentage
  else if s.recompile.maxCrossed = 0 then some .noFramesCrossed
  else if s.recompile.maxInterpretedCrossed > s.recompile.maxCrossed then
    some .interpretedExceedsAll
  else if s.recompile.invocationLimit = 0 then some .noInvocationLimit
  else if s.recompile.invocationLimit < s.recompile.minInvocations then some .limitBelowMinimum
  else if s.recompile.maxVersions = 0 then some .noVersions
  else if s.traps.threshold = 0 then some .noTrapThreshold
  else none

/-- The settings, if the machine can work with them. -/
def validate (s : Settings) : Except Fault Settings :=
  match s.fault? with
  | some cause => .error (.setting cause)
  | none => .ok s

/-! ## The invocation limit -/

/-- The invocations that lead to a compilation after `backoff` trap-driven
    recompilations: the limit doubles with each, up to the largest exponent,
    and stays at the largest word. An exponent of 32 or more is an overflow. -/
def invocationLimit (s : Settings) (backoff : Nat) : Except Fault Nat :=
  let shift := min backoff s.recompile.maxBackoff.toNat
  if shift < 32 then .ok (Word.saturate 32 (s.recompile.invocationLimit.toNat * Word.size shift))
  else .error .overflow

end Settings

end Warmup
