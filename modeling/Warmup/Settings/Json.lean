import Warmup.Settings
import Warmup.Json.Reader
import Warmup.Json.Record
import Warmup.Json.Writer

/-!
# Settings as JSON

Settings are a record of five groups, each a record of its own. Reading takes
defaults for what is missing and validates the result (`ofText`); writing gives
every field in order (`toText`).
-/

namespace Warmup.Settings

open Warmup.Json

/-! ## Reading -/

/-- The fields of the inline cache settings. -/
def Caches.names : List String := ["max_entries", "pic_space_capacity", "megamorphic_stubs_enabled"]

/-- The inline cache settings that some fields give. -/
def Caches.ofFields (fields : List (String × Value)) : Option Caches := do
  let base : Caches := {}
  return {
    maxEntries := ← optional fields "max_entries" Value.asWord64 base.maxEntries
    picCapacity := ← optional fields "pic_space_capacity" Value.asWord64 base.picCapacity
    megamorphicStubs :=
      ← optional fields "megamorphic_stubs_enabled" Value.asBool base.megamorphicStubs }

/-- The inline cache settings that a value gives. -/
def Caches.ofJson (v : Value) : Option Caches := (v.record names).bind ofFields

/-- The fields of the type feedback settings. -/
def Feedback.names : List String :=
  ["type_feedback", "untrusted_pic_limit", "pic_trust_limit", "min_invocations_before_trust",
    "max_rewalk_age", "max_scope_depth", "hot_arithmetic_selectors"]

/-- The type feedback settings that some fields give. -/
def Feedback.ofFields (fields : List (String × Value)) : Option Feedback := do
  let base : Feedback := {}
  return {
    enabled := ← optional fields "type_feedback" Value.asBool base.enabled
    untrustedLimit := ← optional fields "untrusted_pic_limit" Value.asWord64 base.untrustedLimit
    trustLimit := ← optional fields "pic_trust_limit" Value.asWord64 base.trustLimit
    minInvocations :=
      ← optional fields "min_invocations_before_trust" Value.asWord32 base.minInvocations
    maxRewalkAge := ← optional fields "max_rewalk_age" Value.asWord64 base.maxRewalkAge
    maxDepth := ← optional fields "max_scope_depth" Value.asWord32 base.maxDepth
    hotSelectors :=
      ← optional fields "hot_arithmetic_selectors" (Value.asList Value.asString)
          base.hotSelectors }

/-- The type feedback settings that a value gives. -/
def Feedback.ofJson (v : Value) : Option Feedback := (v.record names).bind ofFields

/-- The fields of the inlining settings. -/
def Inlining.names : List String :=
  ["enabled", "max_method_inline_cost", "max_block_inline_cost",
    "block_arg_additional_allowed_inline_cost",
    "min_block_cost_fraction", "max_recursion_unroll", "max_inline_depth",
    "max_compiled_inline_size", "counting_sends", "use_uncommon_traps", "builtin_selectors"]

/-- The inlining settings that some fields give. -/
def Inlining.ofFields (fields : List (String × Value)) : Option Inlining := do
  let base : Inlining := {}
  return {
    enabled := ← optional fields "enabled" Value.asBool base.enabled
    maxMethodCost := ← optional fields "max_method_inline_cost" Value.asWord32 base.maxMethodCost
    maxBlockCost := ← optional fields "max_block_inline_cost" Value.asWord32 base.maxBlockCost
    blockArgBonus := ←
      optional fields "block_arg_additional_allowed_inline_cost" Value.asWord32 base.blockArgBonus
    minBlockPercent :=
      ← optional fields "min_block_cost_fraction" Value.asWord32 base.minBlockPercent
    maxUnroll := ← optional fields "max_recursion_unroll" Value.asWord64 base.maxUnroll
    maxDepth := ← optional fields "max_inline_depth" Value.asWord64 base.maxDepth
    maxCompiledSize :=
      ← optional fields "max_compiled_inline_size" Value.asWord32 base.maxCompiledSize
    countingSends := ← optional fields "counting_sends" Value.asBool base.countingSends
    uncommonTraps := ← optional fields "use_uncommon_traps" Value.asBool base.uncommonTraps
    builtinSelectors := ←
      optional fields "builtin_selectors" (Value.asList Value.asString) base.builtinSelectors }

/-- The inlining settings that a value gives. -/
def Inlining.ofJson (v : Value) : Option Inlining := (v.record names).bind ofFields

/-- The fields of the recompilation settings. -/
def Recompile.names : List String :=
  ["max_interpreted_frames_crossed", "max_frames_crossed", "max_versions", "max_optimization_level",
    "min_invocations_before_recompile", "invocation_limit", "max_backoff"]

/-- The recompilation settings that some fields give. -/
def Recompile.ofFields (fields : List (String × Value)) : Option Recompile := do
  let base : Recompile := {}
  return {
    maxInterpretedCrossed :=
      ← optional fields "max_interpreted_frames_crossed" Value.asWord64 base.maxInterpretedCrossed
    maxCrossed := ← optional fields "max_frames_crossed" Value.asWord64 base.maxCrossed
    maxVersions := ← optional fields "max_versions" Value.asWord16 base.maxVersions
    maxLevel := ← optional fields "max_optimization_level" Value.asWord8 base.maxLevel
    minInvocations :=
      ← optional fields "min_invocations_before_recompile" Value.asWord32 base.minInvocations
    invocationLimit := ← optional fields "invocation_limit" Value.asWord32 base.invocationLimit
    maxBackoff := ← optional fields "max_backoff" Value.asWord32 base.maxBackoff }

/-- The recompilation settings that a value gives. -/
def Recompile.ofJson (v : Value) : Option Recompile := (v.record names).bind ofFields

/-- The fields of the trap settings. -/
def Traps.names : List String := ["recompile_threshold"]

/-- The trap settings that some fields give. -/
def Traps.ofFields (fields : List (String × Value)) : Option Traps := do
  let base : Traps := {}
  return { threshold := ← optional fields "recompile_threshold" Value.asWord32 base.threshold }

/-- The trap settings that a value gives. -/
def Traps.ofJson (v : Value) : Option Traps := (v.record names).bind ofFields

/-- The groups of settings. -/
def names : List String := ["ic", "feedback", "inlining", "recompile", "trap"]

/-- The settings that some groups give, not yet validated. -/
def ofFields (fields : List (String × Value)) : Option Settings := do
  return {
    caches := ← optional fields "ic" Caches.ofJson {}
    feedback := ← optional fields "feedback" Feedback.ofJson {}
    inlining := ← optional fields "inlining" Inlining.ofJson {}
    recompile := ← optional fields "recompile" Recompile.ofJson {}
    traps := ← optional fields "trap" Traps.ofJson {} }

/-- The settings that a value gives, not yet validated. -/
def ofJson (v : Value) : Option Settings := (v.record names).bind ofFields

/-- The settings that a text gives, not yet validated. -/
def parse (text : String) : Except Fault Settings :=
  match (read text).bind ofJson with
  | some s => .ok s
  | none => .error .json

/-- The settings that a text gives. -/
def ofText (text : String) : Except Fault Settings := do validate (← parse text)

/-! ## Writing -/

/-- A record with all its fields. -/
def recordOf (fields : List (String × Value)) : Value :=
  .object (fields.map fun f => (some f.1, f.2))

/-- A list of strings. -/
def stringsOf (ss : List String) : Value := .array (ss.map .string)

/-- The record of the inline cache settings. -/
def Caches.toJson (s : Caches) : Value :=
  recordOf [
    ("max_entries", .natural s.maxEntries.toNat),
    ("pic_space_capacity", .natural s.picCapacity.toNat),
    ("megamorphic_stubs_enabled", .bool s.megamorphicStubs)]

/-- The record of the type feedback settings. -/
def Feedback.toJson (s : Feedback) : Value :=
  recordOf [
    ("type_feedback", .bool s.enabled),
    ("untrusted_pic_limit", .natural s.untrustedLimit.toNat),
    ("pic_trust_limit", .natural s.trustLimit.toNat),
    ("min_invocations_before_trust", .natural s.minInvocations.toNat),
    ("max_rewalk_age", .natural s.maxRewalkAge.toNat),
    ("max_scope_depth", .natural s.maxDepth.toNat),
    ("hot_arithmetic_selectors", stringsOf s.hotSelectors)]

/-- The record of the inlining settings. -/
def Inlining.toJson (s : Inlining) : Value :=
  recordOf [
    ("enabled", .bool s.enabled),
    ("max_method_inline_cost", .natural s.maxMethodCost.toNat),
    ("max_block_inline_cost", .natural s.maxBlockCost.toNat),
    ("block_arg_additional_allowed_inline_cost", .natural s.blockArgBonus.toNat),
    ("min_block_cost_fraction", .natural s.minBlockPercent.toNat),
    ("max_recursion_unroll", .natural s.maxUnroll.toNat),
    ("max_inline_depth", .natural s.maxDepth.toNat),
    ("max_compiled_inline_size", .natural s.maxCompiledSize.toNat),
    ("counting_sends", .bool s.countingSends),
    ("use_uncommon_traps", .bool s.uncommonTraps),
    ("builtin_selectors", stringsOf s.builtinSelectors)]

/-- The record of the recompilation settings. -/
def Recompile.toJson (s : Recompile) : Value :=
  recordOf [
    ("max_interpreted_frames_crossed", .natural s.maxInterpretedCrossed.toNat),
    ("max_frames_crossed", .natural s.maxCrossed.toNat),
    ("max_versions", .natural s.maxVersions.toNat),
    ("max_optimization_level", .natural s.maxLevel.toNat),
    ("min_invocations_before_recompile", .natural s.minInvocations.toNat),
    ("invocation_limit", .natural s.invocationLimit.toNat),
    ("max_backoff", .natural s.maxBackoff.toNat)]

/-- The record of the trap settings. -/
def Traps.toJson (s : Traps) : Value :=
  recordOf [("recompile_threshold", .natural s.threshold.toNat)]

/-- The record of all settings. -/
def toJson (s : Settings) : Value :=
  recordOf [
    ("ic", s.caches.toJson),
    ("feedback", s.feedback.toJson),
    ("inlining", s.inlining.toJson),
    ("recompile", s.recompile.toJson),
    ("trap", s.traps.toJson)]

/-- The text of all settings. -/
def toText (s : Settings) : String := write s.toJson

end Warmup.Settings
