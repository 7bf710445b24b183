import Warmup.Proofs.JsonRecords
import Warmup.Proofs.JsonText
import Warmup.Settings.Json

/-!
# The text of settings

A setting is a named value together with the place that it overwrites
(`Setting`). An object spells some settings (`Spells`) if its known fields are
theirs, in any order and with anything between them. A field that is read
overwrites its place in what the fields before it give (`Reads`), so an object gives
the defaults with the settings that it spells (`Spells.ofRecord`).
-/

namespace Warmup.Settings

open Json

/-! ## Settings and how they are spelled -/

/-- A field of a record `σ` with a value: how it is written, and what it overwrites. -/
structure Setting (σ : Type) where
  name : String
  value : Value
  assign : σ → σ

variable {σ : Type}

/-- The record with some settings overwritten. -/
def overwrite (base : σ) (given : List (Setting σ)) : σ := given.foldl (fun s x => x.assign s) base

/-- The fields of an object spell different settings if they are those settings,
    in their order, with other fields among them that do not have known names. -/
structure Spells (P : Setting σ → Prop) (names : List String) (given : List (Setting σ))
    (fields : List (String × Value)) : Prop where
  settable : ∀ x ∈ given, P x
  once : (given.map Setting.name).Nodup
  known_eq : known names fields = given.map fun x => (x.name, x.value)

/-- The inline cache settings. -/
inductive Caches.Settable : Setting Caches → Prop
  | maxEntries (n : UInt64) :
    Settable ⟨"max_entries", .natural n.toNat, fun s => { s with maxEntries := n }⟩
  | picCapacity (n : UInt64) :
    Settable ⟨"pic_space_capacity", .natural n.toNat, fun s => { s with picCapacity := n }⟩
  | megamorphicStubs (b : Bool) :
    Settable ⟨"megamorphic_stubs_enabled", .bool b, fun s => { s with megamorphicStubs := b }⟩

/-- The type feedback settings. -/
inductive Feedback.Settable : Setting Feedback → Prop
  | enabled (b : Bool) : Settable ⟨"type_feedback", .bool b, fun s => { s with enabled := b }⟩
  | untrustedLimit (n : UInt64) :
    Settable ⟨"untrusted_pic_limit", .natural n.toNat, fun s => { s with untrustedLimit := n }⟩
  | trustLimit (n : UInt64) :
    Settable ⟨"pic_trust_limit", .natural n.toNat, fun s => { s with trustLimit := n }⟩
  | minInvocations (n : UInt32) :
    Settable
      ⟨"min_invocations_before_trust", .natural n.toNat, fun s => { s with minInvocations := n }⟩
  | maxRewalkAge (n : UInt64) :
    Settable ⟨"max_rewalk_age", .natural n.toNat, fun s => { s with maxRewalkAge := n }⟩
  | maxDepth (n : UInt32) :
    Settable ⟨"max_scope_depth", .natural n.toNat, fun s => { s with maxDepth := n }⟩
  | hotSelectors (ss : List String) :
    Settable ⟨"hot_arithmetic_selectors", stringsOf ss, fun s => { s with hotSelectors := ss }⟩

/-- The inlining settings. -/
inductive Inlining.Settable : Setting Inlining → Prop
  | enabled (b : Bool) : Settable ⟨"enabled", .bool b, fun s => { s with enabled := b }⟩
  | maxMethodCost (n : UInt32) :
    Settable ⟨"max_method_inline_cost", .natural n.toNat, fun s => { s with maxMethodCost := n }⟩
  | maxBlockCost (n : UInt32) :
    Settable ⟨"max_block_inline_cost", .natural n.toNat, fun s => { s with maxBlockCost := n }⟩
  | blockArgBonus (n : UInt32) :
    Settable ⟨"block_arg_additional_allowed_inline_cost", .natural n.toNat,
      fun s => { s with blockArgBonus := n }⟩
  | minBlockPercent (n : UInt32) :
    Settable ⟨"min_block_cost_fraction", .natural n.toNat, fun s => { s with minBlockPercent := n }⟩
  | maxUnroll (n : UInt64) :
    Settable ⟨"max_recursion_unroll", .natural n.toNat, fun s => { s with maxUnroll := n }⟩
  | maxDepth (n : UInt64) :
    Settable ⟨"max_inline_depth", .natural n.toNat, fun s => { s with maxDepth := n }⟩
  | maxCompiledSize (n : UInt32) :
    Settable
      ⟨"max_compiled_inline_size", .natural n.toNat, fun s => { s with maxCompiledSize := n }⟩
  | countingSends (b : Bool) :
    Settable ⟨"counting_sends", .bool b, fun s => { s with countingSends := b }⟩
  | uncommonTraps (b : Bool) :
    Settable ⟨"use_uncommon_traps", .bool b, fun s => { s with uncommonTraps := b }⟩
  | builtinSelectors (ss : List String) :
    Settable ⟨"builtin_selectors", stringsOf ss, fun s => { s with builtinSelectors := ss }⟩

/-- The recompilation settings. -/
inductive Recompile.Settable : Setting Recompile → Prop
  | maxInterpretedCrossed (n : UInt64) :
    Settable ⟨"max_interpreted_frames_crossed", .natural n.toNat,
      fun s => { s with maxInterpretedCrossed := n }⟩
  | maxCrossed (n : UInt64) :
    Settable ⟨"max_frames_crossed", .natural n.toNat, fun s => { s with maxCrossed := n }⟩
  | maxVersions (n : UInt16) :
    Settable ⟨"max_versions", .natural n.toNat, fun s => { s with maxVersions := n }⟩
  | maxLevel (n : UInt8) :
    Settable ⟨"max_optimization_level", .natural n.toNat, fun s => { s with maxLevel := n }⟩
  | minInvocations (n : UInt32) :
    Settable ⟨"min_invocations_before_recompile", .natural n.toNat,
      fun s => { s with minInvocations := n }⟩
  | invocationLimit (n : UInt32) :
    Settable ⟨"invocation_limit", .natural n.toNat, fun s => { s with invocationLimit := n }⟩
  | maxBackoff (n : UInt32) :
    Settable ⟨"max_backoff", .natural n.toNat, fun s => { s with maxBackoff := n }⟩

/-- The trap settings. -/
inductive Traps.Settable : Setting Traps → Prop
  | threshold (n : UInt32) :
    Settable ⟨"recompile_threshold", .natural n.toNat, fun s => { s with threshold := n }⟩

/-- The groups of settings, each spelled by an object of its own. -/
inductive Settable : Setting Settings → Prop
  | caches {given fields} (h : Spells Caches.Settable Caches.names given fields) :
    Settable ⟨"ic", recordOf fields, fun s => { s with caches := overwrite {} given }⟩
  | feedback {given fields} (h : Spells Feedback.Settable Feedback.names given fields) :
    Settable ⟨"feedback", recordOf fields, fun s => { s with feedback := overwrite {} given }⟩
  | inlining {given fields} (h : Spells Inlining.Settable Inlining.names given fields) :
    Settable ⟨"inlining", recordOf fields, fun s => { s with inlining := overwrite {} given }⟩
  | recompile {given fields} (h : Spells Recompile.Settable Recompile.names given fields) :
    Settable ⟨"recompile", recordOf fields, fun s => { s with recompile := overwrite {} given }⟩
  | traps {given fields} (h : Spells Traps.Settable Traps.names given fields) :
    Settable ⟨"trap", recordOf fields, fun s => { s with traps := overwrite {} given }⟩

/-! ## Reading a field -/

@[simp] theorem asWord8_natural (n : UInt8) : (Value.natural n.toNat).asWord8 = some n := by
  rw [Value.asWord8, Value.asBelow, if_pos n.toNat_lt_size, Option.map_some, UInt8.ofNat_toNat]

@[simp] theorem asWord16_natural (n : UInt16) : (Value.natural n.toNat).asWord16 = some n := by
  rw [Value.asWord16, Value.asBelow, if_pos n.toNat_lt_size, Option.map_some, UInt16.ofNat_toNat]

@[simp] theorem asWord32_natural (n : UInt32) : (Value.natural n.toNat).asWord32 = some n := by
  rw [Value.asWord32, Value.asBelow, if_pos n.toNat_lt_size, Option.map_some, UInt32.ofNat_toNat]

@[simp] theorem asWord64_natural (n : UInt64) : (Value.natural n.toNat).asWord64 = some n := by
  rw [Value.asWord64, Value.asBelow, if_pos n.toNat_lt_size, Option.map_some, UInt64.ofNat_toNat]

@[simp] theorem asBool_bool (b : Bool) : (Value.bool b).asBool = some b := rfl

@[simp] theorem asStrings_stringsOf (ss : List String) :
    (stringsOf ss).asList Value.asString = some ss :=
  mapM_map_eq_some fun _ _ => rfl

/-- A new field is read from its value, and others from the fields before it. -/
theorem optional_concat {α : Type} {fields : List (String × Value)} {x : String}
    (h : x ∉ fields.map Prod.fst) (v : Value) (name : String) (decode : Value → Option α) (d : α) :
    Json.optional (fields ++ [(x, v)]) name decode d =
      if name = x then decode v else Json.optional fields name decode d := by
  rw [Json.optional, List.lookup_append, List.lookup_cons]
  by_cases hname : name = x
  · rw [if_pos hname, hname, lookup_eq_none_of_notMem h, beq_self_eq_true]
    rfl
  · rw [if_neg hname, beq_false_of_ne hname, List.lookup_nil, Option.or_none, Json.optional]

/-! ## Reading field after field -/

/-- What a record reads from no fields, and how one more field changes that. -/
structure Reads (P : Setting σ → Prop) (ofFields : List (String × Value) → Option σ) (base : σ) :
    Prop where
  nil : ofFields [] = some base
  concat {x : Setting σ} (hx : P x) {fields : List (String × Value)}
    (hnew : x.name ∉ fields.map Prod.fst) {s : σ}
    (hs : ofFields fields = some s) : ofFields (fields ++ [(x.name, x.value)]) = some (x.assign s)

section

variable {P : Setting σ → Prop} {ofFields : List (String × Value) → Option σ} {base : σ}
  {names : List String} {given : List (Setting σ)} {fields : List (String × Value)}

/-- Fields are read into their places one by one. -/
theorem Reads.ofFields_append (h : Reads P ofFields base) {s : σ} (hs : ofFields fields = some s)
    (hsettable : ∀ x ∈ given, P x) (honce : (fields.map Prod.fst ++ given.map Setting.name).Nodup) :
    ofFields (fields ++ given.map fun x => (x.name, x.value)) = some (overwrite s given) := by
  induction given generalizing fields s with
  | nil => rwa [List.map_nil, List.append_nil]
  | cons x given ih =>
    rw [List.map_cons, List.append_cons] at honce
    have hnew : x.name ∉ fields.map Prod.fst := fun hmem =>
      (List.nodup_append.1 (List.nodup_append.1 honce).1).2.2 _ hmem _
        (List.mem_singleton_self _) rfl
    have hstep := h.concat (hsettable x List.mem_cons_self) hnew hs
    rw [List.map_cons, List.append_cons]
    refine ih hstep (fun y hy => hsettable y (List.mem_cons_of_mem x hy)) ?_
    rwa [List.map_append]

/-- An object gives the defaults with the settings that it spells. -/
theorem Spells.ofRecord (hspells : Spells P names given fields) (h : Reads P ofFields base) :
    ((recordOf fields).record names).bind ofFields = some (overwrite base given) := by
  have hnodup : ((known names fields).map Prod.fst).Nodup := by
    rw [hspells.known_eq, List.map_map]
    exact hspells.once
  rw [recordOf, record_object, if_pos hnodup, Option.bind_some, hspells.known_eq]
  exact h.ofFields_append h.nil hspells.settable hspells.once

/-- What has all its fields is read from them. -/
theorem bind_record_recordOf (hnames : fields.map Prod.fst = names) (hnodup : names.Nodup) :
    ((recordOf fields).record names).bind ofFields = ofFields fields := by
  have hknown : known names fields = fields :=
    known_eq_self fun f hf => hnames ▸ List.mem_map.2 ⟨f, hf, rfl⟩
  rw [recordOf, record_object, hknown, hnames, if_pos hnodup, Option.bind_some]

/-- An object with a known field that stands there twice. -/
def Repeats (names : List String) (v : Value) : Prop :=
  ∃ fields, ∃ name ∈ names, ∃ v₁ v₂, v = recordOf fields ∧ [(name, v₁), (name, v₂)].Sublist fields

/-- An object that repeats a known field gives nothing. -/
theorem Repeats.ofRecord {v : Value} (h : Repeats names v) :
    (v.record names).bind ofFields = none := by
  obtain ⟨fields, name, hname, v₁, v₂, rfl, hsub⟩ := h
  have htwice : [name, name].Sublist ((known names fields).map Prod.fst) := by
    have hfilter := (hsub.filter fun f => names.contains f.1).map Prod.fst
    rwa [List.filter_eq_self.2 (by simp [hname])] at hfilter
  have hnot : ¬((known names fields).map Prod.fst).Nodup := fun hnodup => by
    simpa using hnodup.sublist htwice
  rw [recordOf, record_object, if_neg hnot, Option.bind_none]

end

/-! ## Reading the groups -/

/-- The fields of a group overwrite one place each. -/
theorem Caches.reads : Reads Caches.Settable Caches.ofFields {} := by
  refine ⟨rfl, fun hx fields hnew s hs => ?_⟩
  simp only [Caches.ofFields, Option.bind_eq_bind, Option.bind_eq_some_iff, Option.pure_def,
    Option.some.injEq] at hs
  obtain ⟨_, h₁, _, h₂, _, h₃, rfl⟩ := hs
  rcases hx <;> simp [Caches.ofFields, optional_concat hnew, *]

theorem Feedback.reads : Reads Feedback.Settable Feedback.ofFields {} := by
  refine ⟨rfl, fun hx fields hnew s hs => ?_⟩
  simp only [Feedback.ofFields, Option.bind_eq_bind, Option.bind_eq_some_iff, Option.pure_def,
    Option.some.injEq] at hs
  obtain ⟨_, h₁, _, h₂, _, h₃, _, h₄, _, h₅, _, h₆, _, h₇, rfl⟩ := hs
  rcases hx <;> simp [Feedback.ofFields, optional_concat hnew, *]

theorem Inlining.reads : Reads Inlining.Settable Inlining.ofFields {} := by
  refine ⟨rfl, fun hx fields hnew s hs => ?_⟩
  simp only [Inlining.ofFields, Option.bind_eq_bind, Option.bind_eq_some_iff, Option.pure_def,
    Option.some.injEq] at hs
  obtain ⟨_, h₁, _, h₂, _, h₃, _, h₄, _, h₅, _, h₆, _, h₇, _, h₈, _, h₉, _, h₁₀, _, h₁₁, rfl⟩ := hs
  rcases hx <;> simp [Inlining.ofFields, optional_concat hnew, *]

theorem Recompile.reads : Reads Recompile.Settable Recompile.ofFields {} := by
  refine ⟨rfl, fun hx fields hnew s hs => ?_⟩
  simp only [Recompile.ofFields, Option.bind_eq_bind, Option.bind_eq_some_iff, Option.pure_def,
    Option.some.injEq] at hs
  obtain ⟨_, h₁, _, h₂, _, h₃, _, h₄, _, h₅, _, h₆, _, h₇, rfl⟩ := hs
  rcases hx <;> simp [Recompile.ofFields, optional_concat hnew, *]

theorem Traps.reads : Reads Traps.Settable Traps.ofFields {} := by
  refine ⟨rfl, fun hx fields hnew s hs => ?_⟩
  simp only [Traps.ofFields, Option.bind_eq_bind, Option.bind_eq_some_iff, Option.pure_def,
    Option.some.injEq] at hs
  obtain ⟨_, h₁, rfl⟩ := hs
  rcases hx with ⟨n⟩
  simp [Traps.ofFields, optional_concat hnew]

/-- The settings as a whole read what they are given, as each of their groups does. -/
theorem reads : Reads Settable Settings.ofFields {} := by
  refine ⟨rfl, fun hx fields hnew s hs => ?_⟩
  simp only [Settings.ofFields, Option.bind_eq_bind, Option.bind_eq_some_iff, Option.pure_def,
    Option.some.injEq] at hs
  obtain ⟨_, h₁, _, h₂, _, h₃, _, h₄, _, h₅, rfl⟩ := hs
  rcases hx with h | h | h | h | h
  · simp [Settings.ofFields, optional_concat hnew, Caches.ofJson, h.ofRecord Caches.reads, *]
  · simp [Settings.ofFields, optional_concat hnew, Feedback.ofJson, h.ofRecord Feedback.reads, *]
  · simp [Settings.ofFields, optional_concat hnew, Inlining.ofJson, h.ofRecord Inlining.reads, *]
  · simp [Settings.ofFields, optional_concat hnew, Recompile.ofJson, h.ofRecord Recompile.reads, *]
  · simp [Settings.ofFields, optional_concat hnew, Traps.ofJson, h.ofRecord Traps.reads, *]

/-! ## Writing the groups -/

theorem Caches.ofJson_toJson (s : Caches) : Caches.ofJson s.toJson = some s := by
  rw [Caches.ofJson, Caches.toJson, bind_record_recordOf]
  · simp [Caches.ofFields, Json.optional, List.lookup_cons]
  · rfl
  · decide

theorem Feedback.ofJson_toJson (s : Feedback) : Feedback.ofJson s.toJson = some s := by
  rw [Feedback.ofJson, Feedback.toJson, bind_record_recordOf]
  · simp [Feedback.ofFields, Json.optional, List.lookup_cons]
  · rfl
  · decide

theorem Inlining.ofJson_toJson (s : Inlining) : Inlining.ofJson s.toJson = some s := by
  rw [Inlining.ofJson, Inlining.toJson, bind_record_recordOf]
  · simp [Inlining.ofFields, Json.optional, List.lookup_cons]
  · rfl
  · decide

theorem Recompile.ofJson_toJson (s : Recompile) : Recompile.ofJson s.toJson = some s := by
  rw [Recompile.ofJson, Recompile.toJson, bind_record_recordOf]
  · simp [Recompile.ofFields, Json.optional, List.lookup_cons]
  · rfl
  · decide

theorem Traps.ofJson_toJson (s : Traps) : Traps.ofJson s.toJson = some s := by
  rw [Traps.ofJson, Traps.toJson, bind_record_recordOf]
  · simp [Traps.ofFields, Json.optional]
  · rfl
  · decide

/-- Settings are read from the value that they are written to. -/
theorem ofJson_toJson (s : Settings) : Settings.ofJson s.toJson = some s := by
  rw [Settings.ofJson, Settings.toJson, bind_record_recordOf]
  · simp [Settings.ofFields, Json.optional, List.lookup_cons, Caches.ofJson_toJson,
      Feedback.ofJson_toJson, Inlining.ofJson_toJson, Recompile.ofJson_toJson, Traps.ofJson_toJson]
  · rfl
  · decide

/-! ## Repeated fields -/

/-- The groups of settings with the names of their fields. -/
def groups : List (String × List String) :=
  [("ic", Caches.names), ("feedback", Feedback.names), ("inlining", Inlining.names),
    ("recompile", Recompile.names), ("trap", Traps.names)]

/-- Settings are not read if a group repeats a field. -/
theorem ofJson_of_group_repeats {fields : List (String × Value)} {g : String × List String}
    (hg : g ∈ groups) {v : Value} (hv : (g.1, v) ∈ fields) (h : Repeats g.2 v) :
    Settings.ofJson (recordOf fields) = none := by
  rw [Settings.ofJson, recordOf, record_object]
  -- The object itself may repeat a field, or else the group is read.
  by_cases hnodup : ((known Settings.names fields).map Prod.fst).Nodup
  · have hname : g.1 ∈ Settings.names := (by decide : ∀ g ∈ groups, g.1 ∈ Settings.names) g hg
    have hlookup : (known Settings.names fields).lookup g.1 = some v :=
      lookup_eq_some_of_mem hnodup (List.mem_filter.2 ⟨hv, List.contains_iff_mem.2 hname⟩)
    rw [if_pos hnodup, Option.bind_some]
    simp only [groups, List.mem_cons, List.not_mem_nil, or_false] at hg
    rcases hg with rfl | rfl | rfl | rfl | rfl
    · simp [Settings.ofFields, Json.optional, hlookup, Caches.ofJson, h.ofRecord]
    · simp [Settings.ofFields, Json.optional, hlookup, Feedback.ofJson, h.ofRecord]
    · simp [Settings.ofFields, Json.optional, hlookup, Inlining.ofJson, h.ofRecord]
    · simp [Settings.ofFields, Json.optional, hlookup, Recompile.ofJson, h.ofRecord]
    · simp [Settings.ofFields, Json.optional, hlookup, Traps.ofJson, h.ofRecord]
  · rw [if_neg hnodup, Option.bind_none]

/-! ## Texts -/

/-- A text with settings gives them if they are valid. -/
theorem ofText_eq_validate {t : String} {v : Value} {s : Settings} (hread : read t = some v)
    (hs : Settings.ofJson v = some s) : ofText t = s.validate := by
  rw [ofText, parse, hread, Option.bind_some, hs]
  rfl

/-- A text without settings is an error of the text. -/
theorem ofText_eq_error {t : String} {v : Value} (hread : read t = some v)
    (hv : Settings.ofJson v = none) :
    ofText t = .error .json := by
  rw [ofText, parse, hread, Option.bind_some, hv]
  rfl

/-- Settings are valid unless a fault is found. -/
theorem validate_eq (s : Settings) :
    s.validate = s.fault?.elim (.ok s) fun cause => .error (.setting cause) := by
  rw [validate]
  rcases s.fault? with _ | cause
  · rfl
  · rfl

/-- What a text gives has no fault. -/
theorem fault?_of_ofText {t : String} {s : Settings} (h : ofText t = .ok s) : s.fault? = none := by
  rw [ofText] at h
  rcases hparse : parse t with fault | s'
  · rw [hparse] at h
    cases h
  · rw [hparse] at h
    replace h : s'.validate = .ok s := h
    rw [validate_eq] at h
    rcases hfault : s'.fault? with _ | cause
    · rw [hfault] at h
      cases h
      exact hfault
    · rw [hfault] at h
      cases h

/-- Settings without a fault come back from their text, as do those that any text
    gives. An object gives the defaults with the settings that it spells, if they have
    no fault together, and nothing if it repeats a field. -/
theorem text_roundTrip :
    (∀ s : Settings, ofText s.toText = s.fault?.elim (.ok s) fun cause => .error (.setting cause)) ∧
    (∀ t s, ofText t = .ok s → ofText s.toText = .ok s) ∧
    (∀ given fields, Spells Settable names given fields → ∀ t, read t = some (recordOf fields) →
      ofText t = (overwrite {} given).validate) ∧
    ∀ t fields, read t = some (recordOf fields) →
      (Repeats names (recordOf fields) ∨ ∃ g ∈ groups, ∃ v, (g.1, v) ∈ fields ∧ Repeats g.2 v) →
        ofText t = .error .json := by
  have hback (s : Settings) : ofText s.toText = s.fault?.elim (.ok s) fun cause =>
      .error (.setting cause) :=
    (ofText_eq_validate (read_write s.toJson) (ofJson_toJson s)).trans (validate_eq s)
  refine ⟨hback, fun t s hs => ?_, fun given fields hspells t hread => ?_,
    fun t fields hread hrepeats => ?_⟩
  · rw [hback, fault?_of_ofText hs, Option.elim_none]
  · exact ofText_eq_validate hread (hspells.ofRecord reads)
  · refine ofText_eq_error hread ?_
    rcases hrepeats with hrepeats | ⟨g, hg, v, hv, hrepeats⟩
    · exact hrepeats.ofRecord
    · exact ofJson_of_group_repeats hg hv hrepeats

/-- Fields of the type feedback settings, one of them known. -/
def sparseFeedback : List (String × Value) :=
  [("unit", .null), ("hot_arithmetic_selectors", stringsOf ["\"", "×"])]

/-- A field of the trap settings. -/
def sparseTraps : List (String × Value) := [("recompile_threshold", .natural 5)]

/-- Two groups of settings, not in order and after an unknown one. -/
def sparse : List (String × Value) :=
  [("zoom", .array [.foreign, .object []]), ("trap", recordOf sparseTraps),
    ("feedback", recordOf sparseFeedback)]

/-- The two settings are read and the others are as ever; a second group of traps is
    refused, as is a setting with a fault. -/
theorem text_roundTrip_sparse : (∃ given, Spells Settable names given sparse) ∧
    ofText (write (recordOf sparse)) =
      .ok { feedback := { hotSelectors := ["\"", "×"] }, traps := { threshold := 5 } } ∧
    ofText (write (recordOf (sparse ++ [("trap", .null)]))) = .error .json ∧
    ofText (toText { caches := { maxEntries := 1 } }) = .error (.setting .tooFewEntries) := by
  have htraps : Spells Traps.Settable Traps.names [⟨_, .natural (UInt32.toNat 5), _⟩] sparseTraps :=
    ⟨fun x hx => List.mem_singleton.1 hx ▸ .threshold 5, by decide, rfl⟩
  have hfeedback :
      Spells Feedback.Settable Feedback.names [⟨_, stringsOf ["\"", "×"], _⟩] sparseFeedback :=
    ⟨fun x hx => List.mem_singleton.1 hx ▸ .hotSelectors _, by decide, rfl⟩
  have hsparse : Spells Settable names
      [⟨_, recordOf sparseTraps, _⟩, ⟨_, recordOf sparseFeedback, _⟩] sparse :=
    ⟨List.forall_mem_cons.2
      ⟨.traps htraps, fun x hx => List.mem_singleton.1 hx ▸ .feedback hfeedback⟩, by decide, rfl⟩
  have hrepeats : Repeats names (recordOf (sparse ++ [("trap", .null)])) := by
    refine ⟨_, "trap", by decide, recordOf sparseTraps, .null, rfl, ?_⟩
    exact .cons _ (.cons_cons _ (.cons _ (.refl _)))
  exact ⟨⟨_, hsparse⟩, text_roundTrip.2.2.1 _ _ hsparse _ (read_write _),
    text_roundTrip.2.2.2 _ _ (read_write _) (.inl hrepeats), text_roundTrip.1 _⟩

end Warmup.Settings
