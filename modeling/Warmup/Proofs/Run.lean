import Warmup.Engine.Replace
import Warmup.Proofs.CacheEntries
import Warmup.Proofs.UpToDate
import Warmup.Proofs.Upkeep

/-!
# Runs

What an execution engine reports, and what is defined meanwhile (`Event`), takes
the engine from state to state (`Engine.step`, `Engine.run`). This module says
once what a step can change, for all that is proved about runs:

* `Engine.Advances`: definitions add no method to a dictionary, no code is lost,
  new code is up to date, and caches start their lookups where they did;
* `Engine.Quiet`: in addition nothing is looked up, and no entry is added to a
  cache;
* `Engine.Steady`: in addition no code becomes invalid.

Links, invocations, compilations and new definitions of classes and blocks are
steady (`steady_step`), traps are quiet (`quiet_uncommonTrap`). Sends, cleanups
and new methods have lemmas of their own. What else is to be known of the steady
ones follows from what they consist of (`upkeep_step`).
-/

namespace Warmup

/-- Where a send stands: in an interpreted method, or in native code. -/
inductive SendPlace
  | interpreted (method : MethodId) (bci : Bci)
  | compiled (native : NativeId) (site : Nat)
  deriving DecidableEq

/-- What happens to an engine. -/
inductive Event
  | link (method : MethodId)
  | send (place : SendPlace) (receiver : ClassId)
  | compile (key : LookupKey)
  | invoke (process : ProcessId) (frame : Nat)
  | recompile (process : ProcessId) (frame : Nat) (trigger : Trigger)
  | trap (process : ProcessId) (frame trap : Nat)
  | replace (cls : ClassId) (draft : Draft)
  | cleanup
  | capture (native : NativeId)
  /-- Processes and contexts come and go in any way. -/
  | setProcesses (processes : ProcessTable)
  | setDatabase (database : Database)
  | intern (name : String)
  | defineClass (name : String) (superclass : Option ClassId)
  | addBlock (home : MethodId) (draft : Draft)

/-- Whether an event is no send, trap, new method or cleanup. -/
def Event.isSteady : Event → Bool
  | send _ _ | trap _ _ _ | replace _ _ | cleanup => false
  | _ => true

/-- Whether an event is no send, or the class of its receiver and all superclasses
    exist. -/
def Event.isOrderly (e : Engine) : Event → Bool
  | send _ r => decide e.classes.Closed && (e.classes.class? r).isSome
  | _ => true

/-- Whether an event defines no class, or one with an existing superclass or
    without one. -/
def Event.isFounded (e : Engine) : Event → Bool
  | defineClass _ superclass => superclass.all fun d => (e.classes.class? d).isSome
  | _ => true

namespace Engine

variable {e e' e'' : Engine} {P : LookupKey → Target → Prop}

/-- The engine of a fresh machine with the given classes. -/
def startWith (s : Settings) (t : ClassTable) : Engine := { start s with classes := t }

/-- The send at a place. -/
def send (e : Engine) (p : SendPlace) (r : ClassId) : Outcome Engine Transition :=
  match p with
  | .interpreted m bci => e.sendInterpreted m bci r
  | .compiled n site => e.sendCompiled n site r

/-- The engine that a computation leads to, or `e` if it fails. -/
def orElse {α : Type} (e : Engine) (x : Except Fault (Engine × α)) : Engine :=
  match x with
  | .ok (e', _) => e'
  | .error _ => e

/-- The engine after an event. -/
def step (e : Engine) : Event → Engine
  | .link m => e.orElse ((e.link m).map (·, ()))
  | .send p r => (e.send p r).state
  | .compile k => e.orElse (e.compile k)
  | .invoke p i => (e.invoke p i).state
  | .recompile p i trigger => e.orElse (e.recompile p i trigger)
  | .trap p i trap => (e.uncommonTrap p i trap).state
  | .replace c d => e.orElse (e.replaceMethod c d)
  | .cleanup => e.cleanup.2
  | .capture n => e.orElse (e.capture n)
  | .setProcesses ps => { e with processes := ps }
  | .setDatabase db => { e with database := db }
  | .intern name => { e with classes := (e.classes.intern name).1 }
  | .defineClass name superclass => { e with classes := (e.classes.defineClass name superclass).1 }
  | .addBlock home d =>
    e.orElse ((e.classes.addBlock home d).map fun a => ({ e with classes := a.1 }, a.2))

/-- The engine after some events. -/
def run (e : Engine) (events : List Event) : Engine := events.foldl step e

/-- Whether a condition holds of all events, each in the engine it happens to. -/
def isAlways (p : Engine → Event → Bool) (e : Engine) : List Event → Bool
  | [] => true
  | ev :: events => p e ev && (e.step ev).isAlways p events

/-- What holds of every event holds of the first ones and, in the state they lead to, of the
    others. -/
theorem isAlways_append (p : Engine → Event → Bool) (e : Engine) (events events' : List Event) :
    e.isAlways p (events ++ events') =
      (e.isAlways p events && (e.run events).isAlways p events') := by
  induction events generalizing e with
  | nil => rfl
  | cons ev events ih =>
    rw [List.cons_append, isAlways, ih, isAlways, Bool.and_assoc]
    rfl

/-- Whether all sends among some events are orderly. -/
def isOrderly (e : Engine) (events : List Event) : Bool :=
  e.isAlways (fun e ev => ev.isOrderly e) events

/-- Whether all classes that some events define have existing superclasses or none. -/
def isFounded (e : Engine) (events : List Event) : Bool :=
  e.isAlways (fun e ev => ev.isFounded e) events

/-- The engines that events lead to, from a fresh machine with any classes. -/
def Reachable (e : Engine) : Prop :=
  ∃ s t events, ClassTable.Built t ∧ (startWith s t).run events = e

/-! ## What a step can change -/

/-- All entries of the caches of interpreted sends and of valid code have a
    property. -/
structure Caches (P : LookupKey → Target → Prop) (e : Engine) : Prop where
  sites : e.sites.All (·.Holds P)
  code : ∀ i n, e.code.get? i = some n → n.isValid → n.All (·.Holds P)

theorem Caches.mono {Q : LookupKey → Target → Prop} (h : e.Caches P) (hPQ : ∀ k t, P k t → Q k t) :
    e.Caches Q where
  sites := h.sites.mono fun _ hc => hc.mono hPQ
  code i n hn hvalid := (h.code i n hn hvalid).mono fun _ hc => hc.mono hPQ

/-- All caches look up the receiver's class or a superclass. -/
structure Anchored (e : Engine) : Prop where
  sites : e.sites.All fun c => e.classes.Anchors c.superClass
  code : ∀ i n, e.code.get? i = some n → n.All fun c => e.classes.Anchors c.superClass

/-- The tables have grown, and code that is new is up to date. -/
structure Advances (e e' : Engine) : Prop where
  classes : e.classes.Extends e'.classes
  built : e.classes.Built → e'.classes.Built
  code : e.code.WellFormed → e'.code.WellFormed
  kept : e.code.Keeps e'.code
  fresh : e.classes.Built → ∀ i n, e'.code.get? i = some n → e.code.get? i = none →
    n.UpToDate e'.classes
  anchored : e.Anchored → e'.Anchored

/-- Nothing was looked up either, and no entry was added to a cache. -/
structure Quiet (e e' : Engine) : Prop extends Advances e e' where
  memo : e'.memo = e.memo
  caches : ∀ P, e.Caches P → e'.Caches P

/-- No code has become invalid either. -/
structure Steady (e e' : Engine) : Prop extends Quiet e e' where
  valid : ∀ i n n', e.code.get? i = some n → e'.code.get? i = some n' → n.isValid → n'.isValid

theorem Advances.trans (h : e.Advances e') (h' : e'.Advances e'') : e.Advances e'' where
  classes := h.classes.trans h'.classes
  built := h'.built ∘ h.built
  code := h'.code ∘ h.code
  kept := h.kept.trans h'.kept
  fresh hb i n hn hnone := by
    cases hi : e'.code.get? i with
    | none => exact h'.fresh (h.built hb) i n hn hi
    | some n' =>
      -- The code is new in `e'`, and up to date there.
      obtain ⟨n'', hn'', hsame⟩ := h'.kept i n' hi
      rw [hn] at hn''
      cases hn''
      exact ((h.fresh hb i n' hi hnone).extend h'.classes).congr hsame.key hsame.method hsame.scopes
  anchored := h'.anchored ∘ h.anchored

theorem Quiet.trans (h : e.Quiet e') (h' : e'.Quiet e'') : e.Quiet e'' where
  toAdvances := h.toAdvances.trans h'.toAdvances
  memo := h'.memo.trans h.memo
  caches P hP := h'.caches P (h.caches P hP)

theorem Steady.trans (h : e.Steady e') (h' : e'.Steady e'') : e.Steady e'' where
  toQuiet := h.toQuiet.trans h'.toQuiet
  valid i n n'' hn hn'' hvalid := by
    obtain ⟨n', hn', -⟩ := h.kept i n hn
    exact h'.valid i n' n'' hn' hn'' (h.valid i n n' hn hn' hvalid)

/-- Definitions without a new method advance the engine. -/
theorem Advances.of_extends (hclasses : e.classes.Extends e'.classes)
    (hbuilt : e.classes.Built → e'.classes.Built) (hcode : e'.code = e.code)
    (hsites : e.Anchored → e'.sites.All fun c => e.classes.Anchors c.superClass) :
    e.Advances e' where
  classes := hclasses
  built := hbuilt
  code h := hcode ▸ h
  kept := hcode ▸ .refl _
  fresh _ i n hn hnone := by
    rw [hcode, hnone] at hn
    cases hn
  anchored h := by
    refine ⟨(hsites h).mono fun c => hclasses.anchors, fun i n hn => ?_⟩
    rw [hcode] at hn
    exact (h.code i n hn).mono fun c => hclasses.anchors

theorem Advances.of_eq (hclasses : e'.classes = e.classes) (hcode : e'.code = e.code)
    (hsites : e.Anchored → e'.sites.All fun c => e.classes.Anchors c.superClass) : e.Advances e' :=
  .of_extends (hclasses ▸ .refl _) (fun h => hclasses ▸ h) hcode hsites

/-- New definitions without a dictionary are steady. -/
theorem Steady.of_extends (hclasses : e.classes.Extends e'.classes)
    (hbuilt : e.classes.Built → e'.classes.Built) (hcode : e'.code = e.code)
    (hmemo : e'.memo = e.memo) (hsites : e'.sites = e.sites) : e.Steady e' where
  toAdvances := .of_extends hclasses hbuilt hcode fun h => hsites ▸ h.sites
  memo := hmemo
  caches P hP := ⟨hsites ▸ hP.sites, hcode ▸ hP.code⟩
  valid i n n' hn hn' hvalid := by
    rw [hcode, hn] at hn'
    cases hn'
    exact hvalid

/-- What concerns neither definitions nor code nor caches is steady. -/
theorem Steady.of_eq (hclasses : e'.classes = e.classes) (hcode : e'.code = e.code)
    (hmemo : e'.memo = e.memo) (hsites : e'.sites = e.sites) : e.Steady e' :=
  .of_extends (hclasses ▸ .refl _) (fun h => hclasses ▸ h) hcode hmemo hsites

theorem Quiet.of_eq (hclasses : e'.classes = e.classes) (hcode : e'.code = e.code)
    (hmemo : e'.memo = e.memo) (hsites : e'.sites = e.sites) : e.Quiet e' :=
  (Steady.of_eq hclasses hcode hmemo hsites).toQuiet

/-- A change of one native method keeps what it is, its state and where its caches
    start their lookups. -/
theorem Advances.modify {i : NativeId} {f : NativeMethod → NativeMethod}
    (hf : ∀ n, e.code.get? i = some n → n.Became (f n) ∧ (f n).state = n.state)
    (hsites : ∀ n, e.code.get? i = some n →
      ∀ s ∈ (f n).sites, ∃ s₀ ∈ n.sites, s.cache.superClass = s₀.cache.superClass) :
    e.Advances { e with code := e.code.modify i f } where
  classes := .refl _
  built h := h
  code h := h.modify hf
  kept := .modify fun n hn => (hf n hn).1
  fresh _ j n hn hnone := by
    rw [CodeTable.get?_modify, hnone] at hn
    cases hn
  -- A changed site keeps the class where its lookups start.
  anchored h := by
    refine ⟨h.sites, fun j n' hn' => ?_⟩
    rw [CodeTable.get?_modify] at hn'
    obtain ⟨n, hn, rfl⟩ := Option.map_eq_some_iff.1 hn'
    split
    · next hj =>
      intro s hs
      obtain ⟨s₀, hs₀, hsuper⟩ := hsites n (hj ▸ hn) s hs
      rw [hsuper]
      exact h.code j n hn s₀ hs₀
    · exact h.code j n hn

/-- Counters, traps and the like change steadily. -/
theorem Steady.modify {i : NativeId} {f : NativeMethod → NativeMethod}
    (hf : ∀ n, e.code.get? i = some n → n.Became (f n) ∧ (f n).state = n.state ∧
      (f n).sites = n.sites) :
    e.Steady { e with code := e.code.modify i f } where
  toAdvances := by
    refine .modify (fun n hn => ⟨(hf n hn).1, (hf n hn).2.1⟩) fun n hn s hs => ?_
    rw [(hf n hn).2.2] at hs
    exact ⟨s, hs, rfl⟩
  memo := rfl
  caches P hP := by
    refine ⟨hP.sites, fun j n' hn' hvalid => ?_⟩
    rw [CodeTable.get?_modify] at hn'
    obtain ⟨n, hn, rfl⟩ := Option.map_eq_some_iff.1 hn'
    split at hvalid
    · next hj =>
      obtain ⟨hsame, -, hsites⟩ := hf n (hj ▸ hn)
      rw [if_pos hj, NativeMethod.All, hsites]
      exact hP.code j n hn (hsame.valid hvalid)
    · next hj =>
      rw [if_neg hj]
      exact hP.code j n hn hvalid
  valid j n n' hn hn' hvalid := by
    rw [CodeTable.get?_modify, hn] at hn'
    cases hn'
    split
    · next hj => simpa [NativeMethod.isValid, (hf n (hj ▸ hn)).2.1] using hvalid
    · exact hvalid

/-- New code without entries in its caches is steady if it is up to date. -/
theorem Steady.install {n : NativeMethod} {code : CodeTable} {i : NativeId}
    (h : e.code.install n = .ok (code, i)) (hnew : e.classes.Built → n.UpToDate e.classes)
    (hsites : n.All (·.Fresh e.classes)) :
    e.Steady { e with code := code } where
  classes := .refl _
  built h := h
  code hw := hw.install h
  kept := CodeTable.keeps_install h
  fresh hb j n' hn' hnone := by
    obtain ⟨version, hself⟩ := CodeTable.get?_install_self h
    by_cases hj : j = i
    · rw [hj, hself] at hn'
      cases hn'
      exact (hnew hb).congr rfl rfl rfl
    · rw [CodeTable.get?_install h hj, hnone] at hn'
      cases hn'
  anchored ha := by
    obtain ⟨version, hself⟩ := CodeTable.get?_install_self h
    refine ⟨ha.sites, fun j n' hn' => ?_⟩
    by_cases hj : j = i
    · rw [hj, hself] at hn'
      cases hn'
      exact fun s hs => (hsites s hs).anchored
    · rw [CodeTable.get?_install h hj] at hn'
      obtain ⟨old, hold, rfl⟩ := Option.map_eq_some_iff.1 hn'
      split
      · exact ha.code j old hold
      · exact ha.code j old hold
  memo := rfl
  caches P hP := by
    obtain ⟨version, hself⟩ := CodeTable.get?_install_self h
    refine ⟨hP.sites, fun j n' hn' hvalid => ?_⟩
    by_cases hj : j = i
    · rw [hj, hself] at hn'
      cases hn'
      exact fun s hs => .of_stub (hsites s hs).dest
    · rw [CodeTable.get?_install h hj] at hn'
      obtain ⟨old, hold, rfl⟩ := Option.map_eq_some_iff.1 hn'
      -- A version that is superseded was live, and keeps its caches.
      have hvalid' : old.isValid := by
        split at hvalid
        · next hlive => simp [NativeMethod.isValid, hlive.2]
        · exact hvalid
      split
      · exact hP.code j old hold hvalid'
      · exact hP.code j old hold hvalid'
  valid j old n' hold hn' hvalid := by
    rw [CodeTable.get?_install h (CodeTable.ne_of_install h hold), hold] at hn'
    cases hn'
    simp only
    split
    · rfl
    · exact hvalid

/-- Code that becomes invalid changes in nothing else. -/
theorem Quiet.invalidate (e : Engine) (i : NativeId) :
    e.Quiet { e with code := (e.code.invalidate i).2 } where
  classes := .refl _
  built h := h
  code h := h.invalidate i
  kept := e.code.keeps_invalidate i
  fresh _ j n hn hnone := by
    rw [CodeTable.get?_invalidate, hnone] at hn
    cases hn
  anchored h := by
    refine ⟨h.sites, fun j n' hn' => ?_⟩
    rw [CodeTable.get?_invalidate] at hn'
    obtain ⟨n, hn, rfl⟩ := Option.map_eq_some_iff.1 hn'
    split
    · exact h.code j n hn
    · exact h.code j n hn
  memo := rfl
  caches P hP := by
    refine ⟨hP.sites, fun j n' hn' hvalid => ?_⟩
    rw [CodeTable.get?_invalidate] at hn'
    obtain ⟨n, hn, rfl⟩ := Option.map_eq_some_iff.1 hn'
    split at hvalid
    · cases hvalid
    · next hj =>
      rw [if_neg hj]
      exact hP.code j n hn hvalid

/-! ## Upkeep -/

/-- A send that was not linked has an empty cache. -/
theorem fresh_freshSite (e : Engine) (m : Method) (s : SendSite) :
    (e.freshSite m s).Fresh e.classes := by
  rw [freshSite]
  apply InlineCache.fresh_freshAt
  split
  · exact e.classes.anchors_superclass? m.holder
  · exact ClassTable.anchors_none

/-- A new cache without entries is steady. -/
theorem Steady.ensure (m : MethodId) (bci : Bci) {c : InlineCache} (hc : c.Fresh e.classes) :
    e.Steady { e with sites := e.sites.ensure m bci c } where
  toAdvances := .of_eq rfl rfl fun h => h.sites.ensure hc.anchored
  memo := rfl
  caches P hP := ⟨hP.sites.ensure (.of_stub hc.dest), hP.code⟩
  valid i n n' hn hn' hvalid := by
    rw [hn] at hn'
    cases hn'
    exact hvalid

theorem resolve_ok {k : LookupKey} {m : MethodId} (h : e.resolve k = .ok m) :
    k.resolve e.classes = some m := by
  rw [resolve] at h
  split at h
  · next hk =>
    cases h
    exact hk
  · cases h

section Prepare

variable {k : LookupKey} {level : Nat} {comp : Compilation} (h : e.prepare k level = .ok comp)

include h

/-- What is compiled is up to date. -/
theorem upToDate_prepare (hb : e.classes.Built) : comp.native.UpToDate e.classes := by
  rw [prepare] at h
  obtain ⟨m, hm, hcompile⟩ := exists_ok_of_bind h
  exact e.compiler.compile_upToDate hb.wellFormed (resolve_ok hm) hcompile

/-- What is compiled has empty caches. -/
theorem fresh_prepare : comp.native.All (·.Fresh e.classes) := by
  rw [prepare] at h
  obtain ⟨m, -, hcompile⟩ := exists_ok_of_bind h
  exact e.compiler.compile_fresh hcompile

end Prepare

theorem Steady.patch {n : NativeMethod} (hn : e.code.get? n.id = some n) (trap count : Nat) :
    e.Steady { e with code := e.code.modify n.id fun _ => n.patch trap count } := by
  refine .modify fun n' hn' => ?_
  cases hn.symm.trans hn'
  exact ⟨⟨rfl, fun h => h⟩, rfl, rfl⟩

/-- Outside a trap chores are steady. -/
theorem Chore.steady (h : e.Chore false e') : e.Steady e' := by
  cases h with
  | aside => exact .of_eq rfl rfl rfl rfl
  | link hm hs => exact .ensure _ _ (e.fresh_freshSite _ _)
  | install hprepare hinstall =>
    exact .install hinstall (upToDate_prepare hprepare) (fresh_prepare hprepare)
  | count => exact .modify fun n _ => ⟨⟨rfl, fun h => h⟩, rfl, rfl⟩
  | patch h => cases h
  | invalidate h => cases h

theorem Chore.quiet {inTrap : Bool} (h : e.Chore inTrap e') : e.Quiet e' := by
  cases h with
  | aside => exact (Chore.aside ..).steady.toQuiet
  | link hm hs => exact (Chore.link hm hs).steady.toQuiet
  | install hprepare hinstall => exact (Chore.install hprepare hinstall).steady.toQuiet
  | count => exact (Chore.count ..).steady.toQuiet
  | patch _ hn trap count => exact (Steady.patch hn trap count).toQuiet
  | invalidate _ i => exact (Quiet.invalidate e i).trans (.of_eq rfl rfl rfl rfl)

theorem Upkeep.steady (h : e.Upkeep false e') : e.Steady e' :=
  h.induction (P := e.Steady) (fun _ _ hchore hsteady => hsteady.trans hchore.steady)
    (.of_eq rfl rfl rfl rfl)

theorem Upkeep.quiet {inTrap : Bool} (h : e.Upkeep inTrap e') : e.Quiet e' :=
  h.induction (P := e.Quiet) (fun _ _ hchore hquiet => hquiet.trans hchore.quiet)
    (.of_eq rfl rfl rfl rfl)

theorem quiet_uncommonTrap (hw : e.code.WellFormed) (p : ProcessId) (i trap : Nat) :
    e.Quiet (e.uncommonTrap p i trap).state := (upkeep_uncommonTrap hw p i trap).quiet

/-! ## Steps -/

theorem Upkeep.orElse {α : Type} {x : Except Fault (Engine × α)} {inTrap : Bool}
    (h : ∀ e' a, x = .ok (e', a) → e.Upkeep inTrap e') : e.Upkeep inTrap (e.orElse x) := by
  rcases x with f | ⟨e', a⟩
  · exact .refl e
  · exact h e' a rfl

/-- Events other than sends, traps, new methods and cleanups are upkeep, or add to
    the definitions without changing a dictionary. -/
theorem upkeep_step (e : Engine) {ev : Event} (h : ev.isSteady) : e.Upkeep false (e.step ev) ∨
    ∃ t, e.classes.Extends t ∧ (e.classes.Built → t.Built) ∧
      (ev.isFounded e → e.classes.Founded → t.Founded) ∧ e.step ev = { e with classes := t } := by
  cases ev with
  | link m =>
    refine .inl (.orElse fun e' a hlink => ?_)
    obtain ⟨e₁, hm, heq⟩ := exists_ok_of_map hlink
    cases heq
    exact upkeep_link hm
  | compile k => exact .inl (.orElse fun e' i => upkeep_compile)
  | invoke p i => exact .inl (e.upkeep_invoke p i)
  | recompile p i trigger => exact .inl (.orElse fun e' r => upkeep_recompile)
  | capture n =>
    refine .inl (.orElse fun e' count hcapture => ?_)
    obtain ⟨native, -, hcapture⟩ := exists_ok_of_bind hcapture
    cases hcapture
    exact (Chore.aside ..).upkeep
  | setProcesses ps => exact .inl (Chore.aside ..).upkeep
  | setDatabase db => exact .inl (Chore.aside ..).upkeep
  -- The definitions are no upkeep: they extend the classes.
  | intern name =>
    exact .inr ⟨_, e.classes.extends_intern name, .intern name, fun _ hg => hg.intern name, rfl⟩
  | defineClass name superclass =>
    refine .inr ⟨_, e.classes.extends_defineClass name superclass, .defineClass name superclass,
      fun hev hg => ?_, rfl⟩
    exact hg.defineClass name fun d hd => by simpa [Event.isFounded, Option.mem_def.1 hd] using hev
  | addBlock home d =>
    rcases ht : e.classes.addBlock home d with f | ⟨t, m⟩
    · exact .inl (by rw [step, ht]; exact .refl e)
    · exact .inr ⟨t, ClassTable.extends_addBlock ht, fun hb => hb.addBlock ht,
        fun _ hg => hg.addBlock ht, by rw [step, ht]; rfl⟩
  | send p r => cases h
  | trap p i trap => cases h
  | replace c d => cases h
  | cleanup => cases h

/-- Links, invocations, compilations and definitions of classes and blocks are steady. -/
theorem steady_step (e : Engine) {ev : Event} (h : ev.isSteady) : e.Steady (e.step ev) := by
  rcases e.upkeep_step h with hupkeep | ⟨t, hextends, hbuilt, -, hstep⟩
  · exact hupkeep.steady
  · rw [hstep]
    exact .of_extends hextends hbuilt rfl rfl rfl

end Engine

end Warmup
