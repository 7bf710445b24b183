import Warmup.Engine.Trap
import Warmup.Proofs.CacheStates
import Warmup.Proofs.Emission
import Warmup.Proofs.NativeFindings
import Warmup.Proofs.TreeShape

/-!
# Feedback about single sends

Code that was compiled is used: messages are sent through its caches, and its traps fire
(`CodeEvent`). This changes what caches and traps hold, but not where they are
(`NativeMethod.laidOut_run`, `NativeMethod.places_run`).

The feedback tree of such code tells at each send what is known about it
(`Evidence.ClassifiedAt`): whether it never ran, must not be inlined, is a trap that has fired, or
has classes that are all known. A cache with too many classes for code that is not trusted yet says
nothing at all. This is so however the caches of the code, and of all code that they lead to, are
connected, because what is walked below a send hangs below it (`Gains`). -/

namespace Warmup

/-! ## Code in use -/

/-- What happens to code in use. -/
inductive CodeEvent
  /-- A call site is used. -/
  | cache (site : Nat) (event : CacheEvent)
  /-- A trap fires. -/
  | trap (trap count : Nat)

namespace NativeMethod

/-- The code after an event. -/
def step (n : NativeMethod) : CodeEvent → NativeMethod
  | .cache site event =>
    { n with sites := n.sites.modify site fun s => { s with cache := s.cache.step event } }
  | .trap trap count => n.patch trap count

/-- The code after some events. -/
def run (n : NativeMethod) (events : List CodeEvent) : NativeMethod := events.foldl step n

/-- The sends of the code that have a cache. -/
def places (n : NativeMethod) : List (Offset × Bci) := n.sites.map fun s => (s.scope, s.bci)

/-- What caches and traps hold changes, but not where they are. -/
theorem places_step (n : NativeMethod) (event : CodeEvent) : (n.step event).scopes = n.scopes ∧
    (n.step event).places = n.places ∧
    ((n.step event).traps.map fun s => (s.scope, s.bci)) = n.traps.map fun s =>
      (s.scope, s.bci) := by
  rcases event with ⟨site, event⟩ | ⟨trap, count⟩
  · exact ⟨rfl, map_modify_eq fun _ _ => rfl, rfl⟩
  · exact ⟨rfl, rfl, map_modify_eq fun _ _ => rfl⟩

/-- Using code moves none of its scopes, sites and traps. -/
theorem places_run (n : NativeMethod) (events : List CodeEvent) : (n.run events).scopes = n.scopes ∧
    (n.run events).places = n.places ∧
    ((n.run events).traps.map fun s => (s.scope, s.bci)) = n.traps.map fun s =>
      (s.scope, s.bci) := by
  induction events generalizing n with
  | nil => exact ⟨rfl, rfl, rfl⟩
  | cons event events ih =>
    obtain ⟨hscopes, hplaces, htraps⟩ := ih (n.step event)
    obtain ⟨hscopes', hplaces', htraps'⟩ := n.places_step event
    exact ⟨hscopes.trans hscopes', hplaces.trans hplaces', htraps.trans htraps'⟩

/-- Code stays laid out as it was when it is used. -/
theorem laidOut_run (n : NativeMethod) (events : List CodeEvent) : (n.run events).LaidOutAs n := by
  obtain ⟨hscopes, hplaces, htraps⟩ := n.places_run events
  refine ⟨hscopes, fun s hs => ?_, fun s hs => ?_⟩
  · have hmem : (s.scope, s.bci) ∈ n.places := hplaces ▸ List.mem_map.2 ⟨s, hs, rfl⟩
    obtain ⟨s', hs', heq⟩ := List.mem_map.1 hmem
    exact ⟨s', hs', Prod.mk.inj heq⟩
  · obtain ⟨s', hs', heq⟩ := List.mem_map.1 (htraps ▸ List.mem_map_of_mem hs)
    exact ⟨s', hs', Prod.mk.inj heq⟩

end NativeMethod

/-! ## Traps and caches -/

namespace TrapSite

variable {s : TrapSite}

theorem shows_untaken : s.Shows .untaken ↔ ¬s.used := by
  rw [Shows]
  split <;> simp_all

theorem shows_uncommon : s.Shows .uncommon ↔ s.used := by
  rw [Shows]
  split <;> simp_all

theorem not_shows_uninlinable : ¬s.Shows .uninlinable := by
  rw [Shows]
  split <;> simp

theorem not_shows_complete : ¬s.Shows .complete := by
  rw [Shows]
  split <;> simp

theorem not_shows_seen (k : LookupKey) : ¬s.Shows (.seen k) := by
  rw [Shows]
  split <;> simp

end TrapSite

namespace Evidence

/-- The classes in a cache are all that were seen, and there are few enough of them. -/
def Enumerates (e : Evidence) (trusted : Bool) (c : InlineCache) : Prop :=
  ¬c.isEmpty ∧ ¬c.isMegamorphic ∧ ¬c.flags.uninlinable ∧
    (c.entries.length ≤
      (if trusted then e.settings.trustLimit else e.settings.untrustedLimit).toNat ∨
      c.entries.length = 1 ∧ e.classes.selectorName c.selector ∈ e.settings.hotSelectors)

instance (e : Evidence) (trusted : Bool) (c : InlineCache) : Decidable (e.Enumerates trusted c) :=
  inferInstanceAs (Decidable (_ ∧ _ ∧ _ ∧ _))

variable {e : Evidence} {trusted : Bool} {c : InlineCache}

/-- A cache is trusted if it has few enough classes, or only one for a hot selector. -/
theorem trusts_iff : e.trusts trusted c ↔
    c.entries.length ≤ (if trusted then e.settings.trustLimit
      else e.settings.untrustedLimit).toNat ∨
      c.entries.length = 1 ∧ e.classes.selectorName c.selector ∈ e.settings.hotSelectors := by
  rw [trusts]
  simp only [Bool.or_eq_true, Bool.and_eq_true, decide_eq_true_eq, List.contains_iff_mem]
  constructor
  · rintro (hle | ⟨hle, hhot⟩)
    · exact .inl hle
    · -- A cache without entries is small enough in any case.
      rcases Nat.le_one_iff_eq_zero_or_eq_one.1 hle with hzero | hone
      · exact .inl (by omega)
      · exact .inr ⟨hone, hhot⟩
  · rintro (hle | ⟨hone, hhot⟩)
    · exact .inl hle
    · exact .inr ⟨by omega, hhot⟩

/-- A cache is enumerated if it counts and is trusted. -/
theorem enumerates_iff : e.Enumerates trusted c ↔ c.Counts ∧ e.trusts trusted c := by
  rw [Enumerates, trusts_iff, InlineCache.Counts]
  have hran (hempty : ¬c.isEmpty) : ¬c.neverExecuted := by simp [InlineCache.neverExecuted, hempty]
  constructor
  · rintro ⟨hempty, hmega, hflag, hcount⟩
    exact ⟨⟨hran hempty, hmega, hflag, hempty⟩, hcount⟩
  · rintro ⟨⟨-, hmega, hflag, hempty⟩, hcount⟩
    exact ⟨hempty, hmega, hflag, hcount⟩

/-! ## Sends -/

/-- What the tree of code tells about a send is what is found at the send. -/
structure ClassifiedAt (e : Evidence) (trusted : Bool) (n : NativeMethod) (o : Offset) (bci : Bci) :
    Prop where
  /-- It never ran if its trap has not fired or its cache was never used. -/
  untaken : (e.treeOfNative n trusted).isUntaken ⟨o⟩ bci ↔
    (∃ s ∈ n.traps, s.scope = o ∧ s.bci = bci ∧ ¬s.used) ∨
      ∃ s ∈ n.sites, s.scope = o ∧ s.bci = bci ∧ s.cache.neverExecuted
  uninlinable : (e.treeOfNative n trusted).isUninlinable ⟨o⟩ bci ↔
    ∃ s ∈ n.sites, s.scope = o ∧ s.bci = bci ∧ ¬s.cache.neverExecuted ∧
      (s.cache.isMegamorphic ∨ s.cache.flags.uninlinable)
  uncommon : (e.treeOfNative n trusted).isUncommon ⟨o⟩ bci ↔ ∃ s ∈ n.traps,
    s.scope = o ∧ s.bci = bci ∧ s.used
  complete : (e.treeOfNative n trusted).isComplete ⟨o⟩ bci ↔
    ∃ s ∈ n.sites, s.scope = o ∧ s.bci = bci ∧ e.Enumerates trusted s.cache
  /-- A class is that of a callee that was inlined, or comes from a cache with all classes. -/
  classes : ∀ cls, cls ∈ (e.treeOfNative n trusted).classes ⟨o⟩ bci ↔
    (∃ d ∈ n.scopes, d.sender = some (o, bci) ∧ d.key.cls = cls) ∨
      ∃ s ∈ n.sites, s.scope = o ∧ s.bci = bci ∧ e.Enumerates trusted s.cache ∧
      ∃ x ∈ s.cache.entries,
        ∃ k, e.calleeKey? (0 < e.settings.maxDepth.toNat) trusted s.cache.selector x = some k ∧
        k.cls = cls
  /-- If a cache was used and its classes do not count, there is nothing but inlined callees. -/
  silent : ∀ s ∈ n.sites, s.scope = o → s.bci = bci → ¬s.cache.neverExecuted →
    ¬s.cache.isMegamorphic → ¬s.cache.flags.uninlinable → ¬e.Enumerates trusted s.cache →
    ∀ x ∈ (e.treeOfNative n trusted).subscopes ⟨o⟩ bci, x.index < n.scopes.length

end Evidence

namespace Compiler

open FeedbackTree

variable {c : Compiler} {t : FeedbackTree} {key : LookupKey} {method : MethodId} {level : Nat}
  {comp : Compilation} {n : NativeMethod}

/-- Compiled code has one cache for a send. -/
theorem compile_places_nodup (hw : c.classes.WellFormed)
    (h : c.compile t key method level = .ok comp) :
    comp.native.places.Nodup := by
  obtain ⟨hgraph, hemit⟩ := compile_ok h
  obtain ⟨size, hn⟩ := SendGraph.exists_code_of_emit hemit
  have hincreasing := (SendGraph.code_increasing (graph_positions hw hgraph) size).1
  rw [hn]
  refine List.pairwise_map.2 (hincreasing.imp fun {a b} hab heq => ?_)
  obtain ⟨hscope, hbci⟩ := Prod.mk.inj heq
  lia

section Used

variable (h : c.compile t key method level = .ok comp) (hn : n.LaidOutAs comp.native)
include h hn

/-- What the tree of code says about a send: its inlined callees, its traps, and what is heard of
    its caches. -/
theorem laidOut_finds (hbuilt : c.classes.Built) {e : Evidence} (henabled : e.settings.enabled)
    (hdatabase : e.database = none) (trusted : Bool) {o : Offset} (ho : o < n.scopes.length)
    (bci : Bci) (f : Finding) :
    (e.treeOfNative n trusted).Finds ⟨o⟩ bci f ↔
      (∃ d ∈ n.scopes, d.sender = some (o, bci) ∧ f = .seen d.key) ∨
        (∃ s ∈ n.traps, s.scope = o ∧ s.bci = bci ∧ s.Shows f) ∨
        ∃ s ∈ n.sites, s.scope = o ∧ s.bci = bci ∧
          e.Hears (0 < e.settings.maxDepth.toNat) trusted s.cache f := by
  obtain ⟨hpre, hne, hscopes⟩ := laidOut_preordered h hn
  exact Evidence.finds_treeOfNative hpre hne hscopes henabled hdatabase
    (fun x hx y hy => laidOut_apart h hn hbuilt.wellFormed hx hy) (by simpa [hscopes] using ho)

variable {e : Evidence} (henabled : e.settings.enabled) {trusted : Bool} {o : Offset}
include henabled

/-- The tree has the scopes of the code under the same numbers. -/
theorem laidOut_scope {d : ScopeDesc} (hd : n.scopes[o]? = some d) :
    ∃ s, (e.treeOfNative n trusted).get? ⟨o⟩ = some s ∧
    s.what = .inlined d.key d.method n.id d.offset d.lite := by
  obtain ⟨hpre, hne, hscopes⟩ := laidOut_preordered h hn
  rw [hscopes, List.getElem?_map] at hd
  obtain ⟨k, hk, rfl⟩ := Option.map_eq_some_iff.1 hd
  obtain ⟨s, hs, hwhat, -⟩ := (Evidence.gains_spoken hpre hne hscopes henabled trusted).keeps o
    (k.rebuilt n.id) (by rw [scopes_ofScopes, List.getElem?_map, hk]; rfl)
  exact ⟨s, hs, hwhat⟩

/-- What hangs at a send, but for inlined callees, comes from its trap or from a cache that
    speaks. -/
theorem laidOut_subscope (ho : o < n.scopes.length) {bci : Bci} {x : ScopeId}
    (hx : x ∈ (e.treeOfNative n trusted).subscopes ⟨o⟩ bci) (hge : n.scopes.length ≤ x.index) :
    (∃ s ∈ n.traps, s.scope = o ∧ s.bci = bci) ∨
      ∃ s ∈ n.sites, s.scope = o ∧ s.bci = bci ∧ e.Speaks trusted s.cache := by
  obtain ⟨hpre, hne, hscopes⟩ := laidOut_preordered h hn
  obtain ⟨s, hs, hsender⟩ :=
    ((e.grows_treeOfNative n trusted).1.shaped.toFiled.filedAt ⟨o⟩ bci x).1 hx
  rw [hscopes, List.length_map] at hge ho
  have hgains := Evidence.gains_spoken hpre hne hscopes henabled trusted
  rcases (hgains.gained x.index s hs (by simpa using hge)).2 ⟨o⟩ bci hsender
      (by simpa using ho) with
    ⟨y, hy, hscope, hbci, -⟩ | ⟨y, hy, hscope, hbci, hspeaks, -⟩
  · exact .inl ⟨y, hy, congrArg ScopeId.index hscope, hbci⟩
  · exact .inr ⟨y, hy, congrArg ScopeId.index hscope, hbci, hspeaks⟩

end Used

/-- The tree of code that was compiled, whatever was sent through its caches since and whichever of
    its traps have fired, has a scope for each scope of the code, and tells about each of its sends
    what is found there. Such code is laid out as it was compiled (`NativeMethod.laidOut_run`), and
    none of its sends has two caches (`compile_places_nodup`, `NativeMethod.places_run`). -/
theorem sends_classified (hbuilt : c.classes.Built) (h : c.compile t key method level = .ok comp)
    (hn : n.LaidOutAs comp.native) (hplaces : n.places.Nodup) {e : Evidence}
    (henabled : e.settings.enabled) (hdatabase : e.database = none) (trusted : Bool) {o : Offset}
    {d : ScopeDesc} (hd : n.scopes[o]? = some d) (bci : Bci) :
    (∃ s, (e.treeOfNative n trusted).get? ⟨o⟩ = some s ∧
      s.what = .inlined d.key d.method n.id d.offset d.lite) ∧ e.ClassifiedAt trusted n o bci := by
  have ho : o < n.scopes.length := (List.getElem?_eq_some_iff.1 hd).1
  have hfinds := laidOut_finds h hn hbuilt henabled hdatabase trusted ho bci
  have hfiled := (e.grows_treeOfNative n trusted).1.shaped.toFiled.filedAt ⟨o⟩
  refine ⟨laidOut_scope h hn henabled hd, ?_⟩
  -- Each field reads off one kind of finding.
  constructor
  case untaken =>
    rw [hfiled.isUntaken_iff, hfinds]
    simp [TrapSite.shows_untaken, Evidence.Hears]
  case uninlinable =>
    rw [hfiled.isUninlinable_iff, hfinds]
    simp [TrapSite.not_shows_uninlinable, Evidence.Hears]
  case uncommon =>
    rw [isUncommon_iff, hfinds]
    simp [TrapSite.shows_uncommon, Evidence.Hears]
  case complete =>
    rw [isComplete_iff, hfinds]
    simp [TrapSite.not_shows_complete, Evidence.Hears, Evidence.enumerates_iff]
  case classes =>
    intro cls
    simp only [hfiled.mem_classes_iff, hfinds, Evidence.Hears, Evidence.enumerates_iff]
    constructor
    · rintro ⟨k, rfl, ⟨d, hd, hsender, hk⟩ | ⟨s, -, -, -, hs⟩
        | ⟨s, hs, hscope, hbci, hcount, x, hx, hk⟩⟩
      · exact .inl ⟨d, hd, hsender, by rw [Finding.seen.inj hk]⟩
      · exact absurd hs (TrapSite.not_shows_seen k)
      · exact .inr ⟨s, hs, hscope, hbci, hcount, x, hx, k, hk, rfl⟩
    · rintro (⟨d, hd, hsender, rfl⟩ | ⟨s, hs, hscope, hbci, hcount, x, hx, k, hk, rfl⟩)
      · exact ⟨d.key, rfl, .inl ⟨d, hd, hsender, rfl⟩⟩
      · exact ⟨k, rfl, .inr (.inr ⟨s, hs, hscope, hbci, hcount, x, hx, hk⟩)⟩
  case silent =>
    intro s hs hscope hbci hnever hmega hflag hcount x hx
    rw [Evidence.enumerates_iff] at hcount
    -- Whatever hangs there and is not of the code came from a trap or a cache of this send.
    by_contra hge
    rcases laidOut_subscope h hn henabled ho hx (Nat.not_lt.1 hge) with
      ⟨y, hy, hyscope, hybci⟩ | ⟨y, hy, hyscope, hybci, hspeaks⟩
    · exact laidOut_apart h hn hbuilt.wellFormed hs hy
        ⟨hyscope.trans hscope.symm, hybci.trans hbci.symm⟩
    · obtain rfl : s = y := List.inj_on_of_nodup_map hplaces hs hy
        (Prod.ext (hscope.trans hyscope.symm) (hbci.trans hybci.symm))
      rcases hspeaks with hran | hflagged | ⟨hempty, htrusts⟩
      · exact hnever hran
      · exact hflagged.elim hmega hflag
      · exact hcount ⟨⟨hnever, hmega, hflag, hempty⟩, htrusts⟩

/-- A method that sends `x` three times to something unknown, and `leaf` to itself. -/
def fourSends : Compiler where
  settings := {}
  classes := { ClassTable.initial with
    classes := ClassTable.initial.classes.set 0 ⟨"Object", none, [(⟨0⟩, ⟨1⟩), (⟨1⟩, ⟨0⟩)]⟩
    methods := [
      Draft.finish { selector := ⟨1⟩, steps := [.work 1] } ⟨0⟩ ⟨0⟩ none,
      Draft.finish
        { selector := ⟨0⟩
          steps := [.send ⟨2⟩ .unknown [], .send ⟨2⟩ .unknown [], .send ⟨2⟩ .unknown [],
            .send ⟨1⟩ .self []] } ⟨1⟩ ⟨0⟩ none]
    selectors := ["run", "leaf", "x"] }
  code := {}
  traps := {}

theorem built_fourSends : fourSends.classes.Built := by
  have h := ((ClassTable.Built.initial.intern "run").intern "leaf").intern "x"
  have h := ClassTable.Built.addMethod h (c := ⟨0⟩)
    (b := { selector := ⟨1⟩, steps := [.work 1] }) rfl
  exact ClassTable.Built.addMethod h (c := ⟨0⟩)
    (b := { selector := ⟨0⟩
            steps := [.send ⟨2⟩ .unknown [], .send ⟨2⟩ .unknown [], .send ⟨2⟩ .unknown [],
              .send ⟨1⟩ .self []] }) rfl

/-- The second send has never run. -/
def secondUntaken : FeedbackTree := .ofScopes [
  { what := .interpreted (.send ⟨0⟩ ⟨0⟩) ⟨1⟩ true, sender := none, level := 0 },
  { what := .untaken .neverExecuted, sender := some (⟨0⟩, 1), level := 1 }]

/-- The code of the method: two sends are left, and a trap. -/
def fourSendsCode : NativeMethod where
  key := .send ⟨0⟩ ⟨0⟩
  method := ⟨1⟩
  level := 1
  scopes := [⟨0, none, .send ⟨0⟩ ⟨0⟩, ⟨1⟩, false⟩, ⟨1, some (0, 3), .send ⟨0⟩ ⟨1⟩, ⟨0⟩, false⟩]
  sites := [
    ⟨0, 0, { selector := ⟨2⟩, flags := { optimized := true, counting := true } }⟩,
    ⟨0, 2, { selector := ⟨2⟩, flags := { optimized := true, counting := true } }⟩]
  traps := [{ scope := 0, bci := 1 }]

/-- Two classes have come to the first send, and the trap in place of the second one has fired. -/
def fourSendsUse : List CodeEvent := [
  .cache 0 (.dispatch .array (fun _ => some (.compiled ⟨0⟩)) {} 4),
  .cache 0 (.dispatch .smallInteger (fun _ => some (.interpreted ⟨0⟩)) {} 4), .trap 0 1]

/-- The code that the first send has called was compiled for another class. -/
def calledCode : Evidence where
  classes := fourSends.classes
  code := {
    methods := [{
      key := .send ⟨0⟩ ⟨2⟩
      method := ⟨0⟩
      level := 1
      invocations := 10
      scopes := [⟨0, none, .send ⟨0⟩ ⟨2⟩, ⟨0⟩, false⟩] }] }
  sites := {}
  database := none
  settings := {}

/-- The code of the example is what is compiled. -/
theorem compile_fourSends :
    ∃ comp, fourSends.compile secondUntaken (.send ⟨0⟩ ⟨0⟩) ⟨1⟩ 1 = .ok comp ∧
    comp.native.scopes = fourSendsCode.scopes ∧ comp.native.sites = fourSendsCode.sites ∧
    comp.native.traps = fourSendsCode.traps := by
  obtain ⟨comp, h, hsorted, hscopes, hsites, htraps⟩ : ∃ comp,
      fourSends.compile secondUntaken (.send ⟨0⟩ ⟨0⟩) ⟨1⟩ 1 = .ok comp ∧
      (comp.graph.sends.Pairwise fun a b => a.le b) ∧
      comp.graph.scopes.map (·.desc) = fourSendsCode.scopes ∧
      comp.graph.sends.filterMap (·.site?) = fourSendsCode.sites ∧
      comp.graph.sends.filterMap (·.trap?) = fourSendsCode.traps :=
    ⟨_, rfl, by decide, rfl, rfl, rfl⟩
  -- The sends are in order as they are, so nothing has to be sorted.
  obtain ⟨size, hn⟩ := SendGraph.exists_code_of_emit (compile_ok h).2
  refine ⟨comp, h, ?_⟩
  rw [hn, SendGraph.code, List.mergeSort_of_pairwise hsorted]
  exact ⟨hscopes, hsites, htraps⟩

theorem sends_classified_fourSends :
    ∃ comp n, fourSends.compile secondUntaken (.send ⟨0⟩ ⟨0⟩) ⟨1⟩ 1 = .ok comp ∧
    n = comp.native.run fourSendsUse ∧
    ¬(calledCode.treeOfNative n false).isComplete ⟨0⟩ 0 ∧
    (∀ x ∈ (calledCode.treeOfNative n false).subscopes ⟨0⟩ 0, x.index < 2) ∧
    (calledCode.treeOfNative n true).isComplete ⟨0⟩ 0 ∧
    ⟨0⟩ ∈ (calledCode.treeOfNative n true).classes ⟨0⟩ 0 ∧
    (calledCode.treeOfNative n true).isUncommon ⟨0⟩ 1 ∧
    (calledCode.treeOfNative n true).isUntaken ⟨0⟩ 2 := by
  obtain ⟨comp, h, hscopes, hsites, htraps⟩ := compile_fourSends
  have hn := comp.native.laidOut_run fourSendsUse
  have hplaces : (comp.native.run fourSendsUse).places.Nodup := by
    rw [(comp.native.places_run fourSendsUse).2.1]
    exact compile_places_nodup built_fourSends.wellFormed h
  have hnsites : (comp.native.run fourSendsUse).sites = (fourSendsCode.run fourSendsUse).sites := by
    show ((comp.native.sites.modify 0 _).modify 0 _) = _
    rw [hsites]
    rfl
  have hntraps : (comp.native.run fourSendsUse).traps = (fourSendsCode.run fourSendsUse).traps := by
    show comp.native.traps.modify 0 _ = _
    rw [htraps]
    rfl
  have hclassified (trusted : Bool) (bci : Bci) :
      calledCode.ClassifiedAt trusted (comp.native.run fourSendsUse) 0 bci :=
    (sends_classified built_fourSends h hn hplaces rfl rfl trusted
      (by rw [hn.scopes, hscopes]; rfl) bci).2
  refine ⟨comp, _, h, rfl, ?_, ?_, ?_, ?_, ?_, ?_⟩
  · rw [(hclassified false 0).complete, hnsites]
    decide
  · have hmany : ∃ s ∈ (fourSendsCode.run fourSendsUse).sites, s.scope = 0 ∧ s.bci = 0 ∧
        ¬s.cache.neverExecuted ∧
        ¬s.cache.isMegamorphic ∧ ¬s.cache.flags.uninlinable ∧
            ¬calledCode.Enumerates false s.cache := by
          decide
    obtain ⟨s, hs, hscope, hbci, hran, hmega, hflag, hcount⟩ := hmany
    intro x hx
    have hlt := (hclassified false 0).silent s (hnsites ▸ hs) hscope hbci
      hran hmega hflag hcount x hx
    rwa [hn.scopes, hscopes] at hlt
  · rw [(hclassified true 0).complete, hnsites]
    decide
  · rw [(hclassified true 0).classes, hnsites]
    -- The root of code is found by sorting its scopes, which only the kernel evaluates.
    exact .inr ⟨_, .head _, rfl, rfl, by decide, _, .head _, .send ⟨0⟩ ⟨2⟩, by decide +kernel, rfl⟩
  · rw [(hclassified true 1).uncommon, hntraps]
    decide
  · rw [(hclassified true 2).untaken, hnsites, hntraps]
    decide

end Compiler

end Warmup
