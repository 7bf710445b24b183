import Warmup.Proofs.Capture
import Warmup.Proofs.SendPositions

/-!
# Feedback that the database carries

The feedback tree of native code, and the one that the database gives after the code
was captured, are made in different ways: the first one from the top down by a
stack of open scopes, with the caches and traps of the code itself, the second one
from nodes that were folded together from the bottom up and filed under names. They
say the same about every scope of the code (`Compiler.capture_carries_feedback`),
because both say what the code shows (`NativeMethod.Finds`).
-/

namespace Warmup

/-- Code whose feedback a record can carry: all its keys are those of sends, and its
    caches have interpreted methods, for classes that understand the selector and
    were not inlined at the send. -/
structure NativeMethod.Carriable (t : ClassTable) (n : NativeMethod) : Prop where
  sends : ∀ d ∈ n.scopes, ∃ cls s, d.key = .send cls s
  interpreted : ∀ s ∈ n.sites, ∀ x ∈ s.cache.entries, ∃ m, x.target = .interpreted m
  understood : ∀ s ∈ n.sites, ∀ x ∈ s.cache.entries, (t.lookup x.cls s.cache.selector).isSome
  apart : ∀ s ∈ n.sites, ∀ x ∈ s.cache.entries, ∀ d ∈ n.scopes, d.sender = some (s.scope, s.bci) →
    d.key.cls ≠ x.cls

/-- A scope of a tree stands for a method and says the same about its sends as a scope
    of another tree that stands for it. -/
structure FeedbackTree.AgreesAt (t t' : FeedbackTree) (s s' : ScopeId) (m : MethodId) : Prop where
  method : (t.get? s).bind (·.what.method?) = some m
  method' : (t'.get? s').bind (·.what.method?) = some m
  classes : ∀ bci cls, cls ∈ t.classes s bci ↔ cls ∈ t'.classes s' bci
  isUntaken : ∀ bci, t.isUntaken s bci = t'.isUntaken s' bci
  isUninlinable : ∀ bci, t.isUninlinable s bci = t'.isUninlinable s' bci
  isComplete : ∀ bci, t.isComplete s bci = t'.isComplete s' bci

/-- Trees in which the same is found at two scopes answer all questions about them in the same
    way. -/
theorem FeedbackTree.AgreesAt.of_finds {t t' : FeedbackTree} {s s' : ScopeId} {m : MethodId}
    (hfiled : t.FiledAt s) (hfiled' : t'.FiledAt s')
    (hm : (t.get? s).bind (·.what.method?) = some m)
    (hm' : (t'.get? s').bind (·.what.method?) = some m)
    (h : ∀ bci f, f ≠ .uncommon → (t.Finds s bci f ↔ t'.Finds s' bci f)) :
    t.AgreesAt t' s s' m where
  method := hm
  method' := hm'
  classes bci cls := by
    rw [hfiled.mem_classes_iff, hfiled'.mem_classes_iff]
    exact exists_congr fun k => and_congr_right fun _ => h bci (.seen k) (by simp)
  isUntaken bci := by
    rw [Bool.eq_iff_iff, hfiled.isUntaken_iff, hfiled'.isUntaken_iff]
    exact h bci .untaken (by simp)
  isUninlinable bci := by
    rw [Bool.eq_iff_iff, hfiled.isUninlinable_iff, hfiled'.isUninlinable_iff]
    exact h bci .uninlinable (by simp)
  isComplete bci := by
    rw [Bool.eq_iff_iff, isComplete_iff, isComplete_iff]
    exact h bci .complete (by simp)

namespace NativeMethod

variable {n : NativeMethod} {o : Offset} {bci : Bci} {path : List (Bci × LookupKey)}

/-- A path to a scope goes on to its callees. -/
theorem Reaches.concat {o' : Offset} (h : n.Reaches o path o') {d : ScopeDesc} (hd : d ∈ n.scopes)
    (hs : d.sender = some (o', bci)) : n.Reaches o (path ++ [(bci, d.key)]) d.offset := by
  induction h with
  | here o => exact .inlined hd hs (.here d.offset)
  | inlined hd' hs' _ ih => exact .inlined hd' hs' (ih hs)

/-- A scope is reached from the root along its path. -/
theorem reaches_path {g : SendGraph} (h : Preordered g.scopes)
    (hn : n.scopes = g.scopes.map (·.desc)) {k : CompileScope} (hk : g.scopes[o]? = some k) :
    n.Reaches 0 (g.path o) o := by
  induction o using Nat.strongRecOn generalizing k with
  | ind o ih =>
    rcases o with _ | o
    · rw [h.path_root hk (h.root k hk)]
      exact .here 0
    · obtain ⟨p, bci, x, hs, hx, -⟩ := h.nested o k hk
      have hmem : k.desc ∈ n.scopes := hn ▸ List.mem_map_of_mem (List.mem_of_getElem? hk)
      have hreaches := (ih p (h.sender_lt _ k p bci hk hs) hx).concat hmem hs
      have hid : k.desc.offset = o + 1 := h.id_eq _ k hk
      rwa [h.path_sender hk hs, ← hid]

/-- A path leads through a tree where each of its steps does. -/
theorem Reaches.follow {o' : Offset} (h : n.Reaches o path o') {t : FeedbackTree}
    (hfind : ∀ d ∈ n.scopes, ∀ o bci, d.sender = some (o, bci) →
      t.find? ⟨o⟩ bci d.key = some ⟨d.offset⟩) :
    t.follow ⟨o⟩ path = some ⟨o'⟩ := by
  induction h with
  | here o => rfl
  | inlined hd hs _ ih => rw [FeedbackTree.follow, hfind _ hd _ _ hs, Option.bind_some, ih]

end NativeMethod

namespace Compiler

variable {c : Compiler} {t : FeedbackTree} {key : LookupKey} {method : MethodId} {level : Nat}
  {comp : Compilation} {n : NativeMethod}

section Captured

variable (hbuilt : c.classes.Built) (h : c.compile t key method level = .ok comp)
  (hn : n.LaidOutAs comp.native)
include hbuilt h hn

omit hbuilt in
/-- The scopes of compiled code are numbered. -/
theorem laidOut_numbered : n.Numbered := by
  obtain ⟨hpre, -, hscopes⟩ := laidOut_preordered h hn
  have hget {i : Nat} {d : ScopeDesc} (hd : n.scopes[i]? = some d) :
      ∃ k, comp.graph.scopes[i]? = some k ∧ k.desc = d := by
    rw [hscopes, List.getElem?_map] at hd
    exact Option.map_eq_some_iff.1 hd
  -- Scopes are numbered as those of the graph, which is in preorder.
  constructor
  · intro i d hd
    obtain ⟨k, hk, rfl⟩ := hget hd
    exact hpre.id_eq i k hk
  · intro d hd
    obtain ⟨k, hk, rfl⟩ := hget hd
    exact hpre.root k hk
  · intro i d hd
    obtain ⟨k, hk, rfl⟩ := hget hd
    obtain ⟨o, bci, -, hs, -⟩ := hpre.nested i k hk
    exact ⟨o, bci, hs, Nat.le_of_lt_succ (hpre.sender_lt _ k o bci hk hs)⟩

/-- Code that was compiled can be described by a record. -/
theorem laidOut_recordable (hinterned : c.classes.Interned)
    (hkey : key.resolve c.classes = some method) (hc : n.Carriable c.classes) :
    n.Recordable c.classes := by
  obtain ⟨-, -, hscopes⟩ := laidOut_preordered h hn
  have hup := compile_upToDate hbuilt.wellFormed hkey h
  refine ⟨laidOut_numbered h hn, ?_, ?_, ?_, hc.apart⟩
  · -- What was inlined was looked up, so the names of its key lead back to it.
    intro d hd
    obtain ⟨cls, s, hsend⟩ := hc.sends d hd
    rw [hsend]
    exact ClassTable.nameable_of_lookup hbuilt hinterned (hup.scope d (hn.scopes ▸ hd) cls s hsend)
  · intro s hs x hx
    obtain ⟨m, hm⟩ := Option.isSome_iff_exists.1 (hc.understood s hs x hx)
    exact ⟨m, ClassTable.nameable_of_lookup hbuilt hinterned hm⟩
  · have hnodup := graph_nodup (compile_ok h).1 hbuilt.wellFormed
    rwa [hscopes, List.map_map]

/-- The tree of the code leads to each of its scopes, and says what the code shows. -/
theorem laidOut_live
    (hinterpreted : ∀ s ∈ n.sites, ∀ x ∈ s.cache.entries, ∃ m, x.target = .interpreted m)
    {e : Evidence} (henabled : e.settings.enabled) (hdatabase : e.database = none)
    (hlimit : ∀ s ∈ n.sites, s.cache.entries.length ≤ e.settings.trustLimit.toNat) {o : Offset}
    {d : ScopeDesc} (hd : n.scopes[o]? = some d) :
    (e.treeOfNative n true).follow FeedbackTree.root (comp.graph.path o) = some ⟨o⟩ ∧
      ((e.treeOfNative n true).get? ⟨o⟩).bind (·.what.method?) = some d.method ∧
      ∀ bci f, (e.treeOfNative n true).Finds ⟨o⟩ bci f ↔ n.Finds o bci f := by
  obtain ⟨hpre, hne, hscopes⟩ := laidOut_preordered h hn
  have hgains := Evidence.gains_treeOfNative hpre hne hscopes henabled true
  have htrusts : ∀ x ∈ n.sites, e.trusts true x.cache := fun x hx => by
    simp [Evidence.trusts, hlimit x hx]
  obtain ⟨k, hk, rfl⟩ : ∃ k, comp.graph.scopes[o]? = some k ∧ k.desc = d := by
    rw [hscopes, List.getElem?_map] at hd
    exact Option.map_eq_some_iff.1 hd
  refine ⟨(NativeMethod.reaches_path hpre hscopes hk).follow ?_, ?_, fun bci f => ?_⟩
  · -- At each step of the path the tree finds the scope that is inlined there.
    intro d hd o bci hs
    obtain ⟨k, hk, rfl⟩ := List.mem_map.1 (hscopes ▸ hd)
    obtain ⟨i, hi⟩ := List.mem_iff_getElem?.1 hk
    have hid : k.desc.offset = i := hpre.id_eq i k hi
    rw [hid]
    exact FeedbackTree.find?_rebuilt hgains hpre.toOrdered
      (graph_nodup (compile_ok h).1 hbuilt.wellFormed) hi hs
  · obtain ⟨s, hs, hwhat, -⟩ := FeedbackTree.get?_rebuilt hgains hk
    exact Option.bind_eq_some_iff.2 ⟨s, hs, by rw [hwhat]; rfl⟩
  · exact Evidence.finds_treeOfNative_of_trusts hpre hne hscopes henabled
      hdatabase hinterpreted htrusts
      (fun x hx y hy => laidOut_apart h hn hbuilt.wellFormed hx hy)
      (List.getElem?_eq_some_iff.1 hk).1

/-- So does the tree of the record. -/
theorem laidOut_recorded (hnkey : n.key = comp.native.key) (hrecordable : n.Recordable c.classes)
    (hkey : key.resolve c.classes = some method) (db : Database) :
    ∃ T, (db.capture c.classes n).2.tree? c.classes n.key none = some T ∧
      ∀ (o : Offset) (d : ScopeDesc), n.scopes[o]? = some d →
        ∃ s, T.follow FeedbackTree.root (comp.graph.path o) = some s ∧
          (T.get? s).bind (·.what.method?) = some d.method ∧
          ∀ bci f, f ≠ .uncommon → (T.Finds s bci f ↔ n.Finds o bci f) := by
  obtain ⟨hpre, -, hscopes⟩ := laidOut_preordered h hn
  obtain ⟨hgraph, hemit⟩ := compile_ok h
  have hnkey : n.key = comp.graph.key := hnkey.trans (SendGraph.emit_ok hemit).1
  obtain ⟨hgkey, -, -, m, hm, hexp⟩ := graph_expanded hgraph
  -- The record is filed under the root, which is the method that the key resolves to.
  have hroot : n.scopes[0]? = some (rootScope t comp.graph.key m).desc := by
    rw [hscopes, List.getElem?_map, ← List.head?_eq_getElem?, hgkey, hexp.head]
    rfl
  have hresolve : n.key.resolve c.classes = some m.id := by
    rw [hnkey, hgkey, hkey, hbuilt.wellFormed.id_eq method m hm]
  obtain ⟨node, hnode, hdescribes⟩ := Database.exists_lookup_capture db hrecordable hroot hnkey
  obtain ⟨T, hT, hcarries⟩ := Database.exists_tree?_carries hnode hresolve
  refine ⟨T, hT, fun o d hd => ?_⟩
  obtain ⟨k, hk, rfl⟩ : ∃ k, comp.graph.scopes[o]? = some k ∧ k.desc = d := by
    rw [hscopes, List.getElem?_map] at hd
    exact Option.map_eq_some_iff.1 hd
  obtain ⟨node', d', hd', hleads, hfinds⟩ :=
    hdescribes _ _ (NativeMethod.reaches_path hpre hscopes hk)
  obtain rfl := Option.some.inj (hd'.symm.trans hd)
  obtain ⟨s, hs, htells⟩ := hcarries _ _ _ hleads
  exact ⟨s, hs, htells.method, fun bci f hf => (htells.finds bci f).trans (hfinds bci f hf)⟩

end Captured

/-- The feedback of compiled code survives in the database: whatever its caches and
    traps have come to be, the tree of the code and that of its record have all its
    scopes, and agree at each of them. -/
theorem capture_carries_feedback (hbuilt : c.classes.Built) (hinterned : c.classes.Interned)
    (h : c.compile t key method level = .ok comp) (hkey : key.resolve c.classes = some method)
    (hn : n.LaidOutAs comp.native) (hnkey : n.key = comp.native.key) (hc : n.Carriable c.classes)
    {e : Evidence} (henabled : e.settings.enabled) (hdatabase : e.database = none)
    (hlimit : ∀ s ∈ n.sites, s.cache.entries.length ≤ e.settings.trustLimit.toNat) (db : Database) :
    ∃ T, (db.capture c.classes n).2.tree? c.classes n.key none = some T ∧
      ∀ (o : Offset) (d : ScopeDesc), n.scopes[o]? = some d →
        ∃ s s', (e.treeOfNative n true).follow FeedbackTree.root (comp.graph.path o) = some s ∧
          T.follow FeedbackTree.root (comp.graph.path o) = some s' ∧
          (e.treeOfNative n true).AgreesAt T s s' d.method := by
  have hrecordable := laidOut_recordable hbuilt h hn hinterned hkey hc
  obtain ⟨T, hT, hscopes⟩ := laidOut_recorded hbuilt h hn hnkey hrecordable hkey db
  refine ⟨T, hT, fun o d hd => ?_⟩
  obtain ⟨hfollow, hmethod, hfinds⟩ :=
    laidOut_live hbuilt h hn hc.interpreted henabled hdatabase hlimit hd
  obtain ⟨s', hfollow', hmethod', hfinds'⟩ := hscopes o d hd
  have hlive := (e.grows_treeOfNative n true).1.shaped.toFiled
  have hrecorded :=
    (FeedbackTree.grows_tree? (R := True) (d := 0) hT fun _ _ => trivial).1.shaped.toFiled
  exact ⟨⟨o⟩, s', hfollow, hfollow', .of_finds (hlive.filedAt ⟨o⟩) (hrecorded.filedAt s')
    hmethod hmethod' fun bci f hf => (hfinds bci f).trans (hfinds' bci f hf).symm⟩

/-- A method that calls one that calls a third one twice, and sends `x` to its argument. -/
def doubling : Compiler where
  settings := {}
  classes := { ClassTable.initial with
    classes := ClassTable.initial.classes.set 0
      ⟨"Object", none, [(⟨2⟩, ⟨2⟩), (⟨1⟩, ⟨1⟩), (⟨0⟩, ⟨0⟩)]⟩
    methods := [
      Draft.finish { selector := ⟨0⟩, steps := [.work 1] } ⟨0⟩ ⟨0⟩ none,
      Draft.finish { selector := ⟨1⟩, steps := [.send ⟨0⟩ .self [], .send ⟨0⟩ .self []] } ⟨1⟩
      ⟨0⟩ none,
      Draft.finish { selector := ⟨2⟩, argCount := 1,
                     steps := [.send ⟨1⟩ .self [], .send ⟨0⟩ (.arg 0) []] } ⟨2⟩ ⟨0⟩ none]
    selectors := ["x", "twice", "run:"] }
  code := {}
  traps := {}

/-- The code of `run:`, when its second send has run for an array. -/
def doublingCode : NativeMethod where
  id := ⟨0⟩
  key := .send ⟨0⟩ ⟨2⟩
  method := ⟨2⟩
  level := 1
  scopes := [
    ⟨0, none, .send ⟨0⟩ ⟨2⟩, ⟨2⟩, false⟩, ⟨1, some (0, 0), .send ⟨0⟩ ⟨1⟩, ⟨1⟩, false⟩,
    ⟨2, some (1, 0), .send ⟨0⟩ ⟨0⟩, ⟨0⟩, false⟩, ⟨3, some (1, 1), .send ⟨0⟩ ⟨0⟩, ⟨0⟩, false⟩]
  sites := [⟨0, 1, { selector := ⟨0⟩, flags := { dirty := true },
                     dest := .pic (.entries [⟨.array, .interpreted ⟨0⟩⟩]) }⟩]

/-- The classes are built by definitions, as those of a program are. -/
theorem built_doubling : doubling.classes.Built := by
  have h := ((ClassTable.Built.initial.intern "x").intern "twice").intern "run:"
  have h := ClassTable.Built.addMethod h (c := ⟨0⟩)
    (b := { selector := ⟨0⟩, steps := [.work 1] }) rfl
  have h := ClassTable.Built.addMethod h (c := ⟨0⟩)
    (b := { selector := ⟨1⟩, steps := [.send ⟨0⟩ .self [], .send ⟨0⟩ .self []] }) rfl
  exact ClassTable.Built.addMethod h (c := ⟨0⟩)
    (b := { selector := ⟨2⟩, argCount := 1, steps := [.send ⟨1⟩ .self [], .send ⟨0⟩ (.arg 0) []] })
    rfl

theorem interned_doubling : doubling.classes.Interned :=
  (by decide : ∀ e ∈ doubling.classes.classes, ∀ x ∈ e.methods,
    x.1.index < doubling.classes.selectors.length)

/-- The code is what the compiler makes of `run:`, with everything inlined. -/
theorem compile_doubling : ∃ comp, doubling.compile .null (.send ⟨0⟩ ⟨2⟩) ⟨2⟩ 1 = .ok comp ∧
    doublingCode.LaidOutAs comp.native ∧ doublingCode.key = comp.native.key ∧
      comp.graph.path 0 = [] ∧
    comp.graph.path 3 = [(0, .send ⟨0⟩ ⟨1⟩), (1, .send ⟨0⟩ ⟨0⟩)] := by
  obtain ⟨comp, h, hkey, hscopes, ⟨x, hx, s, hs, hscope, hbci⟩, hpath, hpath'⟩ : ∃ comp,
      doubling.compile .null (.send ⟨0⟩ ⟨2⟩) ⟨2⟩ 1 = .ok comp ∧ doublingCode.key = comp.native.key ∧
      doublingCode.scopes = comp.native.scopes ∧
      (∃ x ∈ comp.graph.sends, ∃ s, x.site? = some s ∧ s.scope = 0 ∧ s.bci = 1) ∧
      comp.graph.path 0 = [] ∧ comp.graph.path 3 = [(0, .send ⟨0⟩ ⟨1⟩), (1, .send ⟨0⟩ ⟨0⟩)] :=
    ⟨_, rfl, rfl, rfl, ⟨_, List.mem_of_getElem? (i := 3) rfl, _, rfl, rfl, rfl⟩, rfl, rfl⟩
  have hsite : s ∈ comp.native.sites := SendGraph.mem_sites_of_emit (compile_ok h).2 hx hs
  refine ⟨comp, h, ⟨hscopes, ?_, by simp [doublingCode]⟩, hkey, hpath, hpath'⟩
  intro s' hs'
  obtain rfl := List.mem_singleton.1 hs'
  exact ⟨s, hsite, hscope, hbci⟩

theorem carriable_doublingCode : doublingCode.Carriable doubling.classes where
  sends d hd := ⟨d.key.cls, d.key.selector?.getD ⟨0⟩,
    (by decide : ∀ d ∈ doublingCode.scopes, d.key = .send d.key.cls (d.key.selector?.getD ⟨0⟩))
      d hd⟩
  interpreted s hs x hx := ⟨⟨0⟩,
    (by decide : ∀ s ∈ doublingCode.sites, ∀ x ∈ s.cache.entries, x.target = .interpreted ⟨0⟩)
      s hs x hx⟩
  understood := by decide
  apart := by decide

/-- What is known about the sends of the method is in its code only. -/
def doublingOnly (s : Settings.Feedback) : Evidence := ⟨doubling.classes, {}, {}, none, s⟩

/-- The second call of `x` is found below that of `twice` in both trees. -/
theorem capture_carries_feedback_doubling :
    ∃ comp T, doubling.classes.Built ∧ doubling.classes.Interned ∧
    doubling.compile .null (.send ⟨0⟩ ⟨2⟩) ⟨2⟩ 1 = .ok comp ∧ doublingCode.LaidOutAs comp.native ∧
    doublingCode.key = comp.native.key ∧ doublingCode.Carriable doubling.classes ∧
    (({} : Database).capture doubling.classes doublingCode).2.tree? doubling.classes
      doublingCode.key none = some T ∧
      ∃ s s', ((doublingOnly {}).treeOfNative doublingCode true).follow FeedbackTree.root
          [(0, .send ⟨0⟩ ⟨1⟩), (1, .send ⟨0⟩ ⟨0⟩)] = some s ∧
        T.follow FeedbackTree.root [(0, .send ⟨0⟩ ⟨1⟩), (1, .send ⟨0⟩ ⟨0⟩)] = some s' ∧
        ((doublingOnly {}).treeOfNative doublingCode true).AgreesAt T s s' ⟨0⟩ := by
  obtain ⟨comp, h, hlaid, hnkey, -, hpath⟩ := compile_doubling
  obtain ⟨T, hT, hscopes⟩ := capture_carries_feedback built_doubling
    interned_doubling h rfl hlaid hnkey
    carriable_doublingCode (e := doublingOnly {}) rfl rfl (by decide) {}
  exact ⟨comp, T, built_doubling, interned_doubling, h, hlaid, hnkey, carriable_doublingCode, hT,
    hpath ▸ hscopes 3 _ rfl⟩

/-- Where feedback is switched off, the tree of the code has no scope that stands for
    its method. -/
theorem not_carried_without_feedback : ∃ comp, doubling.classes.Built ∧ doubling.classes.Interned ∧
    doubling.compile .null (.send ⟨0⟩ ⟨2⟩) ⟨2⟩ 1 = .ok comp ∧
    (LookupKey.send ⟨0⟩ ⟨2⟩).resolve doubling.classes = some ⟨2⟩ ∧
      doublingCode.LaidOutAs comp.native ∧
    doublingCode.key = comp.native.key ∧ doublingCode.Carriable doubling.classes ∧
      (doublingOnly { enabled := false }).database = none ∧
    (∀ s ∈ doublingCode.sites,
      s.cache.entries.length ≤ (doublingOnly { enabled := false }).settings.trustLimit.toNat) ∧
    ¬∃ T, (({} : Database).capture doubling.classes doublingCode).2.tree? doubling.classes
      doublingCode.key none = some T ∧
      ∀ (o : Offset) (d : ScopeDesc), doublingCode.scopes[o]? = some d →
        ∃ s s', ((doublingOnly { enabled := false }).treeOfNative doublingCode true).follow
          FeedbackTree.root
            (comp.graph.path o) = some s ∧
          T.follow FeedbackTree.root (comp.graph.path o) = some s' ∧
          ((doublingOnly { enabled := false }).treeOfNative doublingCode true).AgreesAt T s s'
            d.method := by
  obtain ⟨comp, h, hlaid, hnkey, hpath, -⟩ := compile_doubling
  refine ⟨comp, built_doubling, interned_doubling, h, rfl, hlaid, hnkey, carriable_doublingCode,
    rfl, by decide, ?_⟩
  rintro ⟨T, -, hscopes⟩
  obtain ⟨s, s', hs, -, hagrees⟩ := hscopes 0 _ rfl
  rw [hpath] at hs
  obtain rfl := Option.some.inj hs
  exact absurd hagrees.method (by decide)

end Compiler

end Warmup
