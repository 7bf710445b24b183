import Warmup.Engine
import Warmup.Proofs.CacheEntries
import Warmup.Proofs.CodeVersions
import Warmup.Proofs.Definitions
import Warmup.Proofs.Inlining

/-!
# Code that is up to date

Code is made of the answers that lookups gave when it was compiled. It is up to
date (`NativeMethod.UpToDate`) as long as they would give the same ones.

* `compile_upToDate`: code that was just compiled is up to date;
* `UpToDate.extend`: it stays so under definitions that put no method into a
  dictionary;
* `UpToDate.addMethod`: under a new method it stays so unless the method that
  its class had before was compiled in.
-/

namespace Warmup

/-- What was compiled in is what lookups find. -/
structure NativeMethod.UpToDate (t : ClassTable) (n : NativeMethod) : Prop where
  /-- The key leads to the method. -/
  key : n.key.resolve t = some n.method
  /-- The method of a scope with the key of a send is the one that the send
      finds. -/
  scope : ∀ d ∈ n.scopes, ∀ c s, d.key = .send c s → t.lookup c s = some d.method
  /-- A scope was inlined at a send of another one; if that is a super send, its
      method is the one that the super send finds. -/
  sender : ∀ d ∈ n.scopes, ∀ o bci, d.sender = some (o, bci) →
    ∃ caller m site, n.scope? o = some caller ∧ t.method? caller.method = some m ∧
    m.sendAt? bci = some site ∧
      (site.isSuper → t.superLookup m.holder site.selector = some d.method)

/-! ## Definitions -/

section Definitions

variable {t t' : ClassTable} {k : LookupKey} {c : ClassId} {s : Selector} {m : MethodId}

namespace NativeMethod.UpToDate

variable {n n' : NativeMethod}

/-- Whether code is up to date depends on its key, its method and its scopes only. -/
theorem congr (h : n.UpToDate t) (hkey : n'.key = n.key) (hmethod : n'.method = n.method)
    (hscopes : n'.scopes = n.scopes) : n'.UpToDate t where
  key := by
    rw [hkey, hmethod]
    exact h.key
  scope := by
    rw [hscopes]
    exact h.scope
  sender := by
    intro d hd o bci hs
    rw [hscopes] at hd
    have hscope : n'.scope? o = n.scope? o := by rw [scope?, hscopes, scope?]
    rw [hscope]
    exact h.sender d hd o bci hs

/-- Code stays up to date when nothing is put into a dictionary. -/
theorem extend (h : n.UpToDate t) (ht : t.Extends t') : n.UpToDate t' where
  key := ht.resolve_eq_some h.key
  scope d hd c s hs := ht.lookup_eq_some (h.scope d hd c s hs)
  sender d hd o bci hs := by
    obtain ⟨caller, m, site, hcaller, hm, hsite, hsuper⟩ := h.sender d hd o bci hs
    exact ⟨caller, m, site, hcaller, ht.method _ m hm, hsite,
      fun hs => ht.superLookup_eq_some (hsuper hs)⟩

end NativeMethod.UpToDate

theorem NativeMethod.dependsOn_method (n : NativeMethod) : n.dependsOn n.method := by
  simp [dependsOn]

theorem NativeMethod.dependsOn_scope {n : NativeMethod} {d : ScopeDesc} (h : d ∈ n.scopes) :
    n.dependsOn d.method := by
  simp only [dependsOn, Bool.or_eq_true, List.any_eq_true, decide_eq_true_eq]
  exact .inr ⟨d, h, rfl⟩

section AddMethod

variable {b : Draft} {new : MethodId} (h : t.addMethod c b = .ok (t', new))

include h

/-- An answer that was not that of the class stays. -/
theorem ClassTable.lookup_addMethod_of_ne {x : ClassId} (hl : t.lookup x s = some m)
    (hm : t.lookup c b.selector ≠ some m) : t'.lookup x s = some m := by
  rcases lookup_addMethod h x s with hsame | ⟨hold, -⟩
  · rw [hsame, hl]
  · exact absurd (hold.symm.trans hl) hm

/-- A super send that did not lead to what the new method replaces leads where it did. -/
theorem ClassTable.superLookup_addMethod_of_ne {x : ClassId} (hl : t.superLookup x s = some m)
    (hm : t.lookup c b.selector ≠ some m) : t'.superLookup x s = some m := by
  obtain ⟨d, hd, hl⟩ := Option.bind_eq_some_iff.1 hl
  exact Option.bind_eq_some_iff.2
    ⟨d, by rw [superclass?_addMethod h, hd], lookup_addMethod_of_ne h hl hm⟩

/-- A key that did not lead to what the new method replaces leads where it did. -/
theorem LookupKey.resolve_addMethod_of_ne (hk : k.resolve t = some m)
    (hm : t.lookup c b.selector ≠ some m) :
    k.resolve t' = some m := by
  obtain ⟨cls, wanted⟩ := k
  cases wanted with
  | selector s => exact ClassTable.lookup_addMethod_of_ne h hk hm
  | method m' =>
    obtain ⟨e, he, rfl⟩ := Option.map_eq_some_iff.1 hk
    obtain ⟨superseded, he'⟩ := ClassTable.exists_method?_addMethod h he
    exact Option.map_eq_some_iff.2 ⟨_, he', rfl⟩

/-- Code stays up to date if the method that the class had before was not
    compiled in. -/
theorem NativeMethod.UpToDate.addMethod {n : NativeMethod} (hn : n.UpToDate t)
    (hold : ∀ old, t.lookup c b.selector = some old → ¬n.dependsOn old) : n.UpToDate t' where
  key := LookupKey.resolve_addMethod_of_ne h hn.key fun hm => hold _ hm n.dependsOn_method
  scope d hd x s hs :=
    ClassTable.lookup_addMethod_of_ne h (hn.scope d hd x s hs) fun hm =>
      hold _ hm (dependsOn_scope hd)
  sender d hd o bci hs := by
    obtain ⟨caller, m, site, hcaller, hm, hsite, hsuper⟩ := hn.sender d hd o bci hs
    -- The sender's method may be superseded now, which changes neither its
    -- sends nor its holder.
    obtain ⟨superseded, hm'⟩ := ClassTable.exists_method?_addMethod h hm
    refine ⟨caller, _, site, hcaller, hm', hsite, fun hs => ?_⟩
    exact ClassTable.superLookup_addMethod_of_ne h (hsuper hs) fun hm =>
      hold _ hm (dependsOn_scope hd)

end AddMethod

end Definitions

/-! ## Compilation -/

namespace Compiler

variable {c : Compiler} {t : FeedbackTree} {s k : CompileScope} {site : SendSite} {d : ClassId}

/-- What is inlined for a class is what its lookup finds. -/
theorem Inlines.lookup (h : c.Inlines t s site d k) {cls : ClassId} {x : Selector}
    (hx : k.key = .send cls x) :
    c.classes.lookup cls x = some k.method := by
  obtain ⟨e, he, hkey, hmethod, -⟩ := h.callee
  rw [hkey] at hx
  rw [hmethod]
  rw [calleeAt?] at he
  split at he
  · -- The callee of a super send is filed under its method.
    obtain ⟨m₀, -, he⟩ := Option.bind_eq_some_iff.1 he
    obtain ⟨target, -, he⟩ := Option.bind_eq_some_iff.1 he
    cases he
    cases hx
  · rcases callee?_cases he with ⟨b, outer, -, -, rfl⟩ | ⟨-, target, htarget, rfl⟩
    · -- So is a block that is called.
      cases hx
    · cases hx
      exact htarget

end Compiler

namespace SendGraph

variable {g : SendGraph} {n : NativeMethod}

/-- The code of a graph, of some size. -/
def code (g : SendGraph) (size : Nat) : NativeMethod where
  key := g.key
  method := g.method
  level := g.level
  size := size
  scopes := g.scopes.map (·.desc)
  sites := (g.sends.mergeSort SendNode.le).filterMap (·.site?)
  traps := (g.sends.mergeSort SendNode.le).filterMap (·.trap?)

/-- All that can fail when code is emitted is the computation of its size. -/
theorem exists_code_of_emit {t : ClassTable} (h : g.emit t = .ok n) : ∃ size, n = g.code size := by
  rw [emit] at h
  obtain ⟨cost, -, h⟩ := exists_ok_of_bind h
  obtain ⟨growth, -, h⟩ := exists_ok_of_bind h
  exact ⟨_, (Except.ok.inj h).symm⟩

/-- Code has the key, the method and the scopes of its graph, and fresh caches for
    the sends that are left. -/
theorem emit_ok {t : ClassTable} (h : g.emit t = .ok n) :
    n.key = g.key ∧ n.method = g.method ∧ n.scopes = g.scopes.map (·.desc) ∧
      ((∀ node ∈ g.sends, ∀ q, node.resolution.send? = some q → t.Anchors q.lookupClass) →
        n.All (·.Fresh t)) := by
  obtain ⟨size, rfl⟩ := exists_code_of_emit h
  refine ⟨rfl, rfl, rfl, fun hanchored s hs => ?_⟩
  obtain ⟨node, hnode, hsite⟩ := List.mem_filterMap.1 hs
  obtain ⟨q, hq, rfl⟩ := Option.map_eq_some_iff.1 hsite
  have hfresh := InlineCache.fresh_freshAt node.selector
    (hanchored node (List.mem_mergeSort.1 hnode) q hq)
  exact ⟨hfresh.dest, hfresh.anchored⟩

/-- Every cache of code is that of a send of its graph. -/
theorem emit_sites {t : ClassTable} (h : g.emit t = .ok n) {s : CallSite} (hs : s ∈ n.sites) :
    ∃ node ∈ g.sends, node.site? = some s := by
  obtain ⟨size, rfl⟩ := exists_code_of_emit h
  obtain ⟨node, hnode, hsite⟩ := List.mem_filterMap.1 hs
  exact ⟨node, List.mem_mergeSort.1 hnode, hsite⟩

/-- A send that is left as such gets a site of the code. -/
theorem mem_sites_of_emit {t : ClassTable} (h : g.emit t = .ok n) {node : SendNode}
    (hnode : node ∈ g.sends) {s : CallSite} (hs : node.site? = some s) : s ∈ n.sites := by
  obtain ⟨size, rfl⟩ := exists_code_of_emit h
  exact List.mem_filterMap.2 ⟨node, List.mem_mergeSort.2 hnode, hs⟩

/-- Every trap of code is that of a send of its graph. -/
theorem emit_traps {t : ClassTable} (h : g.emit t = .ok n) {s : TrapSite} (hs : s ∈ n.traps) :
    ∃ node ∈ g.sends, node.trap? = some s := by
  obtain ⟨size, rfl⟩ := exists_code_of_emit h
  obtain ⟨node, hnode, htrap⟩ := List.mem_filterMap.1 hs
  exact ⟨node, List.mem_mergeSort.1 hnode, htrap⟩

/-- The scope at an offset is the one with this number. -/
theorem find?_desc {l : List CompileScope} {s : CompileScope}
    (hnumbered : ∀ (i : Nat) (k : CompileScope), l[i]? = some k → k.id = i)
    (hs : l[s.id]? = some s) :
    (l.map (·.desc)).find? (·.offset = s.id) = some s.desc := by
  cases hfind : (l.map (·.desc)).find? (·.offset = s.id) with
  | none =>
    rw [List.find?_eq_none] at hfind
    exact absurd (decide_eq_true rfl) (hfind s.desc (List.mem_map_of_mem (List.mem_of_getElem? hs)))
  -- Scopes are numbered by their positions, so only one has this offset.
  | some d =>
    have hoffset : d.offset = s.id := by simpa using List.find?_some hfind
    obtain ⟨k, hk, rfl⟩ := List.mem_map.1 (List.mem_of_find?_eq_some hfind)
    obtain ⟨i, hi⟩ := List.mem_iff_getElem?.1 hk
    have hid : s.id = i := hoffset.symm.trans (hnumbered i k hi)
    rw [hid, hi] at hs
    cases hs
    rfl

end SendGraph

namespace Compiler

variable {c : Compiler} {t : FeedbackTree} {key : LookupKey} {method : MethodId} {level : Nat}
  {comp : Compilation}

/-- A compilation is a graph and its code. -/
theorem compile_ok (h : c.compile t key method level = .ok comp) :
    c.graph t key method level = .ok (comp.graph, comp.stats) ∧
      comp.graph.emit c.classes = .ok comp.native := by
  rw [compile] at h
  obtain ⟨⟨g, stats⟩, hgraph, h⟩ := exists_ok_of_bind h
  obtain ⟨n, hemit, h⟩ := exists_ok_of_bind h
  obtain rfl := Except.ok.inj h
  exact ⟨hgraph, hemit⟩

/-- Code that was just compiled has never run. -/
theorem compile_fresh (h : c.compile t key method level = .ok comp) :
    comp.native.All (·.Fresh c.classes) := by
  rw [compile] at h
  obtain ⟨⟨g, stats⟩, hgraph, h⟩ := exists_ok_of_bind h
  obtain ⟨n, hemit, h⟩ := exists_ok_of_bind h
  cases h
  obtain ⟨-, -, -, root, -, hexp⟩ := graph_expanded hgraph
  refine (SendGraph.emit_ok hemit).2.2.2 fun node hnode => ?_
  obtain ⟨s, m, site, -, -, -, -, -, -, hr⟩ :=
    hexp.settled g.scopes (Within.self g.scopes) node hnode
  exact hr.anchored

/-- Code is up to date when it was just compiled, under a key that leads to its
    method. -/
theorem compile_upToDate (hw : c.classes.WellFormed) (hkey : key.resolve c.classes = some method)
    (h : c.compile t key method level = .ok comp) : comp.native.UpToDate c.classes := by
  rw [compile] at h
  obtain ⟨⟨g, stats⟩, hgraph, h⟩ := exists_ok_of_bind h
  obtain ⟨n, hemit, h⟩ := exists_ok_of_bind h
  cases h
  obtain ⟨hnkey, hnmethod, hscopes, -⟩ := SendGraph.emit_ok hemit
  obtain ⟨rfl, rfl, -, root, hroot, hexp⟩ := graph_expanded hgraph
  have hall : Within g.scopes 0 g.scopes := Within.self g.scopes
  -- A scope is the root or hangs at another one.
  have hcases :
      ∀ d ∈ n.scopes, ∃ k, d = k.desc ∧ (k = rootScope t g.key root ∨ c.Hangs t g.scopes k) := by
    intro d hd
    rw [hscopes] at hd
    obtain ⟨k, hk, rfl⟩ := List.mem_map.1 hd
    obtain ⟨l, hl⟩ : ∃ l, g.scopes = rootScope t g.key root :: l :=
      List.head?_eq_some_iff.1 hexp.head
    refine ⟨k, rfl, ?_⟩
    rw [hl] at hk
    rcases List.mem_cons.1 hk with rfl | hk
    · exact .inl rfl
    · exact .inr (hexp.hangs g.scopes hall k (by simp only [hl]; exact hk))
  refine ⟨?_, fun d hd cls x hx => ?_, fun d hd o bci hsender => ?_⟩
  · rw [hnkey, hnmethod]
    exact hkey
  · obtain ⟨k, rfl, rfl | ⟨s, m, site, _, -, -, -, hin⟩⟩ := hcases d hd
    · -- The root has the key and the method of the code itself.
      have hid : root.id = g.method := hw.id_eq _ root hroot
      have hsend : g.key = .send cls x := hx
      rw [hsend] at hkey
      exact hkey.trans (congrArg some hid.symm)
    · exact hin.lookup hx
  · obtain ⟨k, rfl, rfl | ⟨s, m, site, cls, hs, hm, hsite, hin⟩⟩ := hcases d hd
    · cases hsender
    · cases hin.sender.symm.trans hsender
      refine ⟨s.desc, m, site, ?_, hm, hw.sendAt? hm hsite,
        fun hsuper => (hin.superLookup hm hsuper).1⟩
      rw [NativeMethod.scope?, hscopes]
      refine SendGraph.find?_desc (fun i k hk => ?_) hs
      exact (hexp.numbered i k hk).trans (Nat.zero_add i)

end Compiler

end Warmup
