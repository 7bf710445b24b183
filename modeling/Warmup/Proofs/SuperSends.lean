import Warmup.Proofs.CacheHistory
import Warmup.Proofs.Journal

/-!
# Super sends

A super send starts its lookup at the superclass of the class of its method. Three parts
of an engine find that class: the interpreter when it makes the cache of the send, the
compiler when it leaves a call site for it, and the compiler when it inlines the callee.

They agree if there is such a class: all of them lead to what `ClassTable.superLookup`
finds. If there is none, nothing is inlined, but caches look up the class of the receiver
instead, so a receiver that understands the message runs a method for it
(`Journal.superSend_iff`).
-/

namespace Warmup

/-- Only a message that is not understood runs nothing. -/
theorem Transition.eq_notUnderstood {t : Transition} (h : t.target? = none) :
    t = .notUnderstood := by
  cases t with
  | notUnderstood => rfl
  | _ => cases h

namespace Compiler

variable {c : Compiler} {t : FeedbackTree} {key : LookupKey} {method : MethodId} {level : Nat}

/-- A super send is inlined with the callee that it finds, or stays a send that starts its
    lookup where it should. -/
theorem graph_superSend {g : SendGraph} {stats : InliningStats}
    (h : c.graph t key method level = .ok (g, stats)) (hw : c.classes.WellFormed) {x : SendNode}
    {s : CompileScope} {m : Method} {site : SendSite} (hx : x ∈ g.sends)
    (hs : g.scopes[x.scope]? = some s) (hm : c.classes.method? s.method = some m)
    (hsite : site ∈ m.sends) (hbci : x.bci = site.bci) (hsuper : site.isSuper) :
    x.selector = site.selector ∧
      ((∃ o k, x.resolution = .inlined s.receiver o ∧ g.scopes[o]? = some k ∧
        c.classes.superLookup m.holder site.selector = some k.method) ∨
      ∃ flags, x.resolution = .send ⟨flags, c.classes.superclass? m.holder⟩) := by
  obtain ⟨hselector, hsettled⟩ := graph_settled_at h hw hx hs hm hsite hbci
  refine ⟨hselector, ?_⟩
  have hclass : staticClass? s site = some s.receiver := by rw [staticClass?, if_pos hsuper]
  have hresolution := hsettled.eq_settle
  rw [settle_of_static hclass] at hresolution
  rcases harms : x.resolution.arms with _ | ⟨y, rest⟩
  · have hstart : c.superClass? s = c.classes.superclass? m.holder := by
      rw [superClass?, hm, Option.bind_some]
    rw [harms, staticSend, if_pos hsuper, hstart] at hresolution
    exact .inr ⟨_, hresolution⟩
  · rw [harms] at hresolution
    -- What is inlined there is the callee of this send, since positions tell sends apart.
    obtain ⟨-, -, -, root, -, hexp⟩ := graph_expanded h
    obtain ⟨s', m', site', hs', -, hm', hsite', hbci', -, hr⟩ :=
      hexp.settled g.scopes (Within.self g.scopes) x hx
    obtain rfl := Option.some.inj (hs.symm.trans hs')
    obtain rfl := Option.some.inj (hm.symm.trans hm')
    have hsame := hw.sendAt? hm hsite'
    rw [hbci', hbci, hw.sendAt? hm hsite] at hsame
    obtain rfl := Option.some.inj hsame
    obtain ⟨k, hk, hinlines⟩ := hr.arms y (harms ▸ List.mem_cons_self)
    exact .inl ⟨y.2, k, hresolution, hk, (hinlines.superLookup hm hsuper).1⟩

/-- The call site that is left for a super send looks up the superclass of the method's
    class, or the receiver's class if there is none. -/
theorem compile_superSend {comp : Compilation} (h : c.compile t key method level = .ok comp)
    (hw : c.classes.WellFormed) {x : SendNode} {s : CompileScope} {m : Method} {site : SendSite}
    (hx : x ∈ comp.graph.sends) (hs : comp.graph.scopes[x.scope]? = some s)
    (hm : c.classes.method? s.method = some m) (hsite : site ∈ m.sends) (hbci : x.bci = site.bci)
    (hsuper : site.isSuper) :
    (∃ o k, x.resolution = .inlined s.receiver o ∧ comp.graph.scopes[o]? = some k ∧
      c.classes.superLookup m.holder site.selector = some k.method) ∨
    x.resolution.arms = [] ∧ ∃ y ∈ comp.native.sites, y.scope = x.scope ∧ y.bci = x.bci ∧
      ∀ r, y.cache.lookupKey r = .send ((c.classes.superclass? m.holder).getD r) site.selector := by
  obtain ⟨hgraph, hemit⟩ := compile_ok h
  obtain ⟨hselector, hinlined | ⟨flags, hsend⟩⟩ :=
    graph_superSend hgraph hw hx hs hm hsite hbci hsuper
  · exact .inl hinlined
  · have hmem := SendGraph.mem_sites_of_emit hemit hx (s := ⟨x.scope, x.bci,
      (InlineCache.freshAt x.selector (c.classes.superclass? m.holder)).withFlags flags⟩)
      (by simp [SendNode.site?, hsend, Resolution.send?])
    refine .inr ⟨by simp [hsend, Resolution.arms], _, hmem, rfl, rfl, fun r => ?_⟩
    obtain ⟨hfresh, hstart, -⟩ := InlineCache.freshAt_fields x.selector
      (c.classes.superclass? m.holder)
    rw [InlineCache.lookupKey, InlineCache.withFlags, hfresh, hstart, hselector]

end Compiler

/-- There is a cache for every place of a send. -/
theorem Engine.exists_cacheAt? {e : Engine} {p : SendPlace} {m : MethodId} {bci : Bci}
    {method : Method} {site : SendSite} (hp : e.sendOf? p = some (m, bci))
    (hm : e.classes.method? m = some method) (hsite : method.sendAt? bci = some site) :
    ∃ c, e.cacheAt? p = some c := by
  rcases p with ⟨m', bci'⟩ | ⟨i, k⟩
  · obtain ⟨rfl, rfl⟩ := Prod.mk.inj (Option.some.inj hp)
    exact ⟨_, by simp [cacheAt?, hm, hsite]; rfl⟩
  · obtain ⟨n, hn, hp⟩ := Option.bind_eq_some_iff.1 hp
    obtain ⟨s, hs, -⟩ := Option.bind_eq_some_iff.1 hp
    exact ⟨s.cache, by simp [cacheAt?, hn, hs]⟩

namespace Journal

variable {j : Journal}

/-- A super send of a method, at any moment of a run. Through every cache in use that is
    there for it, in the interpreter or in native code, it runs what the lookup finds from
    the superclass of the method's class on, or from the receiver's class on if there is no
    superclass; keys that were looked up too early apart. So in an orderly run it runs what
    `superLookup` finds exactly if there is a superclass, or the receiver does not understand
    the message anyway. In code that is compiled now, it is inlined with what `superLookup`
    finds, or there is a call site for it, which looks up the same as all other caches. -/
theorem superSend_iff (h : j.Reachable) {m : MethodId} {method : Method} {site : SendSite}
    (hm : j.engine.classes.method? m = some method) (hsite : site ∈ method.sends)
    (hsuper : site.isSuper) :
    (∀ p r, j.engine.sendOf? p = some (m, site.bci) → j.engine.InUse p →
      ∃ t, (j.engine.send p r).result =
          (if t = .notUnderstood ∧ j.engine.processes.inScheduler then
            .error (.fatal .lookupInScheduler) else .ok t) ∧
        t.target?.map j.engine.methodOf? = (j.engine.answer j.early
          (.send ((j.engine.classes.superclass? method.holder).getD r) site.selector)).map some ∧
        ((j.engine.classes.superclass? method.holder).isSome →
          j.engine.classes.superLookup method.holder site.selector = none → t = .notUnderstood) ∧
        (j.Orderly → (t.target?.map j.engine.methodOf? =
            (j.engine.classes.superLookup method.holder site.selector).map some ↔
          (j.engine.classes.superclass? method.holder).isSome ∨
            j.engine.classes.lookup r site.selector = none))) ∧
    ∀ tree key root level comp, j.engine.compiler.compile tree key root level = .ok comp →
      ∀ x ∈ comp.graph.sends, ∀ s, comp.graph.scopes[x.scope]? = some s →
        s.method = m → x.bci = site.bci →
        (∃ o k, x.resolution = .inlined s.receiver o ∧ comp.graph.scopes[o]? = some k ∧
          j.engine.classes.superLookup method.holder site.selector = some k.method) ∨
        x.resolution.arms = [] ∧ ∃ y ∈ comp.native.sites, y.scope = x.scope ∧ y.bci = x.bci ∧
          ∀ r, y.cache.lookupKey r =
            .send ((j.engine.classes.superclass? method.holder).getD r) site.selector := by
  have hfaithful := h.faithful
  have hw := hfaithful.sound.classes.wellFormed
  refine ⟨fun p r hp huse => ?_, fun tree key root level comp hcompile x hx s hs hscope hbci => ?_⟩
  · obtain ⟨c, hc⟩ := Engine.exists_cacheAt? hp hm (hw.sendAt? hm hsite)
    have hkey := (h.engine.wired.cacheAt hc hp).lookupKey hm (hw.sendAt? hm hsite) r
    rw [if_pos hsuper] at hkey
    obtain ⟨t, htarget, hresult⟩ := (Engine.served_send hc r).result
    have hmethod := hfaithful.coherent.leadsTo hfaithful.sound huse hc r
    rw [← htarget, hkey] at hmethod
    refine ⟨t, hresult, hmethod, fun hsome hnone => ?_, fun horderly => ?_⟩
    · obtain ⟨d, hd⟩ := Option.isSome_iff_exists.1 hsome
      have hlookup : (LookupKey.send d site.selector).resolve j.engine.classes = none := by
        rwa [ClassTable.superLookup, hd] at hnone
      rw [hd, Option.getD_some, Engine.answer, hlookup, ite_self, Option.map_none,
        Option.map_eq_none_iff] at hmethod
      exact Transition.eq_notUnderstood hmethod
    · rw [hmethod, Engine.answer, horderly.early_eq_nil, if_neg List.not_mem_nil]
      rcases hd : j.engine.classes.superclass? method.holder with _ | d
      · -- `superLookup` finds nothing, and caches look up the receiver's class.
        rw [ClassTable.superLookup, hd]
        exact ⟨fun hnone => .inr (Option.map_eq_none_iff.1 hnone),
          fun hor => Option.map_eq_none_iff.2 (hor.resolve_left (by simp))⟩
      · rw [ClassTable.superLookup, hd]
        exact ⟨fun _ => .inl rfl, fun _ => rfl⟩
  · subst hscope
    exact Compiler.compile_superSend hcompile hw hx hs hm hsite hbci hsuper

/-- A class, and one below it whose method is a super send to the method above, which must
    not be inlined; this is compiled. -/
def overriddenArea : List Event := [
  .defineClass "Shape" (some ⟨0⟩), .replace ⟨9⟩
    { selector := ⟨0⟩, hint := .never, steps := [.work 1] },
  .defineClass "Square" (some ⟨9⟩), .replace ⟨10⟩ { selector := ⟨0⟩, steps := [.superSend ⟨0⟩ []] },
  .compile (.send ⟨10⟩ ⟨0⟩)]

/-- Interpreted and compiled, the super send runs the method above. -/
theorem superSend_overriddenArea : ∃ j : Journal, j.Reachable ∧ j.Orderly ∧
    ∀ p ∈ [SendPlace.interpreted ⟨1⟩ 0, .compiled ⟨0⟩ 0], j.engine.sendOf? p = some (⟨1⟩, 0) ∧
      j.engine.InUse p ∧ ∃ t, (j.engine.send p ⟨10⟩).result =
          (if t = .notUnderstood ∧ j.engine.processes.inScheduler then
            .error (.fatal .lookupInScheduler) else .ok t) ∧
        t.target?.map j.engine.methodOf? = some (some ⟨0⟩) := by
  obtain ⟨j, hj⟩ : ∃ j, j = run { engine := .startWith {} .initial } overriddenArea := ⟨_, rfl⟩
  have hreach : j.Reachable := ⟨{}, .initial, overriddenArea, .initial, hj.symm⟩
  have horderly : j.Orderly := ⟨{}, .initial, overriddenArea, .initial, by decide +kernel, hj.symm⟩
  have hplaces : ∀ p ∈ [SendPlace.interpreted ⟨1⟩ 0, .compiled ⟨0⟩ 0],
      j.engine.sendOf? p = some (⟨1⟩, 0) := by
    rw [hj]
    decide +kernel
  have huse : ∀ p ∈ [SendPlace.interpreted ⟨1⟩ 0, .compiled ⟨0⟩ 0], j.engine.InUse p := by
    have hvalid : (j.engine.code.get? ⟨0⟩).any (·.isValid) := by
      rw [hj]
      decide +kernel
    rintro p (_ | ⟨_, _ | ⟨_, ⟨⟩⟩⟩)
    · trivial
    · exact (Option.any_eq_true _ _).1 hvalid
  obtain ⟨method, hm, hmethod⟩ :
      ∃ method, j.engine.classes.method? ⟨1⟩ = some method ∧ method.holder = ⟨10⟩ ∧
      ⟨0, ⟨0⟩, .self, [], true⟩ ∈ method.sends := by
    rw [hj]
    exact ⟨_, rfl, rfl, by decide⟩
  have hfound : j.engine.classes.superclass? ⟨10⟩ = some ⟨9⟩ ∧
      j.engine.classes.superLookup ⟨10⟩ ⟨0⟩ = some ⟨0⟩ := by
    rw [hj]
    decide +kernel
  obtain ⟨hsend, -⟩ := superSend_iff hreach hm hmethod.2 rfl
  refine ⟨j, hreach, horderly, fun p hp => ⟨hplaces p hp, huse p hp, ?_⟩⟩
  obtain ⟨t, hresult, -, -, hiff⟩ := hsend p ⟨10⟩ (hplaces p hp) (huse p hp)
  rw [hmethod.1, hfound.1, hfound.2] at hiff
  exact ⟨t, hresult, (hiff horderly).2 (.inl rfl)⟩

/-- Two methods of `Object`, which has no superclass; the second one is a super send to the
    first one, and is compiled. -/
def superOfObject : List Event := [
  .replace ⟨0⟩ { selector := ⟨0⟩, steps := [.work 1] },
  .replace ⟨0⟩ { selector := ⟨1⟩, steps := [.superSend ⟨0⟩ []] }, .compile (.send ⟨0⟩ ⟨1⟩)]

/-- `superLookup` finds nothing, but both sends run the first method. -/
theorem superSend_superOfObject :
    let e := (Engine.startWith {} .initial).run superOfObject
    e.classes.superclass? ⟨0⟩ = none ∧ e.classes.superLookup ⟨0⟩ ⟨0⟩ = none ∧
      (e.classes.method? ⟨1⟩).map (fun m => (m.holder, m.sends)) =
        some (⟨0⟩, [⟨0, ⟨0⟩, .self, [], true⟩]) ∧
      e.sendOf? (.compiled ⟨0⟩ 0) = some (⟨1⟩, 0) ∧
      (e.send (.interpreted ⟨1⟩ 0) ⟨0⟩).result.toOption = some (.filled (.interpreted ⟨0⟩)) ∧
      (e.send (.compiled ⟨0⟩ 0) ⟨0⟩).result.toOption = some (.filled (.interpreted ⟨0⟩)) := by
  decide +kernel

end Journal

end Warmup
