import Warmup.Proofs.TrapEvidence

/-!
# Caches and their sends

A cache is there for a send of a method, and looks for what that send looks for
(`InlineCache.Fits`): its selector, and for a super send from the superclass of the
method's class on. That is so of the cache that the interpreter makes for a send, and of
the call site that stands for it in native code, wherever its method was inlined
(`Compiler.fits_of_compile`). It stays so while definitions are added, and whatever
entries the cache gets (`Fits.extend`, `Fits.addMethod`, `Fits.later`).
-/

namespace Warmup

/-! ## Tables of caches -/

namespace SiteTable

variable {t : SiteTable} {m m' : MethodId} {bci bci' : Bci} {c c' : InlineCache} {space : PicSpace}

theorem cache?_put_self : (t.put m bci c).cache? m bci = some c := by
  rw [cache?, put]
  induction t.sites with
  | nil => simp [insertSite]
  | cons s l ih =>
    rw [insertSite]
    split
    · simp
    · next hs =>
      split
      · simp
      · rw [List.find?_cons_of_neg (by simpa using hs)]
        exact ih

theorem cache?_put_of_ne (h : ¬(m = m' ∧ bci = bci')) :
    (t.put m bci c).cache? m' bci' = t.cache? m' bci' := by
  rw [cache?, put, cache?]
  induction t.sites with
  | nil => simpa [insertSite] using h
  | cons s l ih =>
    rw [insertSite]
    split
    · next hs =>
      -- The cache takes the place of one for the same send.
      rw [List.find?_cons_of_neg (by simpa using h), List.find?_cons_of_neg (by simpa [hs] using h)]
    · split
      · rw [List.find?_cons_of_neg (by simpa using h)]
      · rw [List.find?_cons, List.find?_cons]
        split
        · rfl
        · exact ih

/-- Only the cache that was to be there may be new. -/
theorem cache?_ensure (h : (t.ensure m bci c).cache? m' bci' = some c') :
    t.cache? m' bci' = some c' ∨ m' = m ∧ bci' = bci ∧ c' = c := by
  rw [ensure] at h
  split at h
  · exact .inl h
  · by_cases hplace : m = m' ∧ bci = bci'
    · obtain ⟨rfl, rfl⟩ := hplace
      rw [cache?_put_self] at h
      exact .inr ⟨rfl, rfl, (Option.some.inj h).symm⟩
    · rw [cache?_put_of_ne hplace] at h
      exact .inl h

/-- Removing the caches of a method adds none. -/
theorem cache?_removeMethod (space : PicSpace)
    (h : (t.removeMethod m space).1.cache? m' bci' = some c) :
    t.cache? m' bci' = some c := by
  rw [cache?, removeMethod] at h
  rw [cache?]
  obtain ⟨s, hs, rfl⟩ := Option.map_eq_some_iff.1 h
  -- Either all caches of the method of this place are gone, or none of them.
  have hm : s.method = m' ∧ s.method ≠ m := by
    have hkept := (List.mem_filter.1 (List.mem_of_find?_eq_some hs)).2
    have hplace := List.find?_some hs
    exact ⟨(of_decide_eq_true hplace).1, of_decide_eq_true hkept⟩
  refine Option.map_eq_some_iff.2 ⟨s, ?_, rfl⟩
  rw [List.find?_filter] at hs
  rw [← hs]
  congr 1
  funext a
  by_cases ha : a.method = m'
  · simp [ha, ← hm.1, hm.2]
  · simp [ha]

/-- A cleanup goes through the caches one by one, and each of them stays at its place. -/
theorem cache?_cleanup {isCurrent : LookupKey → Target → Bool}
    (h : (t.cleanup isCurrent space).2.1.cache? m bci = some c') :
    ∃ c, t.cache? m bci = some c ∧ c.Cleaned isCurrent c' := by
  rw [cache?, cleanup] at h
  rw [cache?]
  generalize t.sites = l at h
  induction l generalizing space with
  | nil => cases h
  | cons s l ih =>
    rw [cleanupSites] at h
    by_cases hs : s.method = m ∧ s.bci = bci
    · rw [List.find?_cons_of_pos (by simpa using hs)] at h ⊢
      obtain rfl := Option.some.inj h
      exact ⟨s.cache, rfl, s.cache.cleaned_cleanup isCurrent space⟩
    · rw [List.find?_cons_of_neg (by simpa using hs)] at h ⊢
      exact ih h

end SiteTable

/-! ## The send of a cache -/

/-- A method that is asked for without failure is there. -/
theorem ClassTable.method_ok {t : ClassTable} {m : MethodId} {e : Method} (h : t.method m = .ok e) :
    t.method? m = some e := by
  rw [method] at h
  split at h
  · next he => rw [he, Except.ok.inj h]
  · cases h

/-- The class of a method exists. -/
theorem ClassTable.Built.holder {t : ClassTable} (h : t.Built) {m : MethodId} {e : Method}
    (he : t.method? m = some e) :
    (t.class? e.holder).isSome := by
  induction h generalizing m e with
  | initial => simp [method?, ClassTable.initial] at he
  | intern name _ ih =>
    rw [ClassTable.intern] at he ⊢
    split at he <;> exact ih he
  | @defineClass t name superclass _ ih =>
    have hold : t.method? m = some e := by
      rw [ClassTable.defineClass] at he
      split at he <;> exact he
    obtain ⟨entry, hentry⟩ := Option.isSome_iff_exists.1 (ih hold)
    exact Option.isSome_iff_exists.2 ⟨entry, (extends_defineClass t name superclass).cls _ _ hentry⟩
  -- Classes stay when definitions are added, so only a new method is looked at: its class had to be
  -- there.
  | @addMethod t t' c b new _ h ih =>
    have hkept {x : ClassId} (hx : (t.class? x).isSome) : (t'.class? x).isSome := by
      rw [class?_addMethod h]
      split
      · next heq => simpa [← heq] using hx
      · exact hx
    rcases method?_addMethod_cases h he with ⟨-, rfl⟩ | ⟨e', sup, he', rfl⟩
    · obtain ⟨entry, hentry, -⟩ := addMethod_ok h
      exact hkept (Option.isSome_iff_exists.2 ⟨entry, hentry⟩)
    · have hholder := hkept (ih he')
      exact hholder
  | @addBlock t t' home new b _ h ih =>
    have hkept {x : ClassId} (hx : (t.class? x).isSome) : (t'.class? x).isSome := by
      obtain ⟨entry, hentry⟩ := Option.isSome_iff_exists.1 hx
      exact Option.isSome_iff_exists.2 ⟨entry, (extends_addBlock h).cls _ _ hentry⟩
    rcases method?_addBlock_cases h he with he | ⟨f, hf, -, rfl⟩
    · exact hkept (ih he)
    · have hholder := hkept (ih (method_ok hf))
      exact hholder

/-- What the send at a position of a method looks for, a cache looks for. -/
def InlineCache.Fits (t : ClassTable) (x : MethodId × Bci) (c : InlineCache) : Prop :=
  ∃ m site, t.method? x.1 = some m ∧ m.sendAt? x.2 = some site ∧ c.selector = site.selector ∧
    c.superClass = if site.isSuper then t.superclass? m.holder else none

/-- A cache at a later time: it may have got entries of some kind, each with the key that
    is looked up for its class. -/
structure InlineCache.Later (L : LookupKey → CacheEntry → Prop) (c c' : InlineCache) : Prop where
  selector : c'.selector = c.selector
  superClass : c'.superClass = c.superClass
  entries : ∀ x ∈ c'.entries, x ∈ c.entries ∨ L (c.lookupKey x.cls) x

namespace InlineCache

variable {t t' : ClassTable} {x : MethodId × Bci} {c c' c'' : InlineCache}
  {L : LookupKey → CacheEntry → Prop}

theorem Later.refl (c : InlineCache) : c.Later L c := ⟨rfl, rfl, fun _ hx => .inl hx⟩

theorem Later.trans (h : c.Later L c') (h' : c'.Later L c'') : c.Later L c'' where
  selector := h'.selector.trans h.selector
  superClass := h'.superClass.trans h.superClass
  entries x hx := by
    rcases h'.entries x hx with hx | hx
    · exact h.entries x hx
    · rw [lookupKey_congr h.selector h.superClass] at hx
      exact .inr hx

/-- A cleanup only takes entries away. -/
theorem Cleaned.later {isCurrent : LookupKey → Target → Bool} (h : c.Cleaned isCurrent c') :
    c.Later L c' :=
  ⟨h.selector, h.superClass, fun x hx => .inl (h.entries x hx).1⟩

/-- Whether a cache is one for a send does not depend on its entries. -/
theorem Fits.later (h : c.Fits t x) (hl : c.Later L c') : c'.Fits t x := by
  obtain ⟨m, site, hm, hsite, hselector, hsuper⟩ := h
  exact ⟨m, site, hm, hsite, hl.selector.trans hselector, hl.superClass.trans hsuper⟩

/-- A cache is one for the same send after definitions were added. -/
theorem Fits.extend (h : c.Fits t x) (hb : t.Built) (ht : t.Extends t') : c.Fits t' x := by
  obtain ⟨m, site, hm, hsite, hselector, hsuper⟩ := h
  exact ⟨m, site, ht.method _ m hm, hsite, hselector,
    by rw [ht.superclass (hb.holder hm)]; exact hsuper⟩

/-- A cache is one for the same send after a method was replaced: the old method stays, and so does
    the superclass of its class. -/
theorem Fits.addMethod (h : c.Fits t x) {d : ClassId} {b : Draft} {new : MethodId}
    (hadd : t.addMethod d b = .ok (t', new)) : c.Fits t' x := by
  obtain ⟨m, site, hm, hsite, hselector, hsuper⟩ := h
  obtain ⟨superseded, hm'⟩ := ClassTable.exists_method?_addMethod hadd hm
  exact ⟨_, site, hm', hsite, hselector,
    by rw [ClassTable.superclass?_addMethod hadd]; exact hsuper⟩

/-- What a cache of a send looks up for a class. -/
theorem Fits.lookupKey (h : c.Fits t x) {m : Method} {site : SendSite} (hm : t.method? x.1 = some m)
    (hsite : m.sendAt? x.2 = some site) (r : ClassId) :
    c.lookupKey r = .send (if site.isSuper then (t.superclass? m.holder).getD r
      else r) site.selector := by
  obtain ⟨m', site', hm', hsite', hselector, hsuper⟩ := h
  obtain rfl := Option.some.inj (hm.symm.trans hm')
  obtain rfl := Option.some.inj (hsite.symm.trans hsite')
  rw [InlineCache.lookupKey, hselector, hsuper, apply_ite (Option.getD · r)]
  rfl

/-- A cache that was just made looks for what it was made for, and knows nothing. -/
theorem freshAt_fields (s : Selector) (d : Option ClassId) :
    (freshAt s d).selector = s ∧ (freshAt s d).superClass = d ∧ (freshAt s d).entries = [] := by
  rcases d with _ | d
  · exact ⟨rfl, rfl, rfl⟩
  · exact ⟨rfl, rfl, rfl⟩

end InlineCache

/-! ## The call sites of new code -/

namespace Compiler

variable {c : Compiler} {t : FeedbackTree} {s : CompileScope} {site : SendSite} {r : Resolution}

/-- A send that is left looks up what it would look up in the interpreter. -/
theorem IsSettled.lookupClass_eq (h : c.IsSettled t s site r) {q : RealSend}
    (hq : r.send? = some q) :
    q.lookupClass = if site.isSuper then c.superClass? s else none := by
  rw [h.eq_settle] at hq
  rcases settle_send_cases hq with ⟨hsuper, rfl⟩ | ⟨hsuper, uninlinable, static, counting, rfl⟩
  · rw [if_pos hsuper]
  · rw [if_neg hsuper]

variable {key : LookupKey} {method : MethodId} {level : Nat} {comp : Compilation}

/-- The cache of a call site is empty, and looks for what the send looks for that the site is
    there for. -/
theorem fits_of_compile (hw : c.classes.WellFormed) (h : c.compile t key method level = .ok comp)
    {s : CallSite} (hs : s ∈ comp.native.sites) :
    s.cache.entries = [] ∧
      ∃ d, comp.native.scope? s.scope = some d ∧ s.cache.Fits c.classes (d.method, s.bci) := by
  obtain ⟨hgraph, hemit⟩ := compile_ok h
  obtain ⟨x, hx, hsite⟩ := SendGraph.emit_sites hemit hs
  obtain ⟨q, hq, rfl⟩ := Option.map_eq_some_iff.1 hsite
  obtain ⟨k, m, site, hk, hm, hmem, hbci, hselector, hsettled⟩ := graph_settled hgraph hx
  have hg := graph_ordered hgraph
  obtain ⟨hfresh, hstart, hempty⟩ := InlineCache.freshAt_fields x.selector q.lookupClass
  refine ⟨hempty, k.desc, ?_, m, site, hm, ?_, hfresh.trans hselector, hstart.trans ?_⟩
  · rw [NativeMethod.scope?, (SendGraph.emit_ok hemit).2.2.1]
    have hid : k.id = x.scope := hg.id_eq x.scope k hk
    have hfind := SendGraph.find?_desc hg.id_eq (s := k) (hid ▸ hk)
    rwa [hid] at hfind
  · rw [hbci]
    exact hw.sendAt? hm hmem
  · rw [hsettled.lookupClass_eq hq, superClass?, hm]
    rfl

end Compiler

end Warmup
