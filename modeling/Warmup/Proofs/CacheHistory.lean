import Warmup.Proofs.CallSites
import Warmup.Proofs.Coherence

/-!
# The history of caches

What a step does to caches (`Engine.Relays`) is said once for all events
(`relays_step`): a cache is made for its send without entries, or stays where it was,
and gets no other entry than the answer of a lookup for a send that went through it.

* `Wired.run`: at every moment of a run a cache looks for what the send at its place looks
  for, in the interpreter as in native code;
* `exists_taught`: every entry goes back to a send through its cache, and is what the
  lookup led to then.
-/

namespace Warmup

/-- Making code invalid that depends on a method removes none. -/
theorem CodeTable.keeps_invalidateDependents {t : CodeTable} (h : t.WellFormed) (m : MethodId) :
    t.Keeps (t.invalidateDependents m).2 := by
  refine .of_map (get?_invalidateDependents h m) fun i n => ?_
  split
  · exact ⟨rfl, fun hvalid => by cases hvalid⟩
  · exact .refl n

/-! ## What a step does to caches -/

/-- What a step does to the caches of code: they stay at their places. -/
structure NativeMethod.Relays (L : Nat → LookupKey → CacheEntry → Prop) (n n' : NativeMethod) :
    Prop where
  scopes : n'.scopes = n.scopes
  sites : ∀ (k : Nat) (s' : CallSite), n'.sites[k]? = some s' →
    ∃ s : CallSite, n.sites[k]? = some s ∧ s'.scope = s.scope ∧ s'.bci = s.bci ∧
    s.cache.Later (L k) s'.cache

/-- The caches of code are empty, and look for what their sends look for. -/
def NativeMethod.Fresh (t : ClassTable) (n : NativeMethod) : Prop :=
  ∀ s ∈ n.sites, s.cache.entries = [] ∧ ∃ d, n.scope? s.scope = some d ∧
    s.cache.Fits t (d.method, s.bci)

/-- Code with the same scopes and call sites has the same caches. -/
theorem NativeMethod.Relays.of_eq {L : Nat → LookupKey → CacheEntry → Prop} {n n' : NativeMethod}
    (hscopes : n'.scopes = n.scopes) (hsites : n'.sites = n.sites) : n.Relays L n' :=
  ⟨hscopes, fun _ s hs => ⟨s, hsites ▸ hs, rfl, rfl, .refl _⟩⟩

namespace Engine

variable {e e' e'' : Engine} {L : SendPlace → LookupKey → CacheEntry → Prop} {p : SendPlace}

/-- The cache that is kept for a place. -/
def keptAt? (e : Engine) : SendPlace → Option InlineCache
  | .interpreted m bci => e.sites.cache? m bci
  | .compiled n site => do
    let native ← e.code.get? n
    let s ← native.sites[site]?
    return s.cache

/-- The send that stands at a place: its method and its position. -/
def sendOf? (e : Engine) : SendPlace → Option (MethodId × Bci)
  | .interpreted m bci => some (m, bci)
  | .compiled n site => do
    let native ← e.code.get? n
    let s ← native.sites[site]?
    let d ← native.scope? s.scope
    return (d.method, s.bci)

/-- A cache was kept for a place before, or it is an empty one for the send at the place. -/
def Begins (e e' : Engine) (p : SendPlace) (c : InlineCache) : Prop :=
  e.keptAt? p = some c ∧ e'.sendOf? p = e.sendOf? p ∨
    c.entries = [] ∧ ∃ x, e'.sendOf? p = some x ∧ c.Fits e'.classes x

/-- What a step does to caches: they stay at their places and with their sends, and get
    entries of some kind only. -/
def Relays (L : SendPlace → LookupKey → CacheEntry → Prop) (e e' : Engine) : Prop :=
  ∀ p c', e'.keptAt? p = some c' → ∃ c, c.Later (L p) c' ∧ e.Begins e' p c

theorem Relays.of_eq (hcode : e'.code = e.code) (hsites : e'.sites = e.sites) : e.Relays L e' := by
  intro p c' hc'
  refine ⟨c', .refl c', .inl ?_⟩
  rcases p with ⟨m, bci⟩ | ⟨i, k⟩
  · exact ⟨by rw [← hc', keptAt?, keptAt?, hsites], rfl⟩
  · exact ⟨by rw [← hc', keptAt?, keptAt?, hcode], by rw [sendOf?, hcode, sendOf?]⟩

/-- What two steps do to caches adds up, if the second one does not change classes. -/
theorem Relays.trans (h : e.Relays L e') (h' : e'.Relays L e'')
    (hclasses : e''.classes = e'.classes) :
    e.Relays L e'' := by
  intro p c'' hc''
  obtain ⟨c', hlater', hbegins'⟩ := h' p c'' hc''
  rcases hbegins' with ⟨hkept', hsend'⟩ | hnew
  · obtain ⟨c, hlater, hbegins⟩ := h p c' hkept'
    refine ⟨c, hlater.trans hlater', ?_⟩
    rw [Begins, hsend', hclasses]
    exact hbegins
  · exact ⟨c', hlater', .inr hnew⟩

/-- Each of the two tables does its part. -/
theorem Relays.of_tables
    (hsites : ∀ m bci c', e'.sites.cache? m bci = some c' → ∃ c, c.Later (L (.interpreted m bci))
      c' ∧ (e.sites.cache? m bci = some c ∨ c.entries = [] ∧ c.Fits e'.classes (m, bci)))
    (hcode : ∀ i n', e'.code.get? i = some n' → (∃ n, e.code.get? i = some n ∧
      n.Relays (fun k => L (.compiled i k)) n') ∨ n'.Fresh e'.classes) :
    e.Relays L e' := by
  intro p c' hc'
  rcases p with ⟨m, bci⟩ | ⟨i, k⟩
  · -- A cache of the interpreter stands at its send.
    obtain ⟨c, hlater, hbegins⟩ := hsites m bci c' hc'
    exact ⟨c, hlater, hbegins.imp (fun hc => ⟨hc, rfl⟩) fun hc => ⟨hc.1, _, rfl, hc.2⟩⟩
  · -- A cache of native code stands at the send that its scope and position name.
    obtain ⟨n', hn', hc'⟩ := Option.bind_eq_some_iff.1 hc'
    obtain ⟨s', hs', hc'⟩ := Option.bind_eq_some_iff.1 hc'
    obtain rfl := Option.some.inj hc'
    rcases hcode i n' hn' with ⟨n, hn, hrelays⟩ | hfresh
    · obtain ⟨s, hs, hscope, hbci, hlater⟩ := hrelays.sites k s' hs'
      refine ⟨s.cache, hlater, .inl ⟨?_, ?_⟩⟩
      · simp [keptAt?, hn, hs]
      · simp [sendOf?, hn', hs', hn, hs, NativeMethod.scope?, hrelays.scopes, hscope, hbci]
    · obtain ⟨hempty, d, hd, hfits⟩ := hfresh s' (List.mem_of_getElem? hs')
      exact ⟨s'.cache, .refl _,
        .inr ⟨hempty, (d.method, s'.bci), by simp [sendOf?, hn', hs', hd], hfits⟩⟩

/-- Code keeps its scopes and caches. -/
theorem Relays.of_map {f : NativeId → NativeMethod → NativeMethod} (hsites : e'.sites = e.sites)
    (hget : ∀ i, e'.code.get? i = (e.code.get? i).map (f i))
    (hf : ∀ i n, e.code.get? i = some n → (f i n).scopes = n.scopes ∧ (f i n).sites = n.sites) :
    e.Relays L e' := by
  refine .of_tables (fun m bci c' hc' => ⟨c', .refl c', .inl (hsites ▸ hc')⟩)
    fun i n' hn' => .inl ?_
  rw [hget] at hn'
  obtain ⟨n, hn, rfl⟩ := Option.map_eq_some_iff.1 hn'
  exact ⟨n, hn, .of_eq (hf i n hn).1 (hf i n hn).2⟩

theorem Relays.orElse {α : Type} {x : Except Fault (Engine × α)}
    (h : ∀ e' a, x = .ok (e', a) → e.Relays L e') :
    e.Relays L (e.orElse x) := by
  rcases x with f | ⟨e', a⟩
  · exact .of_eq rfl rfl
  · exact h e' a rfl

/-! ### Upkeep -/

/-- The cache that the interpreter makes for a send is one for this send. -/
theorem fits_freshSite {m : MethodId} {bci : Bci} {method : Method} {site : SendSite}
    (hm : e.classes.method? m = some method) (hsite : method.sendAt? bci = some site) :
    (e.freshSite method site).entries = [] ∧ (e.freshSite method site).Fits e.classes (m, bci) := by
  obtain ⟨hselector, hsuper, hempty⟩ := InlineCache.freshAt_fields site.selector
    (if site.isSuper then e.classes.superclass? method.holder else none)
  exact ⟨hempty, method, site, hm, hsite, hselector, hsuper⟩

/-- What follows an event makes caches without entries, for the interpreter and for new code, and
    adds no entry to any cache. -/
theorem Chore.relays {inTrap : Bool} (h : e.Chore inTrap e') (hw : e.classes.WellFormed) :
    e.Relays L e' := by
  cases h with
  | aside => exact .of_eq rfl rfl
  | link hm hs =>
    have hm := ClassTable.method_ok hm
    refine .of_tables (fun m' bci c' hc' => ⟨c', .refl c', ?_⟩) fun i n' hn' => .inl
      ⟨n', hn', .of_eq rfl rfl⟩
    rcases SiteTable.cache?_ensure hc' with hc' | ⟨rfl, rfl, rfl⟩
    · exact .inl hc'
    · exact .inr (fits_freshSite hm (hw.sendAt? hm hs))
  | @install k level comp code i hprepare hinstall =>
    rw [prepare] at hprepare
    obtain ⟨m, -, hcompile⟩ := exists_ok_of_bind hprepare
    refine .of_tables (fun m bci c' hc' => ⟨c', .refl c', .inl hc'⟩) fun j n' hn' => ?_
    -- The new code has fresh caches. All other code at most gets another state.
    by_cases hj : j = i
    · subst hj
      obtain ⟨version, hself⟩ := CodeTable.get?_install_self hinstall
      obtain rfl := Option.some.inj (hself.symm.trans hn')
      exact .inr fun s hs => Compiler.fits_of_compile hw hcompile hs
    · rw [CodeTable.get?_install hinstall hj] at hn'
      obtain ⟨n, hn, rfl⟩ := Option.map_eq_some_iff.1 hn'
      refine .inl ⟨n, hn, ?_⟩
      split
      · exact .of_eq rfl rfl
      · exact .of_eq rfl rfl
  | count i ticks =>
    refine .of_map rfl (CodeTable.get?_modify _ _) fun j n _ => ?_
    split
    · exact ⟨rfl, rfl⟩
    · exact ⟨rfl, rfl⟩
  | patch _ hn trap count =>
    refine .of_map rfl (CodeTable.get?_modify _ _) fun j n' hn' => ?_
    split
    · next hj =>
      obtain rfl := Option.some.inj (hn.symm.trans (hj ▸ hn'))
      exact ⟨rfl, rfl⟩
    · exact ⟨rfl, rfl⟩
  | invalidate _ i =>
    refine .of_map rfl (CodeTable.get?_invalidate _ _) fun j n _ => ?_
    split
    · exact ⟨rfl, rfl⟩
    · exact ⟨rfl, rfl⟩

/-- All that follows an event adds no entry to any cache. -/
theorem Upkeep.relays {inTrap : Bool} (h : e.Upkeep inTrap e') (hw : e.classes.WellFormed) :
    e.Relays L e' := by
  suffices e.Relays L e' ∧ e'.classes = e.classes from this.1
  refine h.induction (P := fun e' => e.Relays L e' ∧ e'.classes = e.classes) ?_
    ⟨.of_eq rfl rfl, rfl⟩
  rintro e₁ e₂ hchore ⟨hrelays, hclasses⟩
  exact ⟨hrelays.trans (hchore.relays (hclasses ▸ hw)) hchore.classes_eq,
    hchore.classes_eq.trans hclasses⟩

/-! ### Sends -/

/-- The kind of entry that an event may add to the cache of a place: the answer of a lookup
    for the class of a send there. -/
def Taught (e : Engine) (ev : Event) (p : SendPlace) (k : LookupKey) (x : CacheEntry) : Prop :=
  ev = .send p x.cls ∧ (e.target k).1 = some x.target

/-- A send adds to its cache what it was taught, at most. -/
theorem later_dispatch (e : Engine) (p : SendPlace) (c : InlineCache) (r : ClassId) (max : Nat) :
    c.Later (e.Taught (.send p r) p) (e.dispatch c r max).2.2 := by
  rw [dispatch]
  split
  · exact ⟨rfl, rfl, fun x hx => .inl hx⟩
  · simp only
    rcases htarget : (e.target (c.lookupKey r)).1 with _ | t
    · exact ⟨rfl, rfl, fun x hx => .inl hx⟩
    · have hlearned := c.learned_miss r t e.pics max
      refine ⟨hlearned.selector, hlearned.superClass,
        fun x hx => (hlearned.entries x hx).imp_right ?_⟩
      rintro rfl
      exact ⟨rfl, htarget⟩

/-- A send in the interpreter changes the cache of this send alone. -/
theorem relays_sendInterpreted (e : Engine) (m : MethodId) (bci : Bci) (r : ClassId) :
    e.Relays (e.Taught (.send (.interpreted m bci) r)) (e.sendInterpreted m bci r).state := by
  rw [sendInterpreted]
  split
  · exact .of_eq rfl rfl
  · next method hm =>
    split
    · exact .of_eq rfl rfl
    · next site hsite =>
      obtain ⟨⟨space, hsame⟩, -⟩ := e.dispatched
        ((e.sites.cache? m bci).getD (e.freshSite method site)) r e.settings.caches.maxEntries.toNat
      obtain ⟨tally, hstate⟩ := afterSend_state _ _
      rw [hstate]
      simp only [hsame]
      refine .of_tables (fun m' bci' c' hc' => ?_) fun i n hn => .inl ⟨n, hn, .of_eq rfl rfl⟩
      by_cases hplace : m = m' ∧ bci = bci'
      · obtain ⟨rfl, rfl⟩ := hplace
        simp only [SiteTable.cache?_put_self, Option.some.injEq] at hc'
        subst hc'
        refine ⟨_, e.later_dispatch _ _ r _, ?_⟩
        -- The first send makes the cache.
        rcases hcache : e.sites.cache? m bci with _ | c
        · exact .inr (fits_freshSite (ClassTable.method_ok hm) hsite)
        · exact .inl rfl
      · simp only [SiteTable.cache?_put_of_ne hplace] at hc'
        exact ⟨c', .refl c', .inl hc'⟩

/-- A send of native code changes the cache of this call site alone. -/
theorem relays_sendCompiled (e : Engine) (i : NativeId) (k : Nat) (r : ClassId) :
    e.Relays (e.Taught (.send (.compiled i k) r)) (e.sendCompiled i k r).state := by
  rw [sendCompiled]
  split
  · exact .of_eq rfl rfl
  · next native hn =>
    split
    · exact .of_eq rfl rfl
    · next s hs =>
      obtain ⟨⟨space, hsame⟩, -⟩ := e.dispatched s.cache r e.settings.caches.maxEntries.toNat
      obtain ⟨tally, hstate⟩ := afterSend_state _ _
      rw [hstate]
      simp only [hsame]
      refine .of_tables (fun m bci c hc => ⟨c, .refl c, .inl hc⟩) fun j n' hn' => .inl ?_
      rw [CodeTable.get?_modify] at hn'
      obtain ⟨n, hn₀, rfl⟩ := Option.map_eq_some_iff.1 hn'
      refine ⟨n, hn₀, ?_⟩
      split
      · -- Of this code, only the site of the send gets another cache.
        next hj =>
        subst hj
        obtain rfl := Option.some.inj ((CodeTable.get_ok hn).symm.trans hn₀)
        refine ⟨rfl, fun k' s' hs' => ?_⟩
        by_cases hk : k = k'
        · subst hk
          rw [List.getElem?_set_self (List.getElem?_eq_some_iff.1 hs).1] at hs'
          obtain rfl := Option.some.inj hs'
          exact ⟨s, hs, rfl, rfl, e.later_dispatch _ _ r _⟩
        · rw [List.getElem?_set_ne hk] at hs'
          exact ⟨s', hs', rfl, rfl, .refl _⟩
      · exact .of_eq rfl rfl

/-- A send changes no cache but the one that it goes through. -/
theorem relays_send (e : Engine) (p : SendPlace) (r : ClassId) :
    e.Relays (e.Taught (.send p r)) (e.send p r).state := by
  rcases p with ⟨m, bci⟩ | ⟨i, k⟩
  · exact e.relays_sendInterpreted m bci r
  · exact e.relays_sendCompiled i k r

/-! ### Cleanups and new methods -/

/-- A call site stays at its send in a cleanup. -/
theorem getElem?_cleanupCallSites {isCurrent : LookupKey → Target → Bool} {l : List CallSite}
    {space : PicSpace} {k : Nat} {s' : CallSite}
    (h : (cleanupCallSites isCurrent l space).2.1[k]? = some s') :
    ∃ s, l[k]? = some s ∧ s'.scope = s.scope ∧ s'.bci = s.bci ∧
      s.cache.Cleaned isCurrent s'.cache := by
  induction l generalizing space k with
  | nil => simp [cleanupCallSites] at h
  | cons s l ih =>
    rw [cleanupCallSites] at h
    rcases k with _ | k
    · obtain rfl := Option.some.inj h
      exact ⟨s, rfl, rfl, rfl, s.cache.cleaned_cleanup isCurrent space⟩
    · exact ih h

/-- Code keeps its scopes in a cleanup, and its call sites lose entries at most. -/
theorem getElem?_cleanupNatives {L : Nat → LookupKey → CacheEntry → Prop}
    {isCurrent : LookupKey → Target → Bool} {l : List NativeMethod} {space : PicSpace} {i : Nat}
    {n' : NativeMethod} (h : (cleanupNatives isCurrent l space).2.1[i]? = some n') :
    ∃ n, l[i]? = some n ∧ n.Relays L n' := by
  induction l generalizing space i with
  | nil => simp [cleanupNatives] at h
  | cons n l ih =>
    rcases i with _ | i
    · by_cases hvalid : n.isValid
      · rw [cleanupNatives, if_pos hvalid] at h
        obtain rfl := Option.some.inj h
        refine ⟨n, rfl, rfl, fun k s' hs' => ?_⟩
        obtain ⟨s, hs, hscope, hbci, hclean⟩ := getElem?_cleanupCallSites hs'
        exact ⟨s, hs, hscope, hbci, hclean.later⟩
      · rw [cleanupNatives, if_neg hvalid] at h
        obtain rfl := Option.some.inj h
        exact ⟨n, rfl, .of_eq rfl rfl⟩
    · exact ih h

/-- A cleanup adds no entry to any cache. -/
theorem relays_cleanup (e : Engine) : e.Relays L e.cleanup.2 := by
  refine .of_tables (fun m bci c' hc' => ?_) fun i n' hn' => .inl (getElem?_cleanupNatives hn')
  obtain ⟨c, hc, hclean⟩ := SiteTable.cache?_cleanup hc'
  exact ⟨c, hclean.later, .inl hc⟩

/-- Giving up what was compiled from a method adds no entry to any cache. -/
theorem relays_retract (hw : e.code.WellFormed) (old : MethodId) :
    e.Relays L (e.retract old) ∧ (e.retract old).classes = e.classes := by
  have hcode : e.Relays L { e with code := (e.code.invalidateDependents old).2 } := by
    refine .of_map rfl (CodeTable.get?_invalidateDependents hw old) fun i n _ => ?_
    split
    · exact ⟨rfl, rfl⟩
    · exact ⟨rfl, rfl⟩
  rw [retract]
  split
  · refine ⟨hcode.trans
      (.of_tables (fun m bci c' hc' => ?_) fun i n hn => .inl ⟨n, hn, .of_eq rfl rfl⟩) rfl, rfl⟩
    exact ⟨c', .refl c', .inl (SiteTable.cache?_removeMethod e.pics hc')⟩
  · exact ⟨hcode, rfl⟩

/-- Replacing a method adds no entry to any cache. -/
theorem relays_replaceMethod (hw : e.code.WellFormed) {c : ClassId} {d : Draft} {m : MethodId}
    (h : e.replaceMethod c d = .ok (e', m)) : e.Relays L e' := by
  rw [replaceMethod] at h
  obtain ⟨⟨classes, new⟩, hadd, h⟩ := exists_ok_of_bind h
  obtain ⟨rfl, rfl⟩ := Prod.mk.inj (Except.ok.inj h)
  have hdefined : e.Relays L { e with classes := classes, memo := e.memo.flush } := .of_eq rfl rfl
  rcases e.classes.lookup c d.selector with _ | old
  · exact hdefined.trans (relays_cleanup _) rfl
  · obtain ⟨hrelays, hclasses⟩ :=
      relays_retract (e := { e with classes := classes, memo := e.memo.flush }) (L := L) hw old
    exact (hdefined.trans hrelays hclasses).trans (relays_cleanup _) rfl

/-! ### Events -/

/-- An event adds no other entry to a cache than the answer of a lookup for a send through
    it. -/
theorem relays_step (h : e.Sound) (ev : Event) : e.Relays (e.Taught ev) (e.step ev) := by
  have hw := h.classes.wellFormed
  by_cases hev : ev.isSteady
  · -- Events other than these four change caches by upkeep alone, or only add definitions.
    rcases e.upkeep_step hev with hupkeep | ⟨t, -, -, -, hstep⟩
    · exact hupkeep.relays hw
    · rw [hstep]
      exact .of_eq rfl rfl
  · cases ev with
    | send p r => exact relays_send e p r
    | trap p i trap => exact (upkeep_uncommonTrap h.code p i trap : e.Upkeep true _).relays hw
    | replace c d => exact .orElse fun e' m => relays_replaceMethod h.code
    | cleanup => exact relays_cleanup e
    | _ => exact absurd rfl hev

/-! ## Runs -/

/-- A new method is the only event that does more than to add to tables. -/
theorem advances_step (h : e.Sound) (ev : Event) :
    e.Advances (e.step ev) ∨ ∃ c d m, e.replaceMethod c d = .ok (e.step ev, m) := by
  have hsame : e.Advances e := .of_eq rfl rfl Anchored.sites
  by_cases hev : ev.isSteady
  · exact .inl (e.steady_step hev).toAdvances
  · cases ev with
    | send p r =>
      rcases hc : e.cacheAt? p with _ | c
      · obtain ⟨f, hf⟩ := send_of_cacheAt?_eq_none hc r
        rw [step, hf]
        exact .inl hsame
      · exact .inl (served_send hc r).advances
    | trap p i trap => exact .inl (quiet_uncommonTrap h.code p i trap).toAdvances
    | replace c d =>
      rw [step]
      rcases hr : e.replaceMethod c d with f | ⟨e', m⟩
      · exact .inl hsame
      · exact .inr ⟨c, d, m, hr⟩
    | cleanup => exact .inl e.advances_cleanup
    | _ => exact absurd rfl hev

/-- A new method may make code invalid, but takes none away. -/
theorem keeps_replaceMethod (hw : e.code.WellFormed) {c : ClassId} {d : Draft} {m : MethodId}
    (h : e.replaceMethod c d = .ok (e', m)) : e.code.Keeps e'.code := by
  rw [replaceMethod] at h
  obtain ⟨⟨classes, new⟩, hadd, h⟩ := exists_ok_of_bind h
  obtain ⟨rfl, rfl⟩ := Prod.mk.inj (Except.ok.inj h)
  rcases e.classes.lookup c d.selector with _ | old
  · exact (advances_cleanup { e with classes := classes, memo := e.memo.flush }).kept
  · have hretract :
        e.code.Keeps (retract { e with classes := classes, memo := e.memo.flush } old).code := by
      rw [code_retract]
      exact CodeTable.keeps_invalidateDependents hw old
    exact hretract.trans (advances_cleanup _).kept

/-- Code is never removed by an event. -/
theorem keeps_step (h : e.Sound) (ev : Event) : e.code.Keeps (e.step ev).code := by
  rcases advances_step h ev with hadv | ⟨c, d, m, hr⟩
  · exact hadv.kept
  · exact keeps_replaceMethod h.code hr

theorem keeps_run (h : e.Sound) (events : List Event) : e.code.Keeps (e.run events).code := by
  induction events generalizing e with
  | nil => exact .refl _
  | cons ev events ih => exact (keeps_step h ev).trans (ih (h.step ev))

/-- A target runs the same method for good. -/
theorem methodOf?_run (h : e.Sound) (events : List Event) {t : Target} {m : MethodId}
    (hm : e.methodOf? t = some m) :
    (e.run events).methodOf? t = some m := by
  cases t with
  | interpreted m' => exact hm
  | compiled i =>
    obtain ⟨n, hn, rfl⟩ := Option.map_eq_some_iff.1 hm
    obtain ⟨n', hn', hsame⟩ := keeps_run h events i n hn
    exact Option.map_eq_some_iff.2 ⟨n', hn', hsame.method⟩

/-- A cache that is one for a send remains one, whatever happens. -/
theorem fits_step (h : e.Sound) (ev : Event) {c : InlineCache} {x : MethodId × Bci}
    (hfits : c.Fits e.classes x) :
    c.Fits (e.step ev).classes x := by
  rcases advances_step h ev with hadv | ⟨d, b, m, hr⟩
  · exact hfits.extend h.classes hadv.classes
  · obtain ⟨classes, e₁, hadd, hret, he⟩ := replaceMethod_ok h.code hr
    have hclasses : (e.step ev).classes = classes := by
      rw [he]
      exact hret.classes
    rw [hclasses]
    exact hfits.addMethod hadd

/-- Every cache that is kept looks for what its send looks for. -/
def Wired (e : Engine) : Prop :=
  ∀ p c, e.keptAt? p = some c → ∃ x, e.sendOf? p = some x ∧ c.Fits e.classes x

/-- Caches look for what their sends look for after a step, if they did before. -/
theorem Wired.step (h : e.Wired) (hs : e.Sound) (ev : Event) : (e.step ev).Wired := by
  intro p c' hc'
  obtain ⟨c, hlater, ⟨hc, hsend⟩ | ⟨-, x, hx, hfits⟩⟩ := relays_step hs ev p c' hc'
  · obtain ⟨x, hx, hfits⟩ := h p c hc
    exact ⟨x, hsend.trans hx, (fits_step hs ev hfits).later hlater⟩
  · exact ⟨x, hx, hfits.later hlater⟩

/-- Caches look for what their sends look for at every moment of a run. -/
theorem Wired.run (h : e.Wired) (hs : e.Sound) (events : List Event) : (e.run events).Wired := by
  induction events generalizing e with
  | nil => exact h
  | cons ev events ih => exact ih (h.step hs ev) (hs.step ev)

/-- At the start there are no caches. -/
theorem keptAt?_start (s : Settings) (t : ClassTable) (p : SendPlace) :
    (startWith s t).keptAt? p = none := by
  rcases p with ⟨m, bci⟩ | ⟨i, k⟩
  · rfl
  · simp [keptAt?, startWith, Engine.start, CodeTable.get?]

/-- In a state that a run leads to, caches look for what their sends look for. -/
theorem Reachable.wired (h : e.Reachable) : e.Wired := by
  obtain ⟨s, t, events, ht, rfl⟩ := h
  refine Wired.run (fun p c hc => ?_) (Sound.start s ht) events
  rw [keptAt?_start] at hc
  cases hc

/-- The cache that a send goes through looks for what the send looks for. -/
theorem Wired.cacheAt (h : e.Wired) {c : InlineCache} {x : MethodId × Bci}
    (hc : e.cacheAt? p = some c) (hx : e.sendOf? p = some x) : c.Fits e.classes x := by
  have hkept (hc : e.keptAt? p = some c) : c.Fits e.classes x := by
    obtain ⟨y, hy, hfits⟩ := h p c hc
    obtain rfl := Option.some.inj (hx.symm.trans hy)
    exact hfits
  rcases p with ⟨m, bci⟩ | ⟨i, k⟩
  · obtain ⟨method, hm, hc⟩ := Option.bind_eq_some_iff.1 hc
    obtain ⟨site, hsite, hc⟩ := Option.bind_eq_some_iff.1 hc
    obtain rfl := Option.some.inj hx
    -- The cache is made at its first send, or was made before.
    rcases hcache : e.sites.cache? m bci with _ | c₀
    · rw [hcache] at hc
      obtain rfl := Option.some.inj hc
      exact (fits_freshSite hm hsite).2
    · rw [hcache] at hc
      obtain rfl := Option.some.inj hc
      exact hkept hcache
  · exact hkept hc

/-- Every entry of a cache is what a lookup led to, when a send through this cache did not
    know the class. -/
theorem exists_taught (h : e.Sound) (hstart : ∀ p, e.keptAt? p = none) {events : List Event}
    {c : InlineCache} (hc : (e.run events).keptAt? p = some c) {x : CacheEntry}
    (hx : x ∈ c.entries) :
    ∃ before after, events = before ++ .send p x.cls :: after ∧
      ((e.run before).target (c.lookupKey x.cls)).1 = some x.target := by
  -- On the last event: it has put the entry there, or the entry was there before.
  induction events using List.reverseRecOn generalizing c with
  | nil =>
    rw [run, List.foldl_nil, hstart] at hc
    cases hc
  | append_singleton events ev ih =>
    rw [run, List.foldl_concat] at hc
    obtain ⟨c₀, hlater, hbegins⟩ := relays_step (h.run events) ev p c hc
    rw [InlineCache.lookupKey_congr hlater.selector hlater.superClass]
    rcases hlater.entries x hx with hx | ⟨rfl, htarget⟩
    · rcases hbegins with ⟨hc₀, -⟩ | ⟨hempty, -⟩
      · obtain ⟨before, after, rfl, htarget⟩ := ih hc₀ hx
        exact ⟨before, after ++ [ev], by simp, htarget⟩
      · rw [hempty] at hx
        cases hx
    · exact ⟨events, [], rfl, htarget⟩

end Engine

end Warmup
