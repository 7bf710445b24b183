import Warmup.Proofs.Run

/-!
# Sends in a run

A send runs what the cache at its place knows for the receiver's class, and
otherwise what a lookup finds (`Engine.leadsTo?`). `served_send` says all that it
does: what it runs, what it adds to its cache, and what else it leaves alone.
-/

namespace Warmup.Engine

variable {e : Engine} {p : SendPlace} {c : InlineCache} {r : ClassId}
  {P : LookupKey → Target → Prop}

/-- The cache of the send at a place, the one that a first send makes included. -/
def cacheAt? (e : Engine) : SendPlace → Option InlineCache
  | .interpreted m bci => do
    let method ← e.classes.method? m
    let s ← method.sendAt? bci
    return (e.sites.cache? m bci).getD (e.freshSite method s)
  | .compiled n site => do
    let native ← e.code.get? n
    let s ← native.sites[site]?
    return s.cache

/-- A send of an interpreted method or of valid code. -/
def InUse (e : Engine) : SendPlace → Prop
  | .interpreted _ _ => True
  | .compiled n _ => ∃ native, e.code.get? n = some native ∧ native.isValid

/-- A cache never ran, or stands in one of the two tables. -/
theorem cacheAt?_cases (h : e.cacheAt? p = some c) :
    c.Fresh e.classes ∨ (∃ s ∈ e.sites.sites, s.cache = c) ∨
      ∃ i site n, p = .compiled i site ∧ e.code.get? i = some n ∧ ∃ s ∈ n.sites, s.cache = c := by
  cases p with
  | interpreted m bci =>
    obtain ⟨method, -, h⟩ := Option.bind_eq_some_iff.1 h
    obtain ⟨s, -, h⟩ := Option.bind_eq_some_iff.1 h
    cases h
    -- A send that was not linked has a fresh cache.
    cases hcache : e.sites.cache? m bci with
    | none => exact .inl (e.fresh_freshSite method s)
    | some c =>
      obtain ⟨s, hs, rfl⟩ := Option.map_eq_some_iff.1 hcache
      exact .inr (.inl ⟨s, List.mem_of_find?_eq_some hs, rfl⟩)
  | compiled i site =>
    obtain ⟨n, hn, h⟩ := Option.bind_eq_some_iff.1 h
    obtain ⟨s, hs, h⟩ := Option.bind_eq_some_iff.1 h
    cases h
    exact .inr (.inr ⟨i, site, n, rfl, hn, s, List.mem_of_getElem? hs, rfl⟩)

/-- A cache in use holds what all caches hold. -/
theorem Caches.cacheAt (h : e.Caches P) (hp : e.InUse p) (hc : e.cacheAt? p = some c) :
    c.Holds P := by
  rcases cacheAt?_cases hc with hfresh | ⟨s, hs, rfl⟩ | ⟨i, site, n, rfl, hn, s, hs, rfl⟩
  · exact .of_stub hfresh.dest
  · exact h.sites s hs
  · obtain ⟨n', hn', hvalid⟩ := hp
    cases hn.symm.trans hn'
    exact h.code i n hn hvalid s hs

/-- Each cache looks up the class of the receiver or a superclass. -/
theorem Anchored.cacheAt (h : e.Anchored) (hc : e.cacheAt? p = some c) :
    e.classes.Anchors c.superClass := by
  rcases cacheAt?_cases hc with hfresh | ⟨s, hs, rfl⟩ | ⟨i, site, n, -, hn, s, hs, rfl⟩
  · exact hfresh.anchored
  · exact h.sites s hs
  · exact h.code i n hn s hs

/-- The code that a send through a cache runs. -/
def leadsTo? (e : Engine) (c : InlineCache) (r : ClassId) : Option Target :=
  match c.cached? r with
  | some t => some t
  | none => (e.target (c.lookupKey r)).1

/-- The memo after a send through a cache. -/
def memoAfter (e : Engine) (c : InlineCache) (r : ClassId) : LookupMemo :=
  match c.cached? r with
  | some _ => e.memo
  | none => (e.target (c.lookupKey r)).2

/-- What a send through a cache does. -/
structure Dispatched (e : Engine) (c : InlineCache) (r : ClassId)
    (d : Engine × Transition × InlineCache) : Prop where
  same : ∃ space, d.1 = { e with pics := space, memo := e.memoAfter c r }
  target : d.2.1.target? = e.leadsTo? c r
  superClass : d.2.2.superClass = c.superClass
  holds : ∀ P, c.Holds P → (∀ t, e.leadsTo? c r = some t → P (c.lookupKey r) t) → d.2.2.Holds P

/-- A dispatch is a hit or a miss, and both serve the send. -/
theorem dispatched (e : Engine) (c : InlineCache) (r : ClassId) (n : Nat) :
    e.Dispatched c r (e.dispatch c r n) := by
  cases hc : c.cached? r with
  | some t =>
    simp only [dispatch, hc]
    refine ⟨⟨e.pics, ?_⟩, ?_, rfl, fun P hP _ => hP.hit t e.pics⟩
    · simp [memoAfter, hc, InlineCache.hit]
    · simp [leadsTo?, hc, InlineCache.hit, Transition.target?]
  | none =>
    simp only [dispatch, hc]
    have hlead : e.leadsTo? c r = (e.target (c.lookupKey r)).1 := by rw [leadsTo?, hc]
    have hmemo : e.memoAfter c r = (e.target (c.lookupKey r)).2 := by rw [memoAfter, hc]
    refine ⟨⟨_, by rw [hmemo]⟩, ?_, c.superClass_miss r _ e.pics n, fun P hP ht => ?_⟩
    · rw [hlead]
      cases (e.target (c.lookupKey r)).1 with
      | none => rfl
      | some t => exact (c.learned_miss r t e.pics n).target
    · rw [hlead] at ht
      exact hP.miss ht e.pics n

/-- After a send only the tally is left to be changed. -/
theorem afterSend_state (e : Engine) (t : Transition) :
    ∃ tally, (e.afterSend t).state = { e with tally := tally } := by
  rw [afterSend]
  split
  · simp only
    split
    · exact ⟨_, rfl⟩
    · exact ⟨_, rfl⟩
  · exact ⟨_, rfl⟩

/-- A send fails only if nothing was found and the scheduler is running. -/
theorem afterSend_result (e : Engine) (t : Transition) : (e.afterSend t).result =
    if t = .notUnderstood ∧ e.processes.inScheduler then .error (.fatal .lookupInScheduler)
      else .ok t := by
  rw [afterSend]
  by_cases ht : t = .notUnderstood
  · by_cases hs : e.processes.inScheduler
    · simp [ht, hs, Outcome.fail]
    · simp [ht, hs, Outcome.done]
  · simp [ht, Outcome.done]

/-- What a send through the cache `c` at `p` does to the engine. -/
structure Served (e : Engine) (p : SendPlace) (c : InlineCache) (r : ClassId)
    (o : Outcome Engine Transition) :
    Prop where
  /-- It runs what it leads to; a send that is not understood must not be one of
      the scheduler. -/
  result : ∃ t, t.target? = e.leadsTo? c r ∧ o.result =
    if t = .notUnderstood ∧ e.processes.inScheduler then
      .error (.fatal .lookupInScheduler) else .ok t
  advances : e.Advances o.state
  classes : o.state.classes = e.classes
  valid : ∀ i n n', e.code.get? i = some n → o.state.code.get? i = some n' → n.isValid → n'.isValid
  memo : o.state.memo = e.memoAfter c r
  /-- Caches in use get no other entry than what it leads to. -/
  caches : ∀ P, e.Caches P → (e.InUse p → ∀ t, e.leadsTo? c r = some t → P (c.lookupKey r) t) →
    o.state.Caches P

/-- A send of an interpreted method is served by the cache at its place. -/
theorem served_interpreted {m : MethodId} {bci : Bci} (h : e.cacheAt? (.interpreted m bci) = some c)
    (r : ClassId) :
    e.Served (.interpreted m bci) c r (e.sendInterpreted m bci r) := by
  have hcache (P) (hP : e.Caches P) : c.Holds P := hP.cacheAt (p := .interpreted m bci) trivial h
  have hanchors (ha : e.Anchored) : e.classes.Anchors c.superClass := ha.cacheAt h
  obtain ⟨method, hm, h⟩ := Option.bind_eq_some_iff.1 h
  obtain ⟨s, hs, h⟩ := Option.bind_eq_some_iff.1 h
  have hc : (e.sites.cache? m bci).getD (e.freshSite method s) = c := Option.some.inj h
  have hmethod : e.classes.method m = .ok method := by rw [ClassTable.method, hm]
  simp only [sendInterpreted, hmethod, hs, hc]
  -- From here on only what `Dispatched` says about the dispatch is used.
  have hd := e.dispatched c r e.settings.caches.maxEntries.toNat
  generalize e.dispatch c r e.settings.caches.maxEntries.toNat = d at hd ⊢
  obtain ⟨e₁, t, c'⟩ := d
  obtain ⟨⟨space, rfl⟩, htarget, hsuper, hholds⟩ := hd
  obtain ⟨tally, hstate⟩ := afterSend_state
    { e with pics := space, memo := e.memoAfter c r, sites := e.sites.put m bci c' } t
  refine ⟨⟨t, htarget, afterSend_result _ t⟩, ?_, by rw [hstate], ?_, ?_, ?_⟩
  · rw [hstate]
    exact .of_eq rfl rfl fun ha => ha.sites.put (hsuper ▸ hanchors ha)
  · rw [hstate]
    intro i n n' hn hn' hvalid
    cases hn.symm.trans hn'
    exact hvalid
  · rw [hstate]
  · intro P hP ht
    rw [hstate]
    exact ⟨hP.sites.put (hholds P (hcache P hP) (ht trivial)), hP.code⟩

/-- A send of compiled code is served by the cache of its site. -/
theorem served_compiled {n : NativeId} {site : Nat} (h : e.cacheAt? (.compiled n site) = some c)
    (r : ClassId) :
    e.Served (.compiled n site) c r (e.sendCompiled n site r) := by
  obtain ⟨native, hn, h⟩ := Option.bind_eq_some_iff.1 h
  obtain ⟨s, hs, h⟩ := Option.bind_eq_some_iff.1 h
  cases h
  have hnative : e.code.get n = .ok native := by rw [CodeTable.get, hn]
  simp only [sendCompiled, hnative, hs]
  have hd := e.dispatched s.cache r e.settings.caches.maxEntries.toNat
  generalize e.dispatch s.cache r e.settings.caches.maxEntries.toNat = d at hd ⊢
  obtain ⟨e₁, t, c'⟩ := d
  obtain ⟨⟨space, rfl⟩, htarget, hsuper, hholds⟩ := hd
  obtain ⟨tally, hstate⟩ := afterSend_state
    { e with
      pics := space, memo := e.memoAfter s.cache r
      code := e.code.modify n fun m =>
        { m with sites := m.sites.set site { s with cache := c' } } } t
  refine ⟨⟨t, htarget, afterSend_result _ t⟩, ?_, by rw [hstate], ?_, ?_, ?_⟩
  · rw [hstate]
    have hplain :
        e.Advances { e with pics := space, memo := e.memoAfter s.cache r, tally := tally } :=
      .of_eq rfl rfl Anchored.sites
    refine hplain.trans (.modify (fun m _ => ⟨⟨rfl, fun h => h⟩, rfl⟩) fun m hm s' hs' => ?_)
    cases hn.symm.trans hm
    rcases List.mem_or_eq_of_mem_set hs' with hs' | rfl
    · exact ⟨s', hs', rfl⟩
    · exact ⟨s, List.mem_of_getElem? hs, hsuper⟩
  · rw [hstate]
    intro i m m' hm hm' hvalid
    rw [CodeTable.get?_modify, hm] at hm'
    cases hm'
    simp only
    split
    · exact hvalid
    · exact hvalid
  · rw [hstate]
  · intro P hP ht
    rw [hstate]
    refine ⟨hP.sites, fun i m hm hvalid => ?_⟩
    rw [CodeTable.get?_modify] at hm
    obtain ⟨m₀, hm₀, rfl⟩ := Option.map_eq_some_iff.1 hm
    split at hvalid
    · -- Only one site of the code has changed, to what the send left in its cache.
      next hi =>
      rw [hi, hn] at hm₀
      cases hm₀
      have hold : native.All (·.Holds P) := hP.code n native hn hvalid
      rw [if_pos hi]
      intro s' hs'
      rcases List.mem_or_eq_of_mem_set hs' with hs' | rfl
      · exact hold s' hs'
      · exact hholds P (hold s (List.mem_of_getElem? hs)) (ht ⟨native, hn, hvalid⟩)
    · next hi =>
      rw [if_neg hi]
      exact hP.code i m₀ hm₀ hvalid

/-- What a send does: it goes through the cache at its place. -/
theorem served_send (h : e.cacheAt? p = some c) (r : ClassId) : e.Served p c r (e.send p r) := by
  cases p with
  | interpreted m bci => exact served_interpreted h r
  | compiled n site => exact served_compiled h r

/-- A send at a place that does not exist fails, and does nothing. -/
theorem send_of_cacheAt?_eq_none (h : e.cacheAt? p = none) (r : ClassId) :
    ∃ f, e.send p r = .fail e f := by
  cases p with
  | interpreted m bci =>
    cases hm : e.classes.method? m with
    | none =>
      exact ⟨.unknown .method m.index, by simp only [send, sendInterpreted, ClassTable.method, hm]⟩
    | some method =>
      cases hs : method.sendAt? bci with
      | none =>
        exact ⟨.unknown .callSite bci,
          by simp only [send, sendInterpreted, ClassTable.method, hm, hs]⟩
      | some s => simp [cacheAt?, hm, hs] at h
  | compiled n site =>
    cases hn : e.code.get? n with
    | none => exact ⟨.unknown .native n.index, by simp only [send, sendCompiled, CodeTable.get, hn]⟩
    | some native =>
      cases hs : native.sites[site]? with
      | none =>
        exact ⟨.unknown .callSite site, by simp only [send, sendCompiled, CodeTable.get, hn, hs]⟩
      | some s => simp [cacheAt?, hn, hs] at h

/-- All that a send changes of code is the cache at its place. -/
theorem send_changes (e : Engine) (p : SendPlace) (r : ClassId) :
    (e.send p r).state.settings = e.settings ∧ (e.send p r).state.traps = e.traps ∧
      ((e.send p r).state.code = e.code ∨ ∃ i f, (∀ n, ∃ sites, f n = { n with sites := sites }) ∧
        (e.send p r).state.code = e.code.modify i f) := by
  -- The cache is one of the interpreter, or one of a piece of code.
  rcases p with ⟨m, bci⟩ | ⟨i, site⟩
  · rw [send, sendInterpreted]
    split
    · exact ⟨rfl, rfl, .inl rfl⟩
    · next method _ =>
      split
      · exact ⟨rfl, rfl, .inl rfl⟩
      · next s _ =>
        obtain ⟨⟨space, hsame⟩, -⟩ := e.dispatched
          ((e.sites.cache? m bci).getD (e.freshSite method s)) r e.settings.caches.maxEntries.toNat
        obtain ⟨tally, hstate⟩ := afterSend_state _ _
        rw [hstate]
        simp only [hsame]
        exact ⟨trivial, trivial, .inl trivial⟩
  · rw [send, sendCompiled]
    split
    · exact ⟨rfl, rfl, .inl rfl⟩
    · split
      · exact ⟨rfl, rfl, .inl rfl⟩
      · next s _ =>
        obtain ⟨⟨space, hsame⟩, -⟩ := e.dispatched s.cache r e.settings.caches.maxEntries.toNat
        obtain ⟨tally, hstate⟩ := afterSend_state _ _
        rw [hstate]
        simp only [hsame]
        exact ⟨trivial, trivial, .inr ⟨_, _, fun n => ⟨_, rfl⟩, rfl⟩⟩

end Warmup.Engine
