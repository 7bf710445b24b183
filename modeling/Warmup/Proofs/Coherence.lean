import Warmup.Proofs.Redefinition

/-!
# Coherence of dispatch

Inline caches and the lookup memo remember what lookups found. They agree with
the lookup, with two exceptions:

* a lookup that failed before a class on its chain was defined is remembered
  until the next new method (`Engine.tooEarly`);
* code that a trap has made invalid is still called by the caches that know it,
  until the next cleanup (`Engine.lost`).

`Coherent` and `Guarded` say what caches and memo hold in spite of these, and the
lemmas below each of them say how the exceptions change with a step.
-/

namespace Warmup

/-! ## The memo -/

/-- The memo answers what it remembers, and looks up what it does not. -/
theorem LookupMemo.lookup_fst (memo : LookupMemo) (t : ClassTable) (k : LookupKey) :
    (memo.lookup t k).1 = (memo.entries.lookup k).getD (k.resolve t) := by
  rw [lookup]
  cases memo.entries.lookup k <;> rfl

/-- A lookup is remembered, and nothing else changes. -/
theorem LookupMemo.lookup_snd (memo : LookupMemo) (t : ClassTable) (k k' : LookupKey) :
    (memo.lookup t k).2.entries.lookup k' =
      if k' = k then some (memo.lookup t k).1 else memo.entries.lookup k' := by
  rw [lookup]
  cases hk : memo.entries.lookup k with
  | none =>
    by_cases h : k' = k
    · simp [h]
    · simp [h, List.lookup_cons, beq_false_of_ne h]
  | some m =>
    by_cases h : k' = k
    · simp [h, hk]
    · simp [h]

namespace Engine

variable {e e' : Engine} {early : List LookupKey} {retired : List NativeId} {p : SendPlace}
  {c : InlineCache} {r : ClassId}

/-- There is code with this handle, and it may be entered. -/
def IsValid (e : Engine) (i : NativeId) : Prop := ∃ n, e.code.get? i = some n ∧ n.isValid

/-- There is code with this handle that must not be entered. -/
def IsInvalid (e : Engine) (i : NativeId) : Prop := ∃ n, e.code.get? i = some n ∧ ¬n.isValid

theorem IsValid.not_isInvalid {i : NativeId} (h : e.IsValid i) : ¬e.IsInvalid i := by
  obtain ⟨n, hn, hvalid⟩ := h
  rintro ⟨n', hn', hinvalid⟩
  cases hn.symm.trans hn'
  exact hinvalid hvalid

/-- The method that a target runs. -/
def methodOf? (e : Engine) : Target → Option MethodId
  | .interpreted m => some m
  | .compiled i => (e.code.get? i).map (·.method)

/-- A target runs the method that a key leads to. -/
def Runs (e : Engine) (k : LookupKey) (t : Target) : Prop :=
  ∃ m, e.methodOf? t = some m ∧ k.resolve e.classes = some m

/-- What a target runs for a key stays so while the engine advances. -/
theorem Runs.advance {k : LookupKey} {t : Target} (h : e.Runs k t) (ha : e.Advances e') :
    e'.Runs k t := by
  obtain ⟨m, hm, hk⟩ := h
  refine ⟨m, ?_, ha.classes.resolve_eq_some hk⟩
  cases t with
  | interpreted m' => exact hm
  | compiled i =>
    obtain ⟨n, hn, rfl⟩ := Option.map_eq_some_iff.1 hm
    obtain ⟨n', hn', hsame⟩ := ha.kept i n hn
    exact Option.map_eq_some_iff.2 ⟨n', hn', hsame.method⟩

/-- Native code that a lookup leads to is valid. -/
theorem Sound.isValid_target (h : e.Sound) {k : LookupKey} {i : NativeId}
    (ht : (e.target k).1 = some (.compiled i)) :
    e.IsValid i := by
  obtain ⟨m, -, hm⟩ := Option.map_eq_some_iff.1 ht
  cases hcur : e.code.current? k with
  | none =>
    rw [hcur] at hm
    cases hm
  | some j =>
    rw [hcur] at hm
    cases hm
    obtain ⟨n, hn, hvalid, -⟩ := h.current hcur
    exact ⟨n, hn, hvalid⟩

/-- What is current runs what its key leads to, and may be entered. -/
theorem Sound.runs_of_isCurrent (h : e.Sound) {k : LookupKey} {t : Target} (ht : e.isCurrent k t) :
    e.Runs k t ∧ ∀ i, t = .compiled i → e.IsValid i := by
  cases t with
  | interpreted m =>
    rw [isCurrent, Bool.and_eq_true, decide_eq_true_eq] at ht
    exact ⟨⟨m, rfl, ht.1⟩, fun i hi => by cases hi⟩
  | compiled i =>
    rw [isCurrent, decide_eq_true_eq] at ht
    obtain ⟨n, hn, hvalid, -, hresolve⟩ := h.current ht
    refine ⟨⟨n.method, Option.map_eq_some_iff.2 ⟨n, hn, rfl⟩, hresolve⟩, fun j hj => ?_⟩
    cases hj
    exact ⟨n, hn, hvalid⟩

/-- What a send finds for a key if the keys in `early` are remembered as not
    understood. -/
def answer (e : Engine) (early : List LookupKey) (k : LookupKey) : Option MethodId :=
  if k ∈ early then none else k.resolve e.classes

/-- What is answered is what a lookup finds, except for keys that were looked up too early. -/
theorem answer_eq_some_iff {k : LookupKey} {m : MethodId} :
    e.answer early k = some m ↔ k ∉ early ∧ k.resolve e.classes = some m := by
  by_cases h : k ∈ early
  · simp [answer, h]
  · simp [answer, h]

/-- Memo and caches agree with the lookup, but for the keys in `early`, which
    are remembered as not understood. -/
structure Coherent (e : Engine) (early : List LookupKey) : Prop where
  found : ∀ c s m, e.memo.entries.lookup (.send c s) = some (some m) → e.classes.lookup c s = some m
  missed : ∀ c s, e.memo.entries.lookup (.send c s) = some none →
    e.classes.lookup c s = none ∧ e.classes.Complete c ∨ .send c s ∈ early
  remembered : ∀ k ∈ early, e.memo.entries.lookup k = some none
  caches : e.Caches fun k t => e.Runs k t ∧ k ∉ early

/-- All stays coherent while the tables grow, if the memo is the same and the entries were right. -/
theorem Coherent.advance (h : e.Coherent early) (ha : e.Advances e') (hmemo : e'.memo = e.memo)
    (hcaches : e'.Caches fun k t => e.Runs k t ∧ k ∉ early) : e'.Coherent early where
  found c s m hm := ha.classes.lookup_eq_some (h.found c s m (hmemo ▸ hm))
  missed c s hm := by
    refine (h.missed c s (hmemo ▸ hm)).imp_left fun ⟨hnone, hcomplete⟩ => ?_
    exact ⟨ha.classes.lookup_eq_none hcomplete hnone, ha.classes.complete hcomplete⟩
  remembered k hk := hmemo ▸ h.remembered k hk
  caches := hcaches.mono fun k t ⟨hruns, hearly⟩ => ⟨hruns.advance ha, hearly⟩

/-- What a lookup through the memo answers. -/
theorem Coherent.lookup (h : e.Coherent early) (c : ClassId) (s : Selector) :
    (e.memo.lookup e.classes (.send c s)).1 = e.answer early (.send c s) := by
  rw [LookupMemo.lookup_fst, answer]
  split
  · next hearly =>
    rw [h.remembered _ hearly]
    rfl
  · next hearly =>
    cases hk : e.memo.entries.lookup (.send c s) with
    | none => rfl
    | some a =>
      cases a with
      | some m => exact (h.found c s m hk).symm
      | none =>
        -- A miss in the memo is right, since the key was not looked up too early.
        rcases h.missed c s hk with ⟨hnone, -⟩ | hmem
        · exact hnone.symm
        · exact absurd hmem hearly

/-- What a lookup leads to runs what it answers. -/
theorem Coherent.target (h : e.Coherent early) (hs : e.Sound) (c : ClassId) (s : Selector) :
    (e.target (.send c s)).1.map e.methodOf? = (e.answer early (.send c s)).map some := by
  cases hcur : e.code.current? (.send c s) with
  | none =>
    have htarget :
        (e.target (.send c s)).1 = (e.memo.lookup e.classes (.send c s)).1.map .interpreted := by
      simp only [Engine.target, hcur]
    rw [htarget, h.lookup c s, Option.map_map]
    rfl
  -- The current code of a key was compiled from the method that the key resolves to.
  | some i =>
    have htarget : (e.target (.send c s)).1 = (e.memo.lookup e.classes (.send c s)).1.map fun _ =>
        .compiled i := by
      simp only [Engine.target, hcur]
    rw [htarget, h.lookup c s]
    obtain ⟨n, hn, -, -, hresolve⟩ := hs.current hcur
    cases hanswer : e.answer early (.send c s) with
    | none => rfl
    | some m =>
      have hm : m = n.method := by
        rw [answer_eq_some_iff, hresolve] at hanswer
        exact (Option.some.inj hanswer.2).symm
      simp [methodOf?, hn, hm]

/-- What a send in use runs is what the lookup finds, if it was not looked up
    too early. -/
theorem Coherent.leadsTo (h : e.Coherent early) (hs : e.Sound) (hp : e.InUse p)
    (hc : e.cacheAt? p = some c) (r : ClassId) :
    (e.leadsTo? c r).map e.methodOf? = (e.answer early (c.lookupKey r)).map some := by
  rw [leadsTo?]
  cases hcached : c.cached? r with
  | some t =>
    obtain ⟨⟨m, hm, hk⟩, hearly⟩ := (h.caches.cacheAt hp hc).cached hcached
    rw [answer_eq_some_iff.2 ⟨hearly, hk⟩]
    exact congrArg some hm
  | none => exact h.target hs _ _

/-- What a cache leads to is run for the key that its send looks up. -/
theorem Coherent.runs_leadsTo (h : e.Coherent early) (hs : e.Sound) (hp : e.InUse p)
    (hc : e.cacheAt? p = some c) {t : Target} (ht : e.leadsTo? c r = some t) :
    e.Runs (c.lookupKey r) t ∧ c.lookupKey r ∉ early := by
  have hleads := h.leadsTo hs hp hc r
  rw [ht] at hleads
  obtain ⟨m, hm, hmethod⟩ := Option.map_eq_some_iff.1 hleads.symm
  obtain ⟨hearly, hk⟩ := answer_eq_some_iff.1 hm
  exact ⟨⟨m, hmethod.symm, hk⟩, hearly⟩

/-! ## What sends remember -/

/-- The key that a send looks up in vain before all classes on its chain exist. -/
def tooEarly (e : Engine) (p : SendPlace) (r : ClassId) : List LookupKey :=
  match e.cacheAt? p with
  | none => []
  | some c =>
    let k := c.lookupKey r
    if c.cached? r = none ∧ k.resolve e.classes = none ∧ ¬e.classes.Complete k.cls then [k] else []

/-- A key is looked up too early only if nothing is found. -/
theorem resolve_eq_none_of_mem_tooEarly {k : LookupKey} (h : k ∈ e.tooEarly p r) :
    k.resolve e.classes = none := by
  rw [tooEarly] at h
  split at h
  · cases h
  · simp only at h
    split at h
    · next hk =>
      cases List.mem_singleton.1 h
      exact hk.2.1
    · cases h

/-- A key that something runs for was not looked up too early. -/
theorem Runs.not_mem_tooEarly {k : LookupKey} {t : Target} (h : e.Runs k t) :
    k ∉ e.tooEarly p r := by
  obtain ⟨m, -, hm⟩ := h
  intro hmem
  cases hm.symm.trans (resolve_eq_none_of_mem_tooEarly hmem)

/-- Nothing is looked up too early if the class of the receiver and all
    superclasses exist. -/
theorem Anchored.tooEarly_eq_nil (h : e.Anchored) (hclosed : e.classes.Closed)
    (hr : (e.classes.class? r).isSome) (p : SendPlace) : e.tooEarly p r = [] := by
  rw [tooEarly]
  split
  · rfl
  · next c hc =>
    have hstart : (e.classes.class? (c.superClass.getD r)).isSome := by
      cases hs : c.superClass with
      | none => exact hr
      | some d =>
        obtain ⟨x, hx⟩ := h.cacheAt hc d hs
        exact hclosed.isSome_superclass hx
    exact if_neg fun hk => hk.2.2 (hclosed.complete hstart)

/-- A lookup is remembered, too early or not. -/
theorem Coherent.remember (h : e.Coherent early) {new : List LookupKey} {c : ClassId} {s : Selector}
    (hnew : ∀ k, k ∈ new ↔ k = .send c s ∧ e.classes.lookup c s = none ∧ ¬e.classes.Complete c) :
    Coherent { e with memo := (e.memo.lookup e.classes (.send c s)).2 } (new ++ early) where
  found c' s' m hm := by
    simp only [LookupMemo.lookup_snd, h.lookup c s] at hm
    split at hm
    · next hk =>
      cases hk
      exact (answer_eq_some_iff.1 (Option.some.inj hm)).2
    · exact h.found c' s' m hm
  missed c' s' hm := by
    simp only [LookupMemo.lookup_snd, h.lookup c s] at hm
    rw [List.mem_append]
    split at hm
    · next hk =>
      cases hk
      by_cases hearly : .send c s ∈ early
      · exact .inr (.inr hearly)
      · have hnone : e.classes.lookup c s = none := by
          have hanswer := Option.some.inj hm
          rwa [answer, if_neg hearly] at hanswer
        by_cases hcomplete : e.classes.Complete c
        · exact .inl ⟨hnone, hcomplete⟩
        · exact .inr (.inl ((hnew _).2 ⟨rfl, hnone, hcomplete⟩))
    · exact (h.missed c' s' hm).imp_right .inr
  remembered k hk := by
    simp only [LookupMemo.lookup_snd, h.lookup c s]
    rcases List.mem_append.1 hk with hk | hk
    · obtain ⟨rfl, hnone, -⟩ := (hnew k).1 hk
      rw [if_pos rfl, answer]
      split
      · rfl
      · exact congrArg some hnone
    · split
      · next hks =>
        rw [answer, if_pos (hks ▸ hk)]
      · exact h.remembered k hk
  caches := by
    -- What a cache knows was found, so its key is not one that was looked up in vain.
    refine Caches.mono (P := fun k t => e.Runs k t ∧ k ∉ early) ⟨h.caches.sites, h.caches.code⟩ ?_
    rintro k t ⟨hruns, hearly⟩
    refine ⟨hruns, fun hmem => ?_⟩
    rcases List.mem_append.1 hmem with hmem | hmem
    · obtain ⟨rfl, hnone, -⟩ := (hnew k).1 hmem
      obtain ⟨m, -, hm⟩ := hruns
      cases hm.symm.trans hnone
    · exact hearly hmem

/-- A send may look up a key too early, and keeps caches coherent otherwise. -/
theorem Coherent.send (h : e.Coherent early) (hs : e.Sound) (p : SendPlace) (r : ClassId) :
    (e.send p r).state.Coherent (e.tooEarly p r ++ early) := by
  cases hc : e.cacheAt? p with
  | none =>
    obtain ⟨f, hf⟩ := send_of_cacheAt?_eq_none hc r
    have hnew : e.tooEarly p r = [] := by rw [tooEarly, hc]
    rw [hf, hnew]
    exact h
  | some c =>
    have hserved := served_send hc r
    have hboth {k : LookupKey} {t : Target} (hk : e.Runs k t ∧ k ∉ early) :
        e.Runs k t ∧ k ∉ e.tooEarly p r ++ early :=
      ⟨hk.1, fun hmem => (List.mem_append.1 hmem).elim hk.1.not_mem_tooEarly hk.2⟩
    have hcaches := hserved.caches _ (h.caches.mono fun k t => hboth) fun hp t ht =>
      hboth (h.runs_leadsTo hs hp hc ht)
    cases hcached : c.cached? r with
    | some t =>
      -- A hit does not look anything up.
      have hnew : e.tooEarly p r = [] := by simp [tooEarly, hc, hcached]
      rw [hnew] at hcaches ⊢
      refine h.advance hserved.advances ?_ hcaches
      rw [hserved.memo, memoAfter, hcached]
    | none =>
      have hnew : ∀ k, k ∈ e.tooEarly p r ↔ k = c.lookupKey r ∧
          (c.lookupKey r).resolve e.classes = none ∧ ¬e.classes.Complete (c.lookupKey r).cls := by
        intro k
        simp only [tooEarly, hc, hcached, true_and]
        split
        · next hk => simp [hk]
        · next hk => simp [hk]
      -- The memo grows first, and then the rest of the engine changes around it.
      have hback : Advances { e with memo := (e.memo.lookup e.classes (c.lookupKey r)).2 } e :=
        .of_eq rfl rfl Anchored.sites
      refine (h.remember hnew).advance (hback.trans hserved.advances) ?_ hcaches
      rw [hserved.memo, memoAfter, hcached]
      rfl

/-- Where nothing is looked up and no entry is added, all stays coherent. -/
theorem Coherent.quiet (h : e.Coherent early) (hq : e.Quiet e') : e'.Coherent early :=
  h.advance hq.toAdvances hq.memo (hq.caches _ h.caches)

theorem Coherent.cleanup (h : e.Coherent early) : e.cleanup.2.Coherent early :=
  h.advance e.advances_cleanup rfl ((caches_cleanup h.caches).mono fun _ _ hk => hk.1)

/-- A new method starts the memo anew, and leaves what is current in the caches. -/
theorem coherent_of_current (hs : e.Sound) (hmemo : e.memo.entries = [])
    (hcaches : e.Caches fun k t => e.isCurrent k t) : e.Coherent [] where
  found c s m hm := by simp [hmemo] at hm
  missed c s hm := by simp [hmemo] at hm
  remembered k hk := by cases hk
  caches := hcaches.mono fun k t ht => ⟨(hs.runs_of_isCurrent ht).1, List.not_mem_nil⟩

/-! ## What may be entered -/

/-- Caches in use lead to no invalid code but that in `retired`. -/
structure Guarded (e : Engine) (retired : List NativeId) : Prop where
  invalid : ∀ i ∈ retired, e.IsInvalid i
  caches : e.Caches fun _ t => ∀ i, t = .compiled i → e.IsValid i ∨ i ∈ retired

/-- After a cleanup no cache leads to invalid code. -/
theorem guarded_of_current (hs : e.Sound) (hcaches : e.Caches fun k t => e.isCurrent k t) :
    e.Guarded [] where
  invalid i hi := by cases hi
  caches := hcaches.mono fun k t ht i hi => .inl ((hs.runs_of_isCurrent ht).2 i hi)

/-- Code that is invalid stays so. -/
theorem IsInvalid.advance {i : NativeId} (h : e.IsInvalid i) (ha : e.Advances e') :
    e'.IsInvalid i := by
  obtain ⟨n, hn, hinvalid⟩ := h
  obtain ⟨n', hn', hsame⟩ := ha.kept i n hn
  exact ⟨n', hn', fun hvalid => hinvalid (hsame.valid hvalid)⟩

/-- The code that was valid in `e` and is invalid in `e'`. -/
def lost (e e' : Engine) : List NativeId :=
  ((e.code.methods.filter (·.isValid)).map (·.id)).filter fun i =>
    (e'.code.get? i).any fun n => !n.isValid

/-- Code is lost by becoming invalid. -/
theorem isInvalid_of_mem_lost {i : NativeId} (h : i ∈ e.lost e') : e'.IsInvalid i := by
  obtain ⟨n, hn, hinvalid⟩ := (Option.any_eq_true _ _).1 (List.mem_filter.1 h).2
  exact ⟨n, hn, by simpa using hinvalid⟩

/-- Valid code stays valid unless it is lost. -/
theorem IsValid.advance {i : NativeId} (h : e.IsValid i) (hw : e.code.WellFormed)
    (ha : e.Advances e') :
    e'.IsValid i ∨ i ∈ e.lost e' := by
  obtain ⟨n, hn, hvalid⟩ := h
  obtain ⟨n', hn', hsame⟩ := ha.kept i n hn
  by_cases hvalid' : n'.isValid
  · exact .inl ⟨n', hn', hvalid'⟩
  · refine .inr (List.mem_filter.2 ⟨List.mem_map.2 ⟨n, ?_, hw.id_eq i n hn⟩, ?_⟩)
    · exact List.mem_filter.2 ⟨List.mem_of_getElem? hn, hvalid⟩
    · simp [hn', hvalid']

/-- A quiet step may lose code that caches know. -/
theorem Guarded.quiet (h : e.Guarded retired) (hw : e.code.WellFormed) (hq : e.Quiet e') :
    e'.Guarded (e.lost e' ++ retired) where
  invalid i hi := (List.mem_append.1 hi).elim isInvalid_of_mem_lost fun hi =>
    (h.invalid i hi).advance hq.toAdvances
  caches := by
    refine (hq.caches _ h.caches).mono fun _ t ht i hi => ?_
    rw [List.mem_append]
    rcases ht i hi with hvalid | hmem
    · exact (hvalid.advance hw hq.toAdvances).imp_right .inl
    · exact .inr (.inr hmem)

/-- Nothing is retired by a change that makes no code invalid. -/
theorem Guarded.advance (h : e.Guarded retired) (ha : e.Advances e')
    (hvalid : ∀ i n n', e.code.get? i = some n → e'.code.get? i = some n' → n.isValid → n'.isValid)
    (hcaches : e'.Caches fun _ t => ∀ i, t = .compiled i → e.IsValid i ∨ i ∈ retired) :
    e'.Guarded retired where
  invalid i hi := (h.invalid i hi).advance ha
  caches := by
    refine hcaches.mono fun _ t ht i hi => (ht i hi).imp_left fun ⟨n, hn, hn'⟩ => ?_
    obtain ⟨n', hkept, -⟩ := ha.kept i n hn
    exact ⟨n', hkept, hvalid i n n' hn hkept hn'⟩

/-- A send never puts invalid code into a cache. -/
theorem Guarded.send (h : e.Guarded retired) (hs : e.Sound) (p : SendPlace) (r : ClassId) :
    (e.send p r).state.Guarded retired := by
  cases hc : e.cacheAt? p with
  | none =>
    obtain ⟨f, hf⟩ := send_of_cacheAt?_eq_none hc r
    rw [hf]
    exact h
  | some c =>
    have hserved := served_send hc r
    refine h.advance hserved.advances hserved.valid
      (hserved.caches _ h.caches fun hp t ht i hi => ?_)
    -- A hit adds what the cache had already, and a lookup leads to valid code only.
    rw [leadsTo?] at ht
    split at ht
    · next t' hcached =>
      cases ht
      exact (h.caches.cacheAt hp hc).cached hcached i hi
    · cases hi
      exact .inl (hs.isValid_target ht)

end Engine

end Warmup
