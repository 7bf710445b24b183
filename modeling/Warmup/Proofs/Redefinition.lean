import Warmup.Proofs.Sends

/-!
# Redefinition

A new method makes invalid what was compiled from the method it takes the place
of, and drops all cache entries that are not current. So code that is valid is up
to date at every moment of a run (`Engine.Sound`, `Sound.run`), whatever was sent,
compiled, trapped or defined.
-/

namespace Warmup.Engine

variable {e e' : Engine} {P : LookupKey → Target → Prop} {c : ClassId} {d : Draft} {m : MethodId}

/-! ## Cleanup -/

/-- A cleanup leaves all code in its place. -/
theorem get?_cleanup (e : Engine) (i : NativeId) :
    (∃ n n', e.code.get? i = some n ∧ e.cleanup.2.code.get? i = some n' ∧
      CleanedCode e.isCurrent n n') ∨ e.code.get? i = none ∧ e.cleanup.2.code.get? i = none :=
  cleanupNatives_cases e.isCurrent e.code.methods _ i.index

/-- A cleanup leaves code as it is, apart from its caches. -/
theorem CleanedCode.became {isCurrent : LookupKey → Target → Bool} {n n' : NativeMethod}
    (h : CleanedCode isCurrent n n') : n.Became n' where
  same := by rw [h.same]
  valid hvalid := by
    rw [h.same] at hvalid
    exact hvalid

/-- A cleanup is a step of the engine like the others. -/
theorem advances_cleanup (e : Engine) : e.Advances e.cleanup.2 where
  classes := .refl _
  built h := h
  code h := by
    refine h.congr rfl fun i => ?_
    rcases e.get?_cleanup i with ⟨n, n', hn, hn', hclean⟩ | ⟨hn, hn'⟩
    · rw [hn, hn', hclean.same]
      rfl
    · rw [hn, hn']
  kept i n hn := by
    rcases e.get?_cleanup i with ⟨n₀, n', hn₀, hn', hclean⟩ | ⟨hnone, -⟩
    · cases hn.symm.trans hn₀
      exact ⟨n', hn', hclean.became⟩
    · cases hn.symm.trans hnone
  fresh _ i n hn hnone := by
    rcases e.get?_cleanup i with ⟨n₀, n', hn₀, -⟩ | ⟨-, hn'⟩
    · cases hnone.symm.trans hn₀
    · cases hn.symm.trans hn'
  anchored h := by
    have hcache (c : InlineCache) (space : PicSpace) (hc : e.classes.Anchors c.superClass) :
        e.classes.Anchors (c.cleanup e.isCurrent space).2.1.superClass := by
      rw [(c.cleaned_cleanup e.isCurrent space).superClass]
      exact hc
    refine ⟨h.sites.cleanup hcache e.pics, fun i n' hn' => ?_⟩
    rcases e.get?_cleanup i with ⟨n, n₁, hn, hn₁, hclean⟩ | ⟨-, hnone⟩
    · cases hn'.symm.trans hn₁
      by_cases hvalid : n.isValid
      · exact hclean.valid hvalid _ _ hcache (h.code i n hn)
      · rw [hclean.invalid hvalid]
        exact h.code i n hn
    · cases hn'.symm.trans hnone

/-- What is left in caches after a cleanup is current. -/
theorem caches_cleanup (h : e.Caches P) :
    e.cleanup.2.Caches fun k t => P k t ∧ e.isCurrent k t where
  sites := h.sites.cleanup (fun _ space hc => hc.cleanup e.isCurrent space) e.pics
  code i n' hn' hvalid := by
    rcases e.get?_cleanup i with ⟨n, n₁, hn, hn₁, hclean⟩ | ⟨-, hnone⟩
    · cases hn'.symm.trans hn₁
      have hvalid₀ := hclean.became.valid hvalid
      exact hclean.valid hvalid₀ _ _ (fun _ space hc => hc.cleanup e.isCurrent space)
        (h.code i n hn hvalid₀)
    · cases hn'.symm.trans hnone

theorem caches_true (e : Engine) : e.Caches fun _ _ => True :=
  ⟨fun _ _ _ _ => trivial, fun _ _ _ _ _ _ _ _ => trivial⟩

/-- After a cleanup all entries of caches in use are current. -/
theorem caches_isCurrent_cleanup (e : Engine) :
    e.cleanup.2.Caches fun k t => e.cleanup.2.isCurrent k t := by
  refine (caches_cleanup e.caches_true).mono fun k t ht => ?_
  cases t <;> exact ht.2

/-! ## New methods -/

/-- Whether the caches and trap counts of a method are dropped too makes no difference to the
    code. -/
theorem code_retract (e : Engine) (old : MethodId) :
    (e.retract old).code = (e.code.invalidateDependents old).2 := by
  rw [retract]
  split
  · rfl
  · rfl

/-- What is left when all that was built on a method is taken back. -/
structure Retracted (e : Engine) (old : Option MethodId) (e' : Engine) : Prop where
  classes : e'.classes = e.classes
  memo : e'.memo = e.memo
  code : e'.code.WellFormed
  /-- The method was not compiled into code that is still valid. -/
  natives : ∀ i n', e'.code.get? i = some n' → n'.isValid →
    ∃ n, e.code.get? i = some n ∧ n.Became n' ∧ ∀ m, old = some m → ¬n.dependsOn m
  anchored : e.Anchored → e'.Anchored

/-- Retracting a method makes invalid what depends on it, and changes nothing else of code. -/
theorem retracted (h : e.code.WellFormed) (old : Option MethodId) :
    e.Retracted old ((old.map e.retract).getD e) := by
  cases old with
  | none =>
    exact ⟨rfl, rfl, h, fun i n hn _ => ⟨n, hn, .refl n, fun m hm => by cases hm⟩, fun ha => ha⟩
  | some m =>
    have hcode := e.code_retract m
    have hrest : (e.retract m).classes = e.classes ∧ (e.retract m).memo = e.memo := by
      rw [retract]
      split
      · exact ⟨rfl, rfl⟩
      · exact ⟨rfl, rfl⟩
    -- The caches that go are those of the method that is retracted.
    have hsites {C : InlineCache → Prop} (hC : e.sites.All C) : (e.retract m).sites.All C := by
      rw [retract]
      split
      · exact hC.removeMethod m e.pics
      · exact hC
    refine ⟨hrest.1, hrest.2, ?_, fun i n' hn' hvalid => ?_, fun ha => ?_⟩
    · simp only [Option.map_some, Option.getD_some, hcode]
      exact h.invalidateDependents m
    · simp only [Option.map_some, Option.getD_some, hcode] at hn'
      rw [CodeTable.get?_invalidateDependents h] at hn'
      obtain ⟨n, hn, rfl⟩ := Option.map_eq_some_iff.1 hn'
      split at hvalid
      · cases hvalid
      · next hdep =>
        rw [if_neg hdep]
        refine ⟨n, hn, .refl n, fun m' hm' => ?_⟩
        cases hm'
        simpa [hvalid] using hdep
    · simp only [Option.map_some, Option.getD_some]
      refine ⟨hrest.1 ▸ hsites ha.sites, fun i n' hn' => ?_⟩
      rw [hcode, CodeTable.get?_invalidateDependents h] at hn'
      obtain ⟨n, hn, rfl⟩ := Option.map_eq_some_iff.1 hn'
      rw [hrest.1]
      split
      · exact ha.code i n hn
      · exact ha.code i n hn

/-- A new method is put into the table, its predecessor is retracted, and all caches are cleaned. -/
theorem replaceMethod_ok (hw : e.code.WellFormed) (h : e.replaceMethod c d = .ok (e', m)) :
    ∃ classes e₁, e.classes.addMethod c d = .ok (classes, m) ∧
      Retracted { e with classes := classes, memo := e.memo.flush }
        (e.classes.lookup c d.selector) e₁ ∧
      e' = e₁.cleanup.2 := by
  rw [replaceMethod] at h
  obtain ⟨⟨classes, new⟩, hadd, h⟩ := exists_ok_of_bind h
  cases h
  exact ⟨classes, _, hadd,
    retracted (e := { e with classes := classes, memo := e.memo.flush }) hw _, rfl⟩

/-- A new method changes no superclass. -/
theorem Anchored.addMethod (h : e.Anchored) {classes : ClassTable}
    (hadd : e.classes.addMethod c d = .ok (classes, m)) :
    Anchored { e with classes := classes, memo := e.memo.flush } := by
  have hanchors (start : Option ClassId) (hs : e.classes.Anchors start) :
      classes.Anchors start := by
    intro x hx
    obtain ⟨y, hy⟩ := hs x hx
    exact ⟨y, by rw [ClassTable.superclass?_addMethod hadd, hy]⟩
  exact ⟨h.sites.mono fun c => hanchors c.superClass, fun i n hn => (h.code i n hn).mono
    fun c => hanchors c.superClass⟩

/-! ## Soundness of code -/

/-- What holds at every moment of a run: valid code is up to date. -/
structure Sound (e : Engine) : Prop where
  classes : e.classes.Built
  code : e.code.WellFormed
  upToDate : ∀ i n, e.code.get? i = some n → n.isValid → n.UpToDate e.classes
  anchored : e.Anchored

theorem Sound.advance (h : e.Sound) (ha : e.Advances e') : e'.Sound where
  classes := ha.built h.classes
  code := ha.code h.code
  upToDate i n' hn' hvalid := by
    -- Code is new, and then it was compiled just now, or it was there before.
    cases hi : e.code.get? i with
    | none => exact ha.fresh h.classes i n' hn' hi
    | some n =>
      obtain ⟨n₁, hn₁, hsame⟩ := ha.kept i n hi
      cases hn'.symm.trans hn₁
      exact ((h.upToDate i n hi (hsame.valid hvalid)).extend ha.classes).congr hsame.key
        hsame.method hsame.scopes
  anchored := ha.anchored h.anchored

/-- The method that a class had before is exactly what the lookups found whose
    answers have changed, and no valid code depends on it. -/
theorem Sound.replace (h : e.Sound) (hr : e.replaceMethod c d = .ok (e', m)) : e'.Sound := by
  obtain ⟨classes, e₁, hadd, hret, rfl⟩ := replaceMethod_ok h.code hr
  have hsound : e₁.Sound := by
    refine ⟨?_, hret.code, fun i n' hn' hvalid => ?_, hret.anchored (h.anchored.addMethod hadd)⟩
    · rw [hret.classes]
      exact h.classes.addMethod hadd
    · obtain ⟨n, hn, hsame, hdep⟩ := hret.natives i n' hn' hvalid
      -- What the lookups of this code found has not changed, since none of them
      -- found the method that was replaced.
      have hold := (h.upToDate i n hn (hsame.valid hvalid)).addMethod hadd hdep
      rw [hret.classes]
      exact hold.congr hsame.key hsame.method hsame.scopes
  exact hsound.advance e₁.advances_cleanup

theorem Sound.send (h : e.Sound) (p : SendPlace) (r : ClassId) : (e.send p r).state.Sound := by
  cases hc : e.cacheAt? p with
  | none =>
    obtain ⟨f, hf⟩ := send_of_cacheAt?_eq_none hc r
    rw [hf]
    exact h
  | some c => exact h.advance (served_send hc r).advances

/-- Every event keeps the engine sound. -/
theorem Sound.step (h : e.Sound) (ev : Event) : (e.step ev).Sound := by
  by_cases hev : ev.isSteady
  · exact h.advance (e.steady_step hev).toAdvances
  · cases ev with
    | send p r => exact h.send p r
    | trap p i trap => exact h.advance (quiet_uncommonTrap h.code p i trap).toAdvances
    | replace c d =>
      simp only [Engine.step, orElse]
      split
      · next hr => exact h.replace hr
      · exact h
    | cleanup => exact h.advance e.advances_cleanup
    -- The others are steady.
    | _ => exact absurd rfl hev

theorem Sound.start (s : Settings) {t : ClassTable} (ht : t.Built) : (startWith s t).Sound where
  classes := ht
  code := .empty
  upToDate i n hn := by simp [startWith, Engine.start, CodeTable.get?] at hn
  anchored := by
    refine ⟨fun s hs => ?_, fun i n hn => ?_⟩
    · cases hs
    · simp [startWith, Engine.start, CodeTable.get?] at hn

theorem Sound.run (h : e.Sound) (events : List Event) : (e.run events).Sound := by
  induction events generalizing e with
  | nil => exact h
  | cons ev events ih => exact ih (h.step ev)

theorem Reachable.sound (h : e.Reachable) : e.Sound := by
  obtain ⟨s, t, events, ht, rfl⟩ := h
  exact (Sound.start s ht).run events

/-! ## Classes after their superclasses -/

theorem classes_send (e : Engine) (p : SendPlace) (r : ClassId) :
    (e.send p r).state.classes = e.classes := by
  cases hc : e.cacheAt? p with
  | none =>
    obtain ⟨f, hf⟩ := send_of_cacheAt?_eq_none hc r
    rw [hf]
    rfl
  | some c => exact (served_send hc r).classes

/-- Only the definition of a class says what its superclass is. -/
theorem founded_step (h : e.Sound) (hg : e.classes.Founded) {ev : Event} (hev : ev.isFounded e) :
    (e.step ev).classes.Founded := by
  by_cases hsteady : ev.isSteady
  · rcases e.upkeep_step hsteady with hupkeep | ⟨t, -, -, hfounded, hstep⟩
    · rwa [hupkeep.classes_eq]
    · rw [hstep]
      exact hfounded hev hg
  · cases ev with
    -- Sends, traps and cleanups define nothing.
    | send p r => exact (e.classes_send p r).symm ▸ hg
    | trap p i trap => exact (upkeep_uncommonTrap h.code p i trap).classes_eq.symm ▸ hg
    | replace c d =>
      simp only [Engine.step, orElse]
      split
      · next hr =>
        obtain ⟨classes, e₁, hadd, hret, rfl⟩ := replaceMethod_ok h.code hr
        have hclasses : e₁.cleanup.2.classes = classes := hret.classes
        rw [hclasses]
        exact hg.addMethod hadd
      · exact hg
    | cleanup => exact hg
    | _ => exact absurd rfl hsteady

/-- In a run in which superclasses are defined before their classes the table stays founded. -/
theorem founded_run (h : e.Sound) (hg : e.classes.Founded) {events : List Event}
    (hevents : e.isFounded events) :
    (e.run events).classes.Founded := by
  induction events generalizing e with
  | nil => exact hg
  | cons ev events ih =>
    obtain ⟨hev, hevents⟩ := Bool.and_eq_true_iff.1 hevents
    exact ih (h.step ev) (founded_step h hg hev) hevents

/-- What is current is right: native code that a lookup would enter, or the
    method that it finds. -/
theorem Sound.current (h : e.Sound) {k : LookupKey} {i : NativeId}
    (hk : e.code.current? k = some i) :
    ∃ n, e.code.get? i = some n ∧ n.isValid ∧ n.key = k ∧ k.resolve e.classes = some n.method := by
  obtain ⟨n, hn, rfl, hlive⟩ := (h.code.current_iff k i).1 hk
  have hvalid : n.isValid := by simp [NativeMethod.isValid, hlive]
  exact ⟨n, hn, hvalid, rfl, (h.upToDate i n hn hvalid).key⟩

/-- At every moment of a run in which methods are installed by replacing them,
    code that is not invalid is up to date: every scope with the key of a send
    has the method that the send finds now, and every scope that was inlined at a
    super send has the method that the super send finds now. The current version
    of a key has that key, and the method that the key leads to. -/
theorem upToDate_of_reachable (h : e.Reachable) :
    (∀ i n, e.code.get? i = some n → n.state ≠ .invalid → n.UpToDate e.classes) ∧
      ∀ k i, e.code.current? k = some i →
        ∃ n, e.code.get? i = some n ∧ n.key = k ∧ k.resolve e.classes = some n.method := by
  refine ⟨fun i n hn hstate => ?_, fun k i hk => ?_⟩
  · exact h.sound.upToDate i n hn (by simpa [NativeMethod.isValid] using hstate)
  · obtain ⟨n, hn, -, hkey, hresolve⟩ := h.sound.current hk
    exact ⟨n, hn, hkey, hresolve⟩

/-- A class, and one below it whose method is a super send to the method above;
    this is compiled, then the method above is replaced, and the method below is
    compiled again. -/
def inheritedArea : List Event := [
  .defineClass "Shape" (some ⟨0⟩), .replace ⟨9⟩ { selector := ⟨0⟩, steps := [.work 1] },
  .defineClass "Square" (some ⟨9⟩), .replace ⟨10⟩ { selector := ⟨0⟩, steps := [.superSend ⟨0⟩ []] },
  .compile (.send ⟨10⟩ ⟨0⟩), .replace ⟨9⟩ { selector := ⟨0⟩, steps := [.work 2] },
    .compile (.send ⟨10⟩ ⟨0⟩)]

/-- The first code is invalid. In the second one the new method above is inlined
    at the super send, and it is up to date. -/
theorem upToDate_inheritedArea :
    let e := (startWith {} .initial).run inheritedArea
    e.Reachable ∧ (e.code.get? ⟨0⟩).map (·.state) = some .invalid ∧
      (∃ n, e.code.get? ⟨1⟩ = some n ∧ n.state ≠ .invalid ∧
        n.scopes.map (fun d => (d.sender, d.method)) = [(none, ⟨1⟩), (some (0, 0), ⟨2⟩)] ∧
          n.UpToDate e.classes) ∧
      e.code.current? (.send ⟨10⟩ ⟨0⟩) = some ⟨1⟩ ∧
      ∃ n, e.code.get? ⟨1⟩ = some n ∧ n.key = .send ⟨10⟩ ⟨0⟩ ∧
        (LookupKey.send ⟨10⟩ ⟨0⟩).resolve e.classes = some n.method :=
  have hreach : ((startWith {} .initial).run inheritedArea).Reachable :=
    ⟨{}, .initial, inheritedArea, .initial, rfl⟩
  have h := upToDate_of_reachable hreach
  ⟨hreach, by decide, ⟨_, rfl, by decide, by decide, h.1 ⟨1⟩ _ rfl (by decide)⟩,
    by decide, h.2 _ _ (by decide)⟩

end Warmup.Engine
