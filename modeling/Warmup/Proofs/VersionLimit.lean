import Warmup.Proofs.Requests

/-!
# The limit on versions

In a run in which nothing but requests leads to compilations, no key ever has more versions than
the settings allow (`Engine.versions_le`), so the counter of its versions always has room for the
next one (`Engine.exists_install`). The versions of a key become no fewer, even if all of them are
invalid (`Engine.versions_mono`). So a key with as many versions as are allowed keeps them: every
request that concerns it from then on is refused (`Engine.refused_of_full`).
-/

namespace Warmup

namespace Compiler

variable {c : Compiler} {k : LookupKey} {trigger : Trigger} {level : Nat}

/-- A key with too many versions is refused, whatever asks for it. -/
theorem nextLevel_of_full (h : c.settings.recompile.maxVersions.toNat ≤ c.code.versionCount k) :
    c.nextLevel k trigger = .ok (.error (.tooManyVersions (c.code.versionCount k))) := by
  rw [nextLevel]
  exact if_pos h

/-- A level is only granted if there is room for a version. -/
theorem versionCount_lt_of_nextLevel (h : c.nextLevel k trigger = .ok (.ok level)) :
    c.code.versionCount k < c.settings.recompile.maxVersions.toNat := by
  by_contra hfull
  rw [nextLevel_of_full (Nat.le_of_not_lt hfull)] at h
  cases h

end Compiler

namespace Engine

variable {e e' : Engine} {s : Settings} {t : ClassTable} {k : LookupKey} {level : Nat} {ev : Event}
  {r : Request}

theorem Installs.versionCount (h : e.Installs k level e') (k' : LookupKey) :
    e'.code.versionCount k' = if k = k' then e.code.versionCount k' + 1
      else e.code.versionCount k' := by
  obtain ⟨comp, i, hprepare, hinstall⟩ := h.installed
  rw [CodeTable.versionCount_install hinstall, (prepare_ok hprepare).1]

/-! ## Steps -/

/-- No key has more versions than are allowed. -/
def WithinVersions (s : Settings) (e : Engine) : Prop :=
  e.settings = s ∧ ∀ k, e.code.versionCount k ≤ s.recompile.maxVersions.toNat

theorem Idles.withinVersions (h : e.Idles e') (he : e.WithinVersions s) : e'.WithinVersions s :=
  ⟨h.settings.trans he.1, fun k => h.code.versionCount k ▸ he.2 k⟩

/-- A step that has passed the gate keeps to the limit. -/
theorem Progresses.withinVersions (h : e.Progresses e') (he : e.WithinVersions s) :
    e'.WithinVersions s := by
  cases h with
  | idle hidle => exact hidle.withinVersions he
  | @install e₁ k level trigger hidle hlevel hinstalls =>
    obtain ⟨hsettings, hle⟩ := hidle.withinVersions he
    refine ⟨hinstalls.settings.trans hsettings, fun k' => ?_⟩
    rw [hinstalls.versionCount]
    split
    · next hk =>
      have hlt := Compiler.versionCount_lt_of_nextLevel hlevel
      rw [show e₁.compiler.settings = s from hsettings] at hlt
      exact hk ▸ hlt
    · exact hle k'

/-- No step takes a version away. -/
theorem Progresses.versionCount_le (h : e.Progresses e') (k : LookupKey) :
    e.code.versionCount k ≤ e'.code.versionCount k := by
  cases h with
  | idle hidle => exact Nat.le_of_eq (hidle.code.versionCount k).symm
  | install hidle _ hinstalls =>
    rw [hinstalls.versionCount, hidle.code.versionCount]
    split
    · exact Nat.le_succ _
    · exact Nat.le_refl _

/-! ## Runs -/

/-- No key ever has more versions than are allowed. -/
theorem versions_le (h : (startWith s t).AdaptsTo e) : e.WithinVersions s :=
  h.induction (fun _ _ _ hprogresses he => hprogresses.withinVersions he) (.start t)
    ⟨rfl, fun _ => Nat.zero_le _⟩

theorem versions_mono (h : e.AdaptsTo e') (ha : Attained s e) (k : LookupKey) :
    e.code.versionCount k ≤ e'.code.versionCount k :=
  h.induction (P := fun e' => e.code.versionCount k ≤ e'.code.versionCount k)
    (fun _ _ _ hprogresses hle => Nat.le_trans hle (hprogresses.versionCount_le k)) ha
    (Nat.le_refl _)

/-! ## Requests -/

/-- What has passed the gate can be installed, since the limit itself fits the counter. -/
theorem exists_install {choice : Choice} (h : r.verdict = .ok (.recompile choice))
    {n : NativeMethod} (hn : n.key = choice.key) :
    ∃ result, r.engine.code.install n = .ok result := by
  have hlt := Compiler.versionCount_lt_of_nextLevel (Request.chosen_of_verdict h).2
  have hfits : r.engine.code.versionCount n.key + 1 < Word.size 16 := by
    have hmax := r.engine.settings.recompile.maxVersions.toNat_lt
    rw [hn]
    exact Nat.lt_of_le_of_lt hlt hmax
  rw [CodeTable.install, Word.fit_eq_ok_iff.2 ⟨rfl, hfits⟩]
  exact ⟨_, rfl⟩

/-- What has as many versions as are allowed is refused. -/
theorem refused_of_full (he : r.engine.WithinVersions s)
    (hfull : s.recompile.maxVersions.toNat ≤ r.engine.code.versionCount k) (hk : r.Concerns k) :
    r.outcome = .ok
      ({ r.engine with tally := { r.engine.tally with declined := r.engine.tally.declined + 1 } },
        .declined (.tooManyVersions s.recompile.maxVersions.toNat)) := by
  obtain ⟨hsettings, hle⟩ := he
  have hcount : r.engine.code.versionCount k = s.recompile.maxVersions.toNat :=
    Nat.le_antisymm (hle k) hfull
  have hrefused : r.engine.compiler.nextLevel k r.trigger =
      .ok (.error (.tooManyVersions (r.engine.code.versionCount k))) :=
    Compiler.nextLevel_of_full
      (by rw [show r.engine.compiler.settings = s from hsettings]; exact hfull)
  rw [← hcount]
  exact Request.outcome_of_declined (Request.verdict_of_refused hk hrefused)

/-- Where nothing but requests leads to compilations, no key ever has more versions than are
    allowed, and code whose compilation is granted can always be installed. From the moment on at
    which a key has as many versions as are allowed, every request that concerns it is refused for
    that reason, and installs no code. -/
theorem versions_bounded (h : (startWith s t).AdaptsTo e) :
    (∀ k, e.code.versionCount k ≤ s.recompile.maxVersions.toNat) ∧
    (∀ ev r choice n, e.Asks ev r → r.verdict = .ok (.recompile choice) → n.key = choice.key →
      ∃ result, r.engine.code.install n = .ok result) ∧
    ∀ k, e.code.versionCount k = s.recompile.maxVersions.toNat → ∀ e', e.AdaptsTo e' →
      ∀ ev r, e'.Asks ev r → r.Concerns k →
        (∃ later,
          r.outcome = .ok (later, .declined (.tooManyVersions s.recompile.maxVersions.toNat))) ∧
          e'.Idles (e'.step ev) := by
  have hwithin := versions_le h
  have hattained : Attained s e := AdaptsTo.attained h (.start t)
  refine ⟨hwithin.2, fun _ _ _ _ _ hverdict hn => exists_install hverdict hn,
    fun k hfull e' h' ev r hasks hk => ?_⟩
  have hidle := hasks.idles (AdaptsTo.attained h' hattained).balanced.code
  have hwithin' : r.engine.WithinVersions s := hidle.withinVersions (versions_le (h.trans h'))
  -- A key that is full stays full.
  have hcount : s.recompile.maxVersions.toNat ≤ r.engine.code.versionCount k := by
    rw [hidle.code.versionCount, ← hfull]
    exact versions_mono h' hattained k
  have houtcome := refused_of_full hwithin' hcount hk
  refine ⟨⟨_, houtcome⟩, ?_⟩
  rw [hasks.step_eq, houtcome]
  exact ⟨hidle.settings, hidle.code⟩

/-- Two versions of a key, and code may be compiled again at once. -/
def twoVersions : Settings := { recompile := { maxVersions := 2, minInvocations := 0 } }

/-- A method is compiled twice, and another one runs that is interpreted. -/
def compiledTwice : List Event := [
  .replace ⟨0⟩ { selector := ⟨0⟩, steps := [.work 1] },
  .replace ⟨0⟩ { selector := ⟨1⟩, steps := [.work 1] },
  .setProcesses {
    callStacks :=
      [[{ key := .send ⟨0⟩ ⟨0⟩, method := ⟨0⟩ }], [{ key := .send ⟨0⟩ ⟨1⟩, method := ⟨1⟩ }]] },
  .recompile ⟨0⟩ 0 .trap, .recompile ⟨0⟩ 0 .trap]

/-- The second method may be compiled. The first one is not compiled again, even after it was
    replaced and all its code is invalid. -/
theorem versions_bounded_compiledTwice : ∃ e e' r choice,
    e = (startWith twoVersions .initial).run compiledTwice ∧
      (startWith twoVersions .initial).AdaptsTo e ∧
    (∀ k, e.code.versionCount k ≤ 2) ∧ e.code.versionCount (.send ⟨0⟩ ⟨0⟩) = 2 ∧
    e.Asks (.recompile ⟨1⟩ 0 .counter) ⟨e, ⟨1⟩, 0, .counter⟩ ∧
    Request.verdict ⟨e, ⟨1⟩, 0, .counter⟩ = .ok (.recompile choice) ∧
    (∃ result, e.code.install { key := choice.key, method := ⟨1⟩, level := 1 } = .ok result) ∧
    e' = e.step (.replace ⟨0⟩ { selector := ⟨0⟩, steps := [.work 2] }) ∧ e.AdaptsTo e' ∧
    e'.code.methods.map (·.state) = [.invalid, .invalid] ∧ e'.Asks (.recompile ⟨0⟩ 0 .counter) r ∧
    r.Concerns (.send ⟨0⟩ ⟨0⟩) ∧
      (∃ later, r.outcome = .ok (later, .declined (.tooManyVersions 2))) ∧
    e'.Idles (e'.step (.recompile ⟨0⟩ 0 .counter)) := by
  obtain ⟨e, he⟩ : ∃ e, e = (startWith twoVersions .initial).run compiledTwice := ⟨_, rfl⟩
  have hrun : (startWith twoVersions .initial).AdaptsTo e := he ▸ adaptsTo_run _ (by decide)
  obtain ⟨hle, hinstall, hrefused⟩ := versions_bounded hrun
  have hfull : e.code.versionCount (.send ⟨0⟩ ⟨0⟩) = 2 := by
    rw [he]
    decide +kernel
  have hverdict : Request.verdict ⟨e, ⟨1⟩, 0, .counter⟩ =
      .ok (.recompile ⟨0, .send ⟨0⟩ ⟨1⟩, ⟨1⟩, none, 1⟩) := by
    rw [he]
    rfl
  obtain ⟨e', he'⟩ : ∃ e', e' = e.step (.replace ⟨0⟩ { selector := ⟨0⟩, steps := [.work 2] }) :=
    ⟨_, rfl⟩
  have hrun' : e.AdaptsTo e' := he' ▸ .single (.event e rfl)
  have hasks := Asks.recompile (e := e') ⟨0⟩ 0 .counter
  have hconcerns : Request.Concerns ⟨e', ⟨0⟩, 0, .counter⟩ (.send ⟨0⟩ ⟨0⟩) := by
    have hstack : e'.processes.stack ⟨0⟩ = .ok [{ key := .send ⟨0⟩ ⟨0⟩, method := ⟨0⟩ }] := by
      rw [he', he]
      rfl
    refine ⟨_, 0, _, hstack, ⟨0, ?_, belowSupers_spec _ 0⟩, rfl, rfl⟩
    exact (Compiler.ascend_eq_iff (by decide) (Nat.lt_succ_self 0)).1 rfl
  obtain ⟨houtcome, hidles⟩ := hrefused _ hfull e' hrun' _ _ hasks hconcerns
  refine ⟨e, e', _, _, he, hrun, hle, hfull, .recompile ⟨1⟩ 0 .counter, hverdict,
    hinstall _ _ _ _ (.recompile ⟨1⟩ 0 .counter) hverdict rfl, he', hrun', ?_, hasks,
    hconcerns, houtcome, hidles⟩
  rw [he', he]
  decide +kernel

end Engine

end Warmup
