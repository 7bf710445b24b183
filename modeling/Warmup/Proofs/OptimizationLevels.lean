import Warmup.Proofs.VersionLimit

/-!
# Optimization levels

The levels of the versions of a key (`CodeTable.levelsOf`) in a run in which nothing but requests
leads to compilations. If the highest level is not 0, they go from 1 up to it and never descend
(`CodeTable.Graded`), also where all versions were invalid when the next one was compiled. If it is
0, the first version of a key has level 1 nevertheless, and the next one has level 0 if that is
still current. The next level is computed in a byte, which is too small exactly if the highest level
is 255 and code of that level asks for it again by a trap (`Engine.nextLevel_fault_iff`).
-/

namespace Warmup

namespace CodeTable

variable {t t' : CodeTable} {n : NativeMethod} {i : NativeId} {k : LookupKey} {highest : Nat}

/-- The levels of the versions of a key, in the order of their places. -/
def levelsOf (t : CodeTable) (k : LookupKey) : List Nat :=
  (t.methods.filter (·.key = k)).map (·.level)

/-- The levels of a key depend on the keys and levels of the versions only. -/
theorem levelsOf_eq (t : CodeTable) (k : LookupKey) :
    t.levelsOf k = ((t.methods.map fun n => (n.key, n.level)).filter (·.1 = k)).map (·.2) := by
  rw [levelsOf, List.filter_map, List.map_map]
  rfl

/-- The level of a version is among the levels of its key. -/
theorem mem_levelsOf (h : t.get? i = some n) : n.level ∈ t.levelsOf n.key :=
  List.mem_map_of_mem (List.mem_filter.2 ⟨List.mem_of_getElem? h, decide_eq_true rfl⟩)

theorem Rests.levelsOf (h : t.Rests t') (k : LookupKey) : t'.levelsOf k = t.levelsOf k := by
  rw [levelsOf_eq, h.map_eq fun n n' hbecame => by rw [hbecame.same], ← levelsOf_eq]

/-- An installed version adds its level at the end of the levels of its key. -/
theorem levelsOf_install (h : t.install n = .ok (t', i)) (k : LookupKey) :
    t'.levelsOf k = if n.key = k then t.levelsOf k ++ [n.level] else t.levelsOf k := by
  rw [levelsOf_eq, map_install (fun _ _ => rfl) h, List.filter_append,
    List.map_append, ← levelsOf_eq]
  by_cases hk : n.key = k
  · simp [hk]
  · simp [hk]

/-- The versions of a key ascend to a highest level, and a live one is on top. -/
structure Graded (t : CodeTable) (highest : Nat) : Prop where
  range : ∀ k, ∀ l ∈ t.levelsOf k, 1 ≤ l ∧ l ≤ highest
  ascending : ∀ k, (t.levelsOf k).Pairwise (· ≤ ·)
  top : ∀ i n, t.get? i = some n → n.state = .live → ∀ l ∈ t.levelsOf n.key, l ≤ n.level

theorem Graded.empty (highest : Nat) : Graded {} highest where
  range k l hl := by simp [CodeTable.levelsOf] at hl
  ascending k := List.Pairwise.nil
  top i n hn := by simp [get?] at hn

theorem Graded.rests (ht : t.Graded highest) (h : t.Rests t') : t'.Graded highest where
  range k := h.levelsOf k ▸ ht.range k
  ascending k := h.levelsOf k ▸ ht.ascending k
  top i n' hn' hlive := by
    obtain ⟨n, hn, hlive'⟩ := h.live i n' hn' hlive
    obtain ⟨n₁, hn₁, hbecame⟩ := h.kept i n hn
    obtain rfl : n₁ = n' := Option.some.inj (hn₁.symm.trans hn')
    rw [h.levelsOf, hbecame.same]
    exact ht.top i n hn hlive'

/-- A version may be added that is on top of the others of its key. -/
theorem Graded.install (ht : t.Graded highest) (hw : t.WellFormed) (h : t.install n = .ok (t', i))
    (hrange : 1 ≤ n.level ∧ n.level ≤ highest) (htop : ∀ l ∈ t.levelsOf n.key, l ≤ n.level) :
    t'.Graded highest where
  range k := by
    rw [levelsOf_install h]
    split
    · simpa [or_imp, forall_and, hrange] using ht.range k
    · exact ht.range k
  ascending k := by
    rw [levelsOf_install h]
    split
    · next hk =>
      exact List.pairwise_append.2
        ⟨ht.ascending k, List.pairwise_singleton .., by simpa [hk] using htop⟩
    · exact ht.ascending k
  top j e he hlive := by
    rw [levelsOf_install h]
    by_cases hj : j = i
    · subst hj
      obtain ⟨version, hself⟩ := get?_install_self h
      obtain rfl := Option.some.inj (hself.symm.trans he)
      rw [if_pos rfl]
      simpa [or_imp, forall_and] using htop
    · -- Code that is still live has another key, for the new code is current for its own.
      have hcurrent := ((hw.install h).current_iff e.key j).2 ⟨e, he, rfl, hlive⟩
      rw [current?_install h] at hcurrent
      split at hcurrent
      · exact absurd (Option.some.inj hcurrent).symm hj
      · next hkey =>
        rw [if_neg (Ne.symm hkey)]
        rw [get?_install h hj] at he
        obtain ⟨e₀, he₀, rfl⟩ := Option.map_eq_some_iff.1 he
        split at hlive
        · cases hlive
        · next hold =>
          rw [if_neg hold]
          exact ht.top j e₀ he₀ hlive

/-- The current version of a key is its live version. -/
theorem WellFormed.currentMethod?_eq_some_iff (hw : t.WellFormed) :
    t.currentMethod? k = some n ↔ ∃ i, t.get? i = some n ∧ n.key = k ∧ n.state = .live := by
  rw [currentMethod?, Option.bind_eq_some_iff]
  constructor
  · rintro ⟨i, hi, hn⟩
    obtain ⟨n', hn', hkey, hlive⟩ := (hw.current_iff k i).1 hi
    obtain rfl := Option.some.inj (hn.symm.trans hn')
    exact ⟨i, hn, hkey, hlive⟩
  · rintro ⟨i, hn, hkey, hlive⟩
    exact ⟨i, (hw.current_iff k i).2 ⟨n, hn, hkey, hlive⟩, hn⟩

end CodeTable

/-! ## The next level -/

namespace Compiler

variable {c : Compiler} {k : LookupKey} {trigger : Trigger} {level : Nat} {n : NativeMethod}
  {f : Fault}

/-- The next level, where the key has a current version. -/
theorem nextLevel_of_current (hfew : c.code.versionCount k < c.settings.recompile.maxVersions.toNat)
    (hn : c.code.currentMethod? k = some n) : c.nextLevel k trigger =
      if trigger = .counter ∧ c.settings.recompile.maxLevel.toNat ≤ n.level then
        .ok (.error (.maxLevel n.level))
      else if n.invocations < c.settings.recompile.minInvocations.toNat then
        .ok (.error (.tooYoung n.invocations))
      else (Word.fit 8 (n.level + 1)).map fun level => .ok
        (min level c.settings.recompile.maxLevel.toNat) := by
  rw [nextLevel]
  simp only [Nat.not_le_of_lt hfew, hn]
  rfl

/-- The next level, where no version is current: the highest that there was. -/
theorem nextLevel_of_retired (hfew : c.code.versionCount k < c.settings.recompile.maxVersions.toNat)
    (hn : c.code.currentMethod? k = none) : c.nextLevel k trigger =
      .ok (.ok (min (max ((c.code.levelsOf k).max?.getD 1) 1)
        (max c.settings.recompile.maxLevel.toNat 1))) := by
  rw [nextLevel]
  simp only [Nat.not_le_of_lt hfew, hn]
  rfl

/-- A level that passes the gate is one above that of current code, or the highest one of all code
    of the key if none is current, within the limit. -/
theorem level_cases (h : c.nextLevel k trigger = .ok (.ok level)) :
    (∃ n, c.code.currentMethod? k = some n ∧
      level = min (n.level + 1) c.settings.recompile.maxLevel.toNat) ∨
      c.code.currentMethod? k = none ∧
        level = min (max ((c.code.levelsOf k).max?.getD 1) 1)
          (max c.settings.recompile.maxLevel.toNat 1) := by
  have hfew := versionCount_lt_of_nextLevel h
  -- The two cases of the current version.
  rcases hn : c.code.currentMethod? k with _ | n
  · rw [nextLevel_of_retired hfew hn] at h
    exact .inr ⟨rfl, (Except.ok.inj (Except.ok.inj h)).symm⟩
  · rw [nextLevel_of_current hfew hn] at h
    split at h
    · cases h
    · split at h
      · cases h
      · obtain ⟨next, hnext, hlevel⟩ := exists_ok_of_map h
        obtain ⟨rfl, -⟩ := Word.fit_eq_ok_iff.1 hnext
        exact .inl ⟨n, rfl, (Except.ok.inj hlevel).symm⟩

/-- No level is above the highest, apart from the first. -/
theorem level_le (h : c.nextLevel k trigger = .ok (.ok level)) :
    level ≤ max 1 c.settings.recompile.maxLevel.toNat := by
  rcases level_cases h with ⟨n, -, rfl⟩ | ⟨-, rfl⟩
  · omega
  · omega

/-- Where levels ascend, the next one is on top of the others. -/
theorem level_top (hw : c.code.WellFormed) (hpos : 0 < c.settings.recompile.maxLevel.toNat)
    (hg : c.code.Graded c.settings.recompile.maxLevel.toNat)
    (h : c.nextLevel k trigger = .ok (.ok level)) :
    (1 ≤ level ∧ level ≤ c.settings.recompile.maxLevel.toNat) ∧ ∀ l ∈ c.code.levelsOf k,
      l ≤ level := by
  rcases level_cases h with ⟨n, hn, rfl⟩ | ⟨hn, rfl⟩
  · -- The live version has the highest level so far.
    obtain ⟨i, hi, rfl, hlive⟩ := hw.currentMethod?_eq_some_iff.1 hn
    refine ⟨by omega, fun l hl => ?_⟩
    have hle := hg.top i n hi hlive l hl
    have hrange := hg.range _ l hl
    omega
  · refine ⟨by omega, fun l hl => ?_⟩
    have hmax : l ≤ (c.code.levelsOf k).max?.getD 1 := by
      obtain ⟨m, hm⟩ := Option.isSome_iff_exists.1 (List.isSome_max?_of_mem hl)
      rw [hm]
      exact (List.max?_eq_some_iff.1 hm).2 l hl
    have hrange := hg.range k l hl
    omega

/-- The level above that of current code may not fit a byte. -/
theorem nextLevel_eq_error_iff : c.nextLevel k trigger = .error f ↔
    f = .overflow ∧ c.code.versionCount k < c.settings.recompile.maxVersions.toNat ∧
      ∃ n, c.code.currentMethod? k = some n ∧
        (trigger = .counter → n.level < c.settings.recompile.maxLevel.toNat) ∧
        c.settings.recompile.minInvocations.toNat ≤ n.invocations ∧ 255 ≤ n.level := by
  rcases Nat.lt_or_ge (c.code.versionCount k) c.settings.recompile.maxVersions.toNat
    with hfew | hfull
  · rcases hn : c.code.currentMethod? k with _ | n
    · simp [nextLevel_of_retired hfew hn]
    · rw [nextLevel_of_current hfew hn]
      -- The refusals come before the sum that may not fit.
      by_cases htop : trigger = .counter ∧ c.settings.recompile.maxLevel.toNat ≤ n.level
      · simp [htop]
      · have hbelow : trigger = .counter → n.level < c.settings.recompile.maxLevel.toNat :=
          fun htrigger => Nat.lt_of_not_le fun hle => htop ⟨htrigger, hle⟩
        rw [if_neg htop]
        by_cases hyoung : n.invocations < c.settings.recompile.minInvocations.toNat
        · simp [hyoung]
        · have hfit : 255 ≤ n.level ↔ ¬n.level + 1 < Word.size 8 := by
            rw [show Word.size 8 = 256 from rfl]
            omega
          rw [if_neg hyoung]
          by_cases hbyte : n.level + 1 < Word.size 8
          · simp [Word.fit, hfit, hbyte, Except.map]
          · simpa [Word.fit, hfit, hbyte, Except.map, Nat.le_of_not_lt hyoung, hfew, eq_comm]
              using fun _ => hbelow
  · rw [nextLevel_of_full hfull]
    simp [Nat.not_lt_of_le hfull]

end Compiler

/-! ## Steps and runs -/

namespace Engine

variable {e e' : Engine} {s : Settings} {t : ClassTable} {k : LookupKey} {level : Nat}
  {trigger : Trigger} {f : Fault}

/-- No level is above the highest one, or above 1 if that is 0. -/
def LevelsWithin (s : Settings) (e : Engine) : Prop :=
  e.settings = s ∧ ∀ k, ∀ l ∈ e.code.levelsOf k, l ≤ max 1 s.recompile.maxLevel.toNat

/-- Levels ascend to the highest one. -/
def LevelsAscend (s : Settings) (e : Engine) : Prop :=
  e.settings = s ∧ e.code.Graded s.recompile.maxLevel.toNat

theorem Idles.levelsWithin (h : e.Idles e') (he : e.LevelsWithin s) : e'.LevelsWithin s :=
  ⟨h.settings.trans he.1, fun k => h.code.levelsOf k ▸ he.2 k⟩

theorem Idles.levelsAscend (h : e.Idles e') (he : e.LevelsAscend s) : e'.LevelsAscend s :=
  ⟨h.settings.trans he.1, he.2.rests h.code⟩

/-- A step that installs a version keeps the levels within the highest, by `Compiler.level_le`. -/
theorem Progresses.levelsWithin (h : e.Progresses e') (he : e.LevelsWithin s) :
    e'.LevelsWithin s := by
  cases h with
  | idle hidle => exact hidle.levelsWithin he
  | install hidle hlevel hinstalls =>
    obtain ⟨rfl, hwithin⟩ := hidle.levelsWithin he
    obtain ⟨comp, i, hprepare, hinstall⟩ := hinstalls.installed
    refine ⟨hinstalls.settings, fun k l hl => ?_⟩
    rw [CodeTable.levelsOf_install hinstall, (prepare_ok hprepare).2] at hl
    split at hl
    · rcases List.mem_append.1 hl with hl | hl
      · exact hwithin k l hl
      · rw [List.mem_singleton.1 hl]
        exact Compiler.level_le hlevel
    · exact hwithin k l hl

/-- A step that installs a version keeps the levels ascending, by `Compiler.level_top`. -/
theorem Progresses.levelsAscend (hpos : 0 < s.recompile.maxLevel.toNat) (h : e.Progresses e')
    (hw : e.code.WellFormed) (he : e.LevelsAscend s) : e'.LevelsAscend s := by
  cases h with
  | idle hidle => exact hidle.levelsAscend he
  | @install e₁ k level trigger hidle hlevel hinstalls =>
    obtain ⟨rfl, hgraded⟩ := hidle.levelsAscend he
    obtain ⟨comp, i, hprepare, hinstall⟩ := hinstalls.installed
    obtain ⟨rfl, rfl⟩ := prepare_ok hprepare
    have hw₁ : e₁.code.WellFormed := hidle.code.wellFormed hw
    obtain ⟨hrange, htop⟩ := Compiler.level_top hw₁ hpos hgraded hlevel
    exact ⟨hinstalls.settings, hgraded.install hw₁ hinstall hrange htop⟩

theorem levels_within (h : (startWith s t).AdaptsTo e) : e.LevelsWithin s :=
  h.induction (fun _ _ _ hprogresses he => hprogresses.levelsWithin he) (.start t)
    ⟨rfl, fun k l hl => by simp [CodeTable.levelsOf, startWith, start] at hl⟩

theorem levels_ascend (h : (startWith s t).AdaptsTo e) (hpos : 0 < s.recompile.maxLevel.toNat) :
    e.LevelsAscend s :=
  h.induction (fun _ _ hw hprogresses he => hprogresses.levelsAscend hpos hw he)
    (.start t) ⟨rfl, .empty _⟩

/-! ## Requests -/

/-- The next level does not fit a byte exactly if current code of level 255 asks for it by a trap,
    which is not kept from it by the number of its versions or of its invocations. -/
theorem nextLevel_fault_iff (he : e.LevelsWithin s) : e.compiler.nextLevel k trigger = .error f ↔
    f = .overflow ∧ s.recompile.maxLevel = 255 ∧ trigger = .trap ∧
      e.code.versionCount k < s.recompile.maxVersions.toNat ∧ ∃ n,
        e.code.currentMethod? k = some n ∧ n.level = 255 ∧
        s.recompile.minInvocations.toNat ≤ n.invocations := by
  obtain ⟨rfl, hwithin⟩ := he
  have hbyte := e.settings.recompile.maxLevel.toNat_lt
  rw [Compiler.nextLevel_eq_error_iff]
  constructor
  · rintro ⟨rfl, hfew, n, hn, hbelow, hold, htop⟩
    have hle : n.level ≤ max 1 e.settings.recompile.maxLevel.toNat := by
      obtain ⟨i, -, hi⟩ := Option.bind_eq_some_iff.1 hn
      exact hwithin n.key n.level (CodeTable.mem_levelsOf hi)
    -- A level of 255 within the highest leaves only 255 for the highest.
    have hmax : e.settings.recompile.maxLevel.toNat = 255 := by omega
    refine ⟨rfl, UInt8.toNat_inj.1 hmax, ?_, hfew, n, hn, by omega, hold⟩
    cases trigger with
    | counter =>
      exact absurd (hbelow rfl) (by change ¬n.level < e.settings.recompile.maxLevel.toNat; omega)
    | trap => rfl
  · rintro ⟨rfl, hmax, rfl, hfew, n, hn, htop, hold⟩
    exact ⟨rfl, hfew, n, hn, fun h => (nomatch h), hold, Nat.le_of_eq htop.symm⟩

/-- With a highest level of 0, the next level is 0 if there is current code, and otherwise 1. -/
theorem level_of_zero {r : Request} {choice : Choice} (hw : r.engine.code.WellFormed)
    (hzero : r.engine.settings.recompile.maxLevel.toNat = 0)
    (h : r.verdict = .ok (.recompile choice)) :
    choice.level = if choice.current.isSome then 0 else 1 := by
  obtain ⟨hcurrent, hlevel⟩ := Request.chosen_of_verdict h
  -- With a current version the minimum is taken with 0, and without one with 1.
  rcases Compiler.level_cases hlevel with ⟨n, hn, hlevel⟩ | ⟨hn, hlevel⟩
  · obtain ⟨i, hi, -⟩ := Option.bind_eq_some_iff.1 hn
    rw [hlevel, hcurrent, show r.engine.code.current? choice.key = some i from hi]
    change min _ r.engine.settings.recompile.maxLevel.toNat = 0
    omega
  · have hnone : choice.current = none := by
      rcases hi : choice.current with _ | i
      · rfl
      · obtain ⟨n, hget, -⟩ := (hw.current_iff choice.key i).1 (hcurrent ▸ hi)
        have hsome : r.engine.code.currentMethod? choice.key = some n :=
          Option.bind_eq_some_iff.2 ⟨i, hcurrent ▸ hi, hget⟩
        cases hn.symm.trans hsome
    rw [hlevel, hnone]
    change min _ (max r.engine.settings.recompile.maxLevel.toNat 1) = 1
    omega

/-- Where nothing but requests leads to compilations, no level is above the highest one, or above 1
    if that is 0. If it is not 0, all levels are at least 1, and those of the versions of a key
    never descend. Code that is to be compiled has such a level exactly if the highest level is not
    0 or the key has no current code. A level is computed without an overflow, unless the highest
    level is 255 and current code of that level asks for the next one by a trap. -/
theorem levels_regular (h : (startWith s t).AdaptsTo e) :
    (∀ n ∈ e.code.methods, n.level ≤ max 1 s.recompile.maxLevel.toNat) ∧
    (0 < s.recompile.maxLevel.toNat →
      (∀ n ∈ e.code.methods, 1 ≤ n.level) ∧ ∀ k, (e.code.levelsOf k).Pairwise (· ≤ ·)) ∧
    ∀ ev r, e.Asks ev r →
      (∀ choice, r.verdict = .ok (.recompile choice) →
        ((1 ≤ choice.level ∧ ∀ l ∈ e.code.levelsOf choice.key, l ≤ choice.level) ↔
          0 < s.recompile.maxLevel.toNat ∨ choice.current = none)) ∧
      ∀ k f, r.engine.compiler.nextLevel k r.trigger = .error f ↔
        f = .overflow ∧ s.recompile.maxLevel = 255 ∧ r.trigger = .trap ∧
          r.engine.code.versionCount k < s.recompile.maxVersions.toNat ∧
          ∃ n, r.engine.code.currentMethod? k = some n ∧ n.level = 255 ∧
            s.recompile.minInvocations.toNat ≤ n.invocations := by
  have hw : e.code.WellFormed := (AdaptsTo.attained h (.start t)).balanced.code
  have hlevel {n : NativeMethod} (hn : n ∈ e.code.methods) : n.level ∈ e.code.levelsOf n.key := by
    obtain ⟨i, hi⟩ := List.mem_iff_getElem?.1 hn
    exact CodeTable.mem_levelsOf (i := ⟨i⟩) hi
  refine ⟨fun n hn => (levels_within h).2 n.key n.level (hlevel hn), fun hpos => ?_,
    fun ev r hasks => ⟨?_, ?_⟩⟩
  · have hgraded := (levels_ascend h hpos).2
    exact ⟨fun n hn => (hgraded.range n.key n.level (hlevel hn)).1, hgraded.ascending⟩
  · intro choice hverdict
    have hidle := hasks.idles hw
    rw [← hidle.code.levelsOf]
    -- Only a highest level of 0 lets a level descend.
    rcases Nat.eq_zero_or_pos s.recompile.maxLevel.toNat with hzero | hpos
    · obtain ⟨rfl, hwithin⟩ := hidle.levelsWithin (levels_within h)
      rw [level_of_zero (hidle.code.wellFormed hw) hzero hverdict]
      rcases choice.current with _ | i
      · simpa [hzero] using hwithin choice.key
      · simp [hzero]
    · obtain ⟨rfl, hgraded⟩ := hidle.levelsAscend (levels_ascend h hpos)
      obtain ⟨⟨hone, -⟩, htop⟩ :=
        Compiler.level_top (hidle.code.wellFormed hw) hpos hgraded
          (Request.chosen_of_verdict hverdict).2
      exact iff_of_true ⟨hone, htop⟩ (.inl hpos)
  · exact fun k f => nextLevel_fault_iff ((hasks.idles hw).levelsWithin (levels_within h))

/-- A method is compiled a number of times, always by a trap. -/
def trappedOften (n : Nat) : List Event := [
  .replace ⟨0⟩ { selector := ⟨0⟩, steps := [.work 1] },
  .setProcesses { callStacks := [[{ key := .send ⟨0⟩ ⟨0⟩, method := ⟨0⟩ }]] }] ++
    List.replicate n (.recompile ⟨0⟩ 0 .trap)

/-- Code may be compiled again at once, up to a level. -/
def upToLevel (highest : UInt8) : Settings :=
  { recompile := { maxVersions := 300, maxLevel := highest, minInvocations := 0 } }

/-- If the highest level is 0, the second version has a lower level than the first one. If it is
    255, the level of the 256th version cannot be computed. -/
theorem levels_irregular :
    (upToLevel 0).fault? = none ∧ (upToLevel 255).fault? = none ∧
    ((startWith (upToLevel 0) .initial).run (trappedOften 2)).code.levelsOf
      (.send ⟨0⟩ ⟨0⟩) = [1, 0] ∧
    Request.verdict ⟨(startWith (upToLevel 255) .initial).run (trappedOften 255), ⟨0⟩, 0, .trap⟩ =
      .error .overflow := by
  decide +kernel

/-- After two versions the method is replaced, and compiled again at the level it had. -/
theorem levels_regular_replaced : ∃ e choice,
    e = (startWith (upToLevel 2) .initial).run (trappedOften 2 ++
      [.replace ⟨0⟩ { selector := ⟨0⟩, steps := [.work 2] }, .recompile ⟨0⟩ 0 .counter]) ∧
    (startWith (upToLevel 2) .initial).AdaptsTo e ∧ e.code.levelsOf (.send ⟨0⟩ ⟨0⟩) = [1, 2, 2] ∧
    e.code.methods.map (·.state) = [.invalid, .invalid, .live] ∧
    (∀ n ∈ e.code.methods, 1 ≤ n.level ∧ n.level ≤ 2) ∧
      (∀ k, (e.code.levelsOf k).Pairwise (· ≤ ·)) ∧
    e.Asks (.recompile ⟨0⟩ 0 .trap) ⟨e, ⟨0⟩, 0, .trap⟩ ∧
    Request.verdict ⟨e, ⟨0⟩, 0, .trap⟩ = .ok (.recompile choice) ∧
    (1 ≤ choice.level ∧ ∀ l ∈ e.code.levelsOf choice.key, l ≤ choice.level) ∧
    ∀ k f, e.compiler.nextLevel k .trap ≠ .error f := by
  obtain ⟨e, he⟩ : ∃ e, e = (startWith (upToLevel 2) .initial).run (trappedOften 2 ++
    [.replace ⟨0⟩ { selector := ⟨0⟩, steps := [.work 2] }, .recompile ⟨0⟩ 0 .counter]) := ⟨_, rfl⟩
  have hrun : (startWith (upToLevel 2) .initial).AdaptsTo e := he ▸ adaptsTo_run _ (by decide)
  have hpos : 0 < (upToLevel 2).recompile.maxLevel.toNat := by decide
  have hasks := Asks.recompile (e := e) ⟨0⟩ 0 .trap
  have hverdict : Request.verdict ⟨e, ⟨0⟩, 0, .trap⟩ =
      .ok (.recompile ⟨0, .send ⟨0⟩ ⟨0⟩, ⟨0⟩, some ⟨2⟩, 2⟩) := by
    rw [he]
    decide +kernel
  obtain ⟨hle, hascend, hrequests⟩ := levels_regular hrun
  obtain ⟨hone, hpairwise⟩ := hascend hpos
  obtain ⟨hchoice, hfault⟩ := hrequests _ _ hasks
  refine ⟨e, _, he, hrun, ?_, ?_, fun n hn => ⟨hone n hn, hle n hn⟩, hpairwise, hasks, hverdict,
    (hchoice _ hverdict).2 (.inl hpos), fun k f hf => ?_⟩
  · rw [he]
    decide +kernel
  · rw [he]
    decide +kernel
  · obtain ⟨-, hmax, -⟩ := (hfault k f).1 hf
    exact absurd hmax (by decide)

end Engine

end Warmup
