import Warmup.Proofs.Backoff
import Warmup.Proofs.OptimizationLevels

/-!
# Counts of invocations

Code counts its invocations twice (`NativeMethod.clock`): one count stops at the largest word, the
other one starts again whenever it reaches the limit. Only invocations change them
(`Engine.Unclocked`), so the second one is never ahead of the first one (`Engine.Timed`). The limit
is at least the number of invocations that code must have for its next compilation. So code that has
asked for it has run often enough (`Engine.not_tooYoung`).
-/

namespace Warmup

/-- What code has counted: all its invocations, and those since the limit was reached. -/
def NativeMethod.clock (n : NativeMethod) : Nat × Nat := (n.invocations, n.overflowCount)

/-- What all code has counted. -/
def CodeTable.clocks (t : CodeTable) : List (Nat × Nat) := t.methods.map NativeMethod.clock

theorem CodeTable.clock_mem_clocks {t : CodeTable} {i : NativeId} {n : NativeMethod}
    (h : t.get? i = some n) :
    n.clock ∈ t.clocks :=
  List.mem_map_of_mem (List.mem_of_getElem? h)

theorem CodeTable.exists_of_mem_clocks {t : CodeTable} {c : Nat × Nat} (h : c ∈ t.clocks) :
    ∃ i n, t.get? i = some n ∧ n.clock = c := by
  obtain ⟨n, hn, rfl⟩ := List.mem_map.1 h
  obtain ⟨i, hi⟩ := List.mem_iff_getElem?.1 hn
  exact ⟨⟨i⟩, n, hi, rfl⟩

/-- The second count is not ahead of the first one, and the next invocation can be counted. -/
structure IsRegular (c : Nat × Nat) : Prop where
  le : c.2 ≤ c.1
  lt : c.2 + 1 < Word.size 32
  fits : c.1 < Word.size 32

theorem IsRegular.zero : IsRegular (0, 0) := ⟨Nat.le_refl 0, by decide, by decide⟩

/-- One more invocation is counted. -/
theorem IsRegular.tick {c : Nat × Nat} (h : IsRegular c) {limit : Nat}
    (hlimit : limit < Word.size 32) :
    IsRegular (Word.saturate 32 (c.1 + 1), (Engine.tick c.2 limit).1) := by
  obtain ⟨hle, hlt, hfits⟩ := h
  rw [Word.saturate, Engine.tick]
  by_cases hfull : limit ≤ c.2 + 1
  · rw [if_pos hfull]
    exact ⟨Nat.zero_le _, Nat.lt_of_le_of_lt (Nat.le_add_left 1 c.2) hlt, by simp only; omega⟩
  · rw [if_neg hfull]
    exact ⟨by simp only; omega, by simp only; omega, by simp only; omega⟩

/-- Settings are valid only if counters do not reach their limit before code is old enough. -/
theorem Settings.minInvocations_le_of_valid {s : Settings} (h : s.validate = .ok s) :
    s.recompile.minInvocations.toNat ≤ s.recompile.invocationLimit.toNat := by
  refine Nat.le_of_not_lt fun hlt => ?_
  have hfault : s.recompile.invocationLimit < s.recompile.minInvocations :=
    UInt32.lt_iff_toNat_lt.2 hlt
  obtain ⟨cause, hcause⟩ : ∃ cause, s.fault? = some cause := by
    simp only [fault?, hfault, if_true]
    split_ifs <;> exact ⟨_, rfl⟩
  rw [validate, hcause] at h
  cases h

namespace Compiler

variable {c : Compiler} {k : LookupKey} {trigger : Trigger} {m : Nat}

/-- Code that is too young is current, and has too few invocations. -/
theorem young_of_nextLevel (h : c.nextLevel k trigger = .ok (.error (.tooYoung m))) :
    ∃ n, c.code.currentMethod? k = some n ∧
      n.invocations < c.settings.recompile.minInvocations.toNat := by
  rcases Nat.lt_or_ge (c.code.versionCount k) c.settings.recompile.maxVersions.toNat
    with hfew | hfull
  · -- Only the current version of a key can be too young.
    rcases hn : c.code.currentMethod? k with _ | n
    · rw [nextLevel_of_retired hfew hn] at h
      cases h
    · rw [nextLevel_of_current hfew hn] at h
      split at h
      · cases h
      · split at h
        · next hyoung => exact ⟨n, rfl, hyoung⟩
        · obtain ⟨level, -, hlevel⟩ := exists_ok_of_map h
          cases hlevel
  · rw [nextLevel_of_full hfull] at h
    cases h

end Compiler

/-- What is refused is refused for the key that the request concerns. -/
theorem Request.refused_of_verdict {r : Request} {k : LookupKey} {why : Refusal} (hk : r.Concerns k)
    (h : r.verdict = .ok (.declined why)) :
    r.engine.compiler.nextLevel k r.trigger = .ok (.error why) := by
  obtain ⟨stack, j, a, hstack, hselects, ha, rfl⟩ := hk
  rcases (Compiler.candidate_eq_ok_iff hstack).1 h with ⟨home, -, hv⟩
    | ⟨i, b, level, hselects', hb, hlevel, hv⟩
  · cases hv
  · obtain rfl := hselects.unique hselects'
    obtain rfl := Option.some.inj (ha.symm.trans hb)
    rcases level with why' | level
    · obtain rfl := Verdict.declined.inj hv
      exact hlevel
    · cases hv

namespace Engine

variable {s : Settings} {e e' e'' : Engine} {a : Activation} {k : LookupKey} {limit : Nat}

/-! ## What counts no invocation -/

/-- No invocation is counted, and new code has counted none. -/
def Unclocked (e e' : Engine) : Prop :=
  ∃ new, e'.code.clocks = e.code.clocks ++ List.replicate new (0, 0)

/-- What leaves all counts alone does not count. -/
theorem Unclocked.of_clocks (h : e'.code.clocks = e.code.clocks) : e.Unclocked e' :=
  ⟨0, by rw [h, List.replicate_zero, List.append_nil]⟩

theorem Unclocked.of_code (h : e'.code = e.code) : e.Unclocked e' := .of_clocks (by rw [h])

/-- Two changes that do not count do not count together. -/
theorem Unclocked.trans (h : e.Unclocked e') (h' : e'.Unclocked e'') : e.Unclocked e'' := by
  obtain ⟨new, h⟩ := h
  obtain ⟨new', h'⟩ := h'
  exact ⟨new + new', by rw [h', h, List.append_assoc, List.replicate_append_replicate]⟩

theorem Unclocked.orElse {α : Type} {x : Except Fault (Engine × α)}
    (h : ∀ e' a, x = .ok (e', a) → e.Unclocked e') :
    e.Unclocked (e.orElse x) := by
  rcases x with f | ⟨e', a⟩
  · exact .of_code rfl
  · exact h e' a rfl

/-- New code starts to count from zero. -/
theorem clock_prepare {level : Nat} {comp : Compilation} (h : e.prepare k level = .ok comp) :
    comp.native.clock = (0, 0) := by
  rw [prepare] at h
  obtain ⟨m, -, hcompile⟩ := exists_ok_of_bind h
  obtain ⟨-, hemit⟩ := Compiler.compile_ok hcompile
  obtain ⟨size, hnative⟩ := SendGraph.exists_code_of_emit hemit
  rw [hnative]
  rfl

/-- An installation adds code that starts to count, and changes no other count. -/
theorem unclocked_compileAt {level : Nat} {i : NativeId} (h : e.compileAt k level = .ok (e', i)) :
    e.Unclocked e' := by
  obtain ⟨comp, j, hprepare, hinstall⟩ := (installs_compileAt h).installed
  refine ⟨1, ?_⟩
  rw [CodeTable.clocks, CodeTable.map_install (fun _ _ => rfl) hinstall, CodeTable.clocks]
  exact congrArg (_ ++ [·]) (clock_prepare hprepare)

theorem unclocked_compile {i : NativeId} (h : e.compile k = .ok (e', i)) : e.Unclocked e' := by
  rw [compile] at h
  split at h
  · exact unclocked_compileAt h
  · obtain ⟨level, -, h⟩ := exists_ok_of_bind h
    exact unclocked_compileAt h

theorem unclocked_recompile {p : ProcessId} {i : Nat} {trigger : Trigger} {r : Recompiled}
    (h : e.recompile p i trigger = .ok (e', r)) : e.Unclocked e' := by
  rw [recompile] at h
  obtain ⟨verdict, -, h⟩ := exists_ok_of_bind h
  cases verdict with
  | recompile choice =>
    obtain ⟨⟨e₁, n⟩, hcompile, h⟩ := exists_ok_of_bind h
    obtain ⟨rfl, -⟩ := Prod.mk.inj (Except.ok.inj h)
    exact (unclocked_compileAt hcompile).trans (.of_code rfl)
  | deferred home =>
    obtain ⟨rfl, -⟩ := Prod.mk.inj (Except.ok.inj h)
    exact .of_code rfl
  | declined why =>
    obtain ⟨rfl, -⟩ := Prod.mk.inj (Except.ok.inj h)
    exact .of_code rfl

theorem code_link {m : MethodId} (h : e.link m = .ok e') : e'.code = e.code := by
  rw [link] at h
  obtain ⟨method, -, h⟩ := exists_ok_of_bind h
  obtain rfl := Except.ok.inj h
  rfl

/-- A trap does not count as an invocation. -/
theorem clocks_mark {n : NativeMethod} (hn : e.code.get? n.id = some n) (trap : Nat) :
    (e.mark n trap).1.code.clocks = e.code.clocks := by
  have hpatch :
      (e.code.modify n.id fun _ => n.patch trap (n.trapCount + 1)).clocks = e.code.clocks := by
    refine map_modify_eq fun m hm => ?_
    obtain rfl := Option.some.inj (hn.symm.trans hm)
    rfl
  rw [mark, retire]
  split
  · exact (CodeTable.map_invalidate (fun _ _ => rfl) _ _).trans hpatch
  · exact hpatch

/-- Neither a trap nor the request that may follow it counts. -/
theorem unclocked_uncommonTrap (hw : e.code.WellFormed) (p : ProcessId) (i trap : Nat) :
    e.Unclocked (e.uncommonTrap p i trap).state := by
  have hfire : e.Unclocked (e.fire p i trap).state := by
    rcases e.fire_cases p i trap with ⟨f, hfire⟩ | ⟨n, site, hfiring, hfit⟩
    · rw [hfire]
      exact .of_code rfl
    · rw [fire_eq hfiring hfit]
      exact .of_clocks (clocks_mark (get?_of_firing hw.id_eq hfiring) trap)
  have hcounted (tally : Tally) : e.Unclocked { (e.fire p i trap).state with tally := tally } :=
    hfire.trans (.of_code rfl)
  rw [uncommonTrap, Outcome.andThen]
  split
  · next fired hfired =>
    split
    · exact hcounted _
    · simp only
      split
      · exact hcounted _
      · next hrecompile => exact (hcounted _).trans (unclocked_recompile hrecompile)
  · exact hfire

theorem unclocked_replaceMethod {c : ClassId} {d : Draft} {m : MethodId}
    (h : e.replaceMethod c d = .ok (e', m)) :
    e.Unclocked e' := by
  rw [replaceMethod] at h
  obtain ⟨⟨classes, new⟩, -, h⟩ := exists_ok_of_bind h
  obtain ⟨rfl, -⟩ := Prod.mk.inj (Except.ok.inj h)
  have hdefine : e.Unclocked { e with classes := classes, memo := e.memo.flush } := .of_code rfl
  have hcleanup (e : Engine) : e.Unclocked e.cleanup.2 :=
    .of_clocks (map_cleanup (fun _ _ => rfl) e)
  rcases e.classes.lookup c d.selector with _ | old
  · exact hdefine.trans (hcleanup _)
  · have hretract (e : Engine) : e.Unclocked (e.retract old) :=
      .of_clocks (map_retract (fun _ _ => rfl) e old)
    exact hdefine.trans ((hretract _).trans (hcleanup _))

/-- No event counts but an invocation. -/
theorem unclocked_step (hw : e.code.WellFormed) {ev : Event} (hev : ∀ p i, ev ≠ .invoke p i) :
    e.Unclocked (e.step ev) := by
  cases ev with
  | link m =>
    refine .orElse fun e' a hlink => ?_
    obtain ⟨e₁, hm, heq⟩ := exists_ok_of_map hlink
    obtain ⟨rfl, -⟩ := Prod.mk.inj heq
    exact .of_code (code_link hm)
  | send p r => exact .of_clocks (map_send (fun _ _ => rfl) e p r)
  | compile k => exact .orElse fun e' i => unclocked_compile
  | invoke p i => exact absurd rfl (hev p i)
  | recompile p i trigger => exact .orElse fun e' r => unclocked_recompile
  | trap p i trap => exact unclocked_uncommonTrap hw p i trap
  | replace c d => exact .orElse fun e' m => unclocked_replaceMethod
  | cleanup => exact .of_clocks (map_cleanup (fun _ _ => rfl) e)
  | capture n =>
    refine .orElse fun e' count hcapture => ?_
    obtain ⟨native, -, hcapture⟩ := exists_ok_of_bind hcapture
    obtain ⟨rfl, -⟩ := Prod.mk.inj (Except.ok.inj hcapture)
    exact .of_code rfl
  | setProcesses ps => exact .of_code rfl
  | setDatabase db => exact .of_code rfl
  | intern name => exact .of_code rfl
  | defineClass name superclass => exact .of_code rfl
  | addBlock home d =>
    refine .orElse fun e' m hadd => ?_
    obtain ⟨a, -, heq⟩ := exists_ok_of_map hadd
    obtain ⟨rfl, -⟩ := Prod.mk.inj heq
    exact .of_code rfl

/-! ## Invocations -/

/-- The counts of all code are regular. -/
def Timed (e : Engine) : Prop := ∀ c ∈ e.code.clocks, IsRegular c

/-- What does not count keeps counts as they must be. -/
theorem Timed.unclocked (h : e.Timed) (hu : e.Unclocked e') : e'.Timed := by
  obtain ⟨new, hu⟩ := hu
  intro c hc
  rw [hu] at hc
  rcases List.mem_append.1 hc with hc | hc
  · exact h c hc
  · rw [List.eq_of_mem_replicate hc]
    exact .zero

/-- An invocation of code is counted by both counts of the code. -/
theorem count_compiled {id : NativeId} {full : Bool} (ha : a.native? = some id)
    (h : e.count a limit = .ok (e', full)) :
    ∃ n, e.code.get? id = some n ∧ full = (tick n.overflowCount limit).2 ∧
      e' = { e with code := e.code.modify id fun m =>
        { m with invocations := Word.saturate 32 (m.invocations + 1),
                 overflowCount := (tick n.overflowCount limit).1 } } := by
  rw [count] at h
  simp only [ha] at h
  obtain ⟨n, hn, h⟩ := exists_ok_of_bind h
  obtain ⟨rfl, rfl⟩ := Prod.mk.inj (Except.ok.inj h)
  exact ⟨n, CodeTable.get_ok hn, rfl, rfl⟩

/-- An invocation of an interpreted method is counted elsewhere. -/
theorem count_interpreted {full : Bool} (ha : a.native? = none)
    (h : e.count a limit = .ok (e', full)) :
    e'.code = e.code := by
  rw [count] at h
  simp only [ha] at h
  split at h
  · obtain ⟨rfl, -⟩ := Prod.mk.inj (Except.ok.inj h)
    rfl
  · obtain ⟨e₁, hlink, h⟩ := exists_ok_of_bind h
    obtain ⟨rfl, -⟩ := Prod.mk.inj (Except.ok.inj h)
    exact (code_link hlink : e₁.code = e.code)

/-- An invocation counts in both counts, and may start the second one again. -/
theorem Timed.count (h : e.Timed) (hlimit : limit < Word.size 32) {full : Bool}
    (hcount : e.count a limit = .ok (e', full)) : e'.Timed := by
  rcases ha : a.native? with _ | id
  · exact h.unclocked (.of_code (count_interpreted ha hcount))
  · obtain ⟨n, hn, -, rfl⟩ := count_compiled ha hcount
    intro c hc
    obtain ⟨j, m, hm, rfl⟩ := CodeTable.exists_of_mem_clocks hc
    rw [CodeTable.get?_modify] at hm
    obtain ⟨m₀, hm₀, rfl⟩ := Option.map_eq_some_iff.1 hm
    have hm₀' := h _ (CodeTable.clock_mem_clocks hm₀)
    split
    · next hj =>
      obtain rfl := Option.some.inj (hn.symm.trans (hj ▸ hm₀))
      exact hm₀'.tick hlimit
    · exact hm₀'

/-- Counts are as they must be after an invocation, and after the request that may follow it. -/
theorem Timed.invoke (h : e.Timed) (p : ProcessId) (i : Nat) : (e.invoke p i).state.Timed := by
  rw [Engine.invoke]
  split
  · exact h
  · next hcount =>
    obtain ⟨a, -, hcount⟩ := exists_ok_of_bind hcount
    obtain ⟨limit, hlimit, hcount⟩ := exists_ok_of_bind hcount
    exact h.count (Settings.lt_of_invocationLimit hlimit) hcount
  · next hcount =>
    obtain ⟨a, -, hcount⟩ := exists_ok_of_bind hcount
    obtain ⟨limit, hlimit, hcount⟩ := exists_ok_of_bind hcount
    have hcounted := h.count (Settings.lt_of_invocationLimit hlimit) hcount
    split
    · exact hcounted
    · next hrecompile => exact hcounted.unclocked (unclocked_recompile hrecompile)

theorem Timed.step (h : e.Timed) (hw : e.code.WellFormed) (ev : Event) : (e.step ev).Timed := by
  by_cases hev : ∃ p i, ev = .invoke p i
  · obtain ⟨p, i, rfl⟩ := hev
    exact h.invoke p i
  · exact h.unclocked (unclocked_step hw fun p i heq => hev ⟨p, i, heq⟩)

/-- Counts are as they must be at every moment. -/
theorem Attained.timed (h : Attained s e) : e.Timed := by
  induction h with
  | start t => simp [Timed, CodeTable.clocks, startWith, Engine.start]
  | step h ev ih => exact ih.step h.balanced.code ev
  | define _ t ih => exact ih

/-! ## Requests of counters -/

/-- What becomes of an invocation whose counter has reached its limit. -/
theorem Asks.invoke_result {p : ProcessId} {i : Nat} {r : Request} (h : e.Asks (.invoke p i) r) :
    (e.invoke p i).result = r.outcome.map fun o => some o.2 := by
  cases h with
  | invoke ha hlimit hcount =>
    rw [Engine.invoke]
    simp only [ha, hlimit, hcount, bind, Except.bind, Request.outcome]
    rcases Engine.recompile _ p i .counter with f | ⟨e', o⟩
    · rfl
    · rfl

/-- A request is declined because of its verdict. -/
theorem verdict_of_declined {r : Request} {why : Refusal}
    (h : r.outcome = .ok (e', .declined why)) :
    r.verdict = .ok (.declined why) := by
  rw [Request.outcome, recompile] at h
  obtain ⟨verdict, hverdict, h⟩ := exists_ok_of_bind h
  cases verdict with
  | recompile choice =>
    obtain ⟨⟨e₁, i⟩, -, h⟩ := exists_ok_of_bind h
    cases h
  | deferred home => cases h
  | declined why' =>
    obtain ⟨-, hwhy⟩ := Prod.mk.inj (Except.ok.inj h)
    obtain rfl := Recompiled.declined.inj hwhy
    exact hverdict

/-- Current code whose counter has reached the limit has run as often as that, if not more. -/
theorem le_invocations_of_count (h : e.Timed) {id : NativeId} (ha : a.native? = some id)
    (hlimit : limit < Word.size 32) (hcount : e.count a limit = .ok (e', true))
    (hcurrent : e.code.current? k = some id) :
    ∃ n, e'.code.currentMethod? k = some n ∧ limit ≤ n.invocations := by
  obtain ⟨n, hn, hfull, rfl⟩ := count_compiled ha hcount
  refine ⟨{ n with invocations := Word.saturate 32 (n.invocations + 1),
                   overflowCount := (tick n.overflowCount limit).1 },
    Option.bind_eq_some_iff.2 ⟨id, hcurrent, ?_⟩, ?_⟩
  · rw [CodeTable.get?_modify, hn, Option.map_some, if_pos rfl]
  · obtain ⟨hle, -, -⟩ := h _ (CodeTable.clock_mem_clocks hn)
    -- The second count has reached the limit, and the first one is not behind it.
    have hreached : limit ≤ n.overflowCount + 1 := by
      rw [tick] at hfull
      split at hfull
      · assumption
      · cases hfull
    simp only [NativeMethod.clock] at hle
    simp only [Word.saturate]
    omega

/-! ## Main result -/

/-- In a run with valid settings no code has counted more invocations since the limit was reached
    than it has counted in all, and no limit is below the number of invocations that code must have
    to be compiled again. So if the counter of code reaches its limit, and the activation that is
    selected has this code as the current code of its key, it is not refused as too young. -/
theorem not_tooYoung (h : Attained s e) (hvalid : s.validate = .ok s)
    (hmax : s.recompile.maxBackoff.toNat < 32) :
    (∀ i n, e.code.get? i = some n →
      n.overflowCount ≤ n.invocations ∧ n.overflowCount + 1 < Word.size 32 ∧
        n.invocations < Word.size 32) ∧
    (∀ b, ∃ limit, e.settings.invocationLimit b = .ok limit ∧
      s.recompile.minInvocations.toNat ≤ limit) ∧
    ∀ p i a id r k, e.processes.frame? (p, i) = some a → a.native? = some id →
      e.Asks (.invoke p i) r → r.Concerns k → e.code.current? k = some id →
        ∀ m, (e.invoke p i).result ≠ .ok (some (.declined (.tooYoung m))) := by
  have hsettings := h.backoff_le.1
  have hmin := Settings.minInvocations_le_of_valid hvalid
  refine ⟨fun i n hn => ?_, fun b => ?_, fun p i a id r k ha hid hasks hk hcurrent m hresult => ?_⟩
  · obtain ⟨hle, hlt, hfits⟩ := h.timed _ (CodeTable.clock_mem_clocks hn)
    exact ⟨hle, hlt, hfits⟩
  · obtain ⟨limit, hlimit⟩ := Settings.exists_invocationLimit_iff.2 (.inr hmax)
    exact ⟨limit, hsettings ▸ hlimit, Nat.le_trans hmin (Settings.le_of_invocationLimit hlimit)⟩
  · rw [hasks.invoke_result] at hresult
    obtain ⟨⟨e', o⟩, houtcome, ho⟩ := exists_ok_of_map hresult
    obtain rfl : o = .declined (.tooYoung m) := Option.some.inj ho
    have hrefused := Request.refused_of_verdict hk (verdict_of_declined houtcome)
    obtain ⟨n, hn, hyoung⟩ := Compiler.young_of_nextLevel hrefused
    -- The request comes from the count itself, so code that it concerns has reached the limit.
    cases hasks with
    | @invoke _ _ limit a' counted ha' hlimit hcount =>
      obtain rfl : a = a' := Option.some.inj (ha.symm.trans (ProcessTable.frame_eq_ok_iff.1 ha'))
      obtain ⟨n', hn', hle⟩ := le_invocations_of_count h.timed hid
        (Settings.lt_of_invocationLimit hlimit) hcount hcurrent
      obtain rfl : n = n' := Option.some.inj (hn.symm.trans hn')
      have hlimit' := Settings.le_of_invocationLimit hlimit
      have hyoung' : n.invocations < counted.settings.recompile.minInvocations.toNat := hyoung
      rw [(untrapped_count hcount).settings, hsettings] at hyoung'
      rw [hsettings] at hlimit'
      omega

/-- Two invocations lead to a compilation, and code must have two for the next one. -/
def everySecond : Settings := { recompile := { minInvocations := 2, invocationLimit := 2 } }

/-- A method is compiled, and its code is invoked. -/
def invokedOnce : List Event := [
  .replace ⟨0⟩ { selector := ⟨0⟩, steps := [.work 1] }, .compile (.send ⟨0⟩ ⟨0⟩),
  .setProcesses
    { callStacks := [[{ key := .send ⟨0⟩ ⟨0⟩, method := ⟨0⟩, execution := .compiled ⟨0⟩ 0 }]] },
  .invoke ⟨0⟩ 0]

/-- The next invocation reaches the limit, and the code is compiled again. -/
theorem not_tooYoung_invokedOnce :
    ∃ e r, Attained everySecond e ∧ everySecond.validate = .ok everySecond ∧
    everySecond.recompile.maxBackoff.toNat < 32 ∧
      e = (startWith everySecond .initial).run invokedOnce ∧
    e.Asks (.invoke ⟨0⟩ 0) r ∧ r.Concerns (.send ⟨0⟩ ⟨0⟩) ∧
      e.code.current? (.send ⟨0⟩ ⟨0⟩) = some ⟨0⟩ ∧
    (e.code.get? ⟨0⟩).map (·.clock) = some (1, 1) ∧
    (e.invoke ⟨0⟩ 0).result = .ok (some (.compiled ⟨1⟩ (.send ⟨0⟩ ⟨0⟩))) ∧
    ∀ m, (e.invoke ⟨0⟩ 0).result ≠ .ok (some (.declined (.tooYoung m))) := by
  obtain ⟨e, he⟩ : ∃ e, e = (startWith everySecond .initial).run invokedOnce := ⟨_, rfl⟩
  obtain ⟨a, ha⟩ : ∃ a : Activation,
      a = { key := .send ⟨0⟩ ⟨0⟩, method := ⟨0⟩, execution := .compiled ⟨0⟩ 0 } :=
    ⟨_, rfl⟩
  have hattained : Attained everySecond e := he ▸ (Attained.start .initial).run invokedOnce
  have hstack : e.processes.stack ⟨0⟩ = .ok [a] := by
    rw [he, ha]
    decide +kernel
  have hframe : e.processes.frame ⟨0⟩ 0 = .ok a := (Compiler.frame_eq_ok_iff_getElem? hstack).2 rfl
  have hlimit : e.settings.invocationLimit (e.traps.backoff a.key) = .ok 2 := by
    rw [he, ha]
    decide +kernel
  have hfull : (e.count a 2).map (·.2) = .ok true := by
    rw [he, ha]
    decide +kernel
  obtain ⟨⟨counted, full⟩, hcount, rfl⟩ := exists_ok_of_map hfull
  have hnative : a.native? = some ⟨0⟩ := by rw [ha]; rfl
  have hasks : e.Asks (.invoke ⟨0⟩ 0) ⟨counted, ⟨0⟩, 0, .counter⟩ := .invoke hframe hlimit hcount
  have hconcerns : Request.Concerns ⟨counted, ⟨0⟩, 0, .counter⟩ (.send ⟨0⟩ ⟨0⟩) := by
    obtain ⟨n, -, -, hcounted⟩ := count_compiled hnative hcount
    refine ⟨[a], 0, a, ?_, ⟨0, ?_, belowSupers_spec _ 0⟩, rfl, by rw [ha]⟩
    · simp only [hcounted, hstack]
    · rw [ha]
      exact (Compiler.ascend_eq_iff (by decide) (Nat.lt_succ_self 0)).1 rfl
  have hcurrent : e.code.current? (.send ⟨0⟩ ⟨0⟩) = some ⟨0⟩ := by
    rw [he]
    decide +kernel
  obtain ⟨-, -, hold⟩ := not_tooYoung hattained (by decide) (by decide)
  refine ⟨e, _, hattained, by decide, by decide, he, hasks, hconcerns, hcurrent, ?_, ?_,
    hold ⟨0⟩ 0 a ⟨0⟩ _ _ (ProcessTable.frame_eq_ok_iff.1 hframe) hnative hasks hconcerns hcurrent⟩
  · rw [he]
    decide +kernel
  · rw [he]
    decide +kernel

end Engine

end Warmup
