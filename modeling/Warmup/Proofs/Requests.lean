import Warmup.Proofs.CandidateSearch
import Warmup.Proofs.PicAccounts

/-!
# Requests

Code is compiled because somebody says so (`Engine.compile`), or because a request to recompile was
granted: one from outside, by a counter that has reached its limit, or by code that has trapped too
often (`Engine.Asks`). This module is about runs without the former (`Engine.AdaptsTo`). In a step
of such a run no code is installed (`Engine.Idles`), or there is a request, and all code that is
installed is what the request leads to (`Engine.step_cases`). So it has passed the gate
`Compiler.nextLevel` (`Engine.Progresses`, `Engine.progresses_step`). -/

namespace Warmup

/-! ## Tables without new code -/

/-- What firings of traps leave in code. -/
def NativeMethod.trapRecord (n : NativeMethod) : Nat × List TrapSite := (n.trapCount, n.traps)

namespace CodeTable

variable {t t' t'' : CodeTable} {i : NativeId} {β : Type} {g : NativeMethod → β}

/-- No code is installed, and none becomes live. -/
structure Rests (t t' : CodeTable) : Prop where
  kept : t.Keeps t'
  wellFormed : t.WellFormed → t'.WellFormed
  length : t'.methods.length = t.methods.length
  versions : t'.versions = t.versions
  live : ∀ i n', t'.get? i = some n' → n'.state = .live → ∃ n, t.get? i = some n ∧ n.state = .live

theorem Rests.refl (t : CodeTable) : t.Rests t :=
  ⟨.refl t, fun h => h, rfl, rfl, fun _ n hn hlive => ⟨n, hn, hlive⟩⟩

theorem Rests.trans (h : t.Rests t') (h' : t'.Rests t'') : t.Rests t'' where
  kept := h.kept.trans h'.kept
  wellFormed := h'.wellFormed ∘ h.wellFormed
  length := h'.length.trans h.length
  versions := h'.versions.trans h.versions
  live i n'' hn'' hlive := by
    obtain ⟨n', hn', hlive'⟩ := h'.live i n'' hn'' hlive
    exact h.live i n' hn' hlive'

theorem Rests.versionCount (h : t.Rests t') (k : LookupKey) :
    t'.versionCount k = t.versionCount k := by
  rw [CodeTable.versionCount, h.versions, CodeTable.versionCount]

/-- All code is what it was, but for its counters, caches, traps and state. -/
theorem Rests.map_eq (h : t.Rests t') (hg : ∀ n n' : NativeMethod, n.Became n' → g n' = g n) :
    t'.methods.map g = t.methods.map g := by
  refine List.ext_getElem? fun i => ?_
  rw [List.getElem?_map, List.getElem?_map]
  rcases hn : t.methods[i]? with _ | n
  · have hge : t'.methods.length ≤ i := h.length ▸ List.getElem?_eq_none_iff.1 hn
    rw [List.getElem?_eq_none hge]
  · obtain ⟨n', hn', hbecame⟩ := h.kept ⟨i⟩ n hn
    rw [show t'.methods[i]? = some n' from hn', Option.map_some, Option.map_some, hg n n' hbecame]

/-- Changing counters, traps or caches of code lets it rest. -/
theorem rests_modify {f : NativeMethod → NativeMethod}
    (hf : ∀ n, t.get? i = some n → n.Became (f n) ∧ (f n).state = n.state) :
    t.Rests (t.modify i f) where
  kept := .modify fun n hn => (hf n hn).1
  wellFormed hw := hw.modify hf
  length := List.length_modify ..
  versions := rfl
  live j n' hn' hlive := by
    rw [get?_modify] at hn'
    obtain ⟨n, hn, rfl⟩ := Option.map_eq_some_iff.1 hn'
    refine ⟨n, hn, ?_⟩
    split at hlive
    · next hj => exact (hf n (hj ▸ hn)).2.symm.trans hlive
    · exact hlive

theorem rests_invalidate (t : CodeTable) (i : NativeId) : t.Rests (t.invalidate i).2 where
  kept := t.keeps_invalidate i
  wellFormed hw := hw.invalidate i
  length := by
    simpa using congrArg List.length (map_invalidate (g := fun _ => ()) (fun _ _ => rfl) t i)
  versions := (counters_invalidate t i).1
  live j n' hn' hlive := by
    rw [get?_invalidate] at hn'
    obtain ⟨n, hn, rfl⟩ := Option.map_eq_some_iff.1 hn'
    refine ⟨n, hn, ?_⟩
    split at hlive
    · cases hlive
    · exact hlive

theorem rests_invalidateDependents (t : CodeTable) (m : MethodId) :
    t.Rests (t.invalidateDependents m).2 :=
  invalidateDependents_induction (fun t' i h => h.trans (t'.rests_invalidate i)) (.refl t) m

end CodeTable

namespace Engine

variable {e e' e'' : Engine}

/-- No code is installed, and the settings stay. -/
structure Idles (e e' : Engine) : Prop where
  settings : e'.settings = e.settings
  code : e.code.Rests e'.code

/-- No trap fires either. -/
structure Untrapped (e e' : Engine) : Prop extends Idles e e' where
  backoffs : e'.traps.backoffs = e.traps.backoffs
  records : e'.code.methods.map NativeMethod.trapRecord = e.code.methods.map NativeMethod.trapRecord

theorem Idles.trans (h : e.Idles e') (h' : e'.Idles e'') : e.Idles e'' :=
  ⟨h'.settings.trans h.settings, h.code.trans h'.code⟩

theorem Untrapped.of_eq (hsettings : e'.settings = e.settings) (hcode : e'.code = e.code)
    (htraps : e'.traps = e.traps) : e.Untrapped e' :=
  ⟨⟨hsettings, hcode ▸ .refl _⟩, htraps ▸ rfl, hcode ▸ rfl⟩

theorem Untrapped.refl (e : Engine) : e.Untrapped e := .of_eq rfl rfl rfl

theorem Untrapped.trans (h : e.Untrapped e') (h' : e'.Untrapped e'') : e.Untrapped e'' :=
  ⟨h.toIdles.trans h'.toIdles, h'.backoffs.trans h.backoffs, h'.records.trans h.records⟩

theorem Untrapped.orElse {α : Type} {x : Except Fault (Engine × α)}
    (h : ∀ e' a, x = .ok (e', a) → e.Untrapped e') :
    e.Untrapped (e.orElse x) := by
  rcases x with f | ⟨e', a⟩
  · exact .refl e
  · exact h e' a rfl

/-- Invocations and sends change counters and caches of code. -/
theorem Untrapped.modify {i : NativeId} {f : NativeMethod → NativeMethod}
    (hf : ∀ n, n.Became (f n) ∧ (f n).state = n.state ∧ (f n).trapRecord = n.trapRecord) :
    e.Untrapped { e with code := e.code.modify i f } :=
  ⟨⟨rfl, CodeTable.rests_modify fun n _ => ⟨(hf n).1, (hf n).2.1⟩⟩, rfl,
    map_modify_eq fun n _ => (hf n).2.2⟩

/-! ## Events without a request -/

theorem untrapped_link {m : MethodId} (h : e.link m = .ok e') : e.Untrapped e' := by
  rw [link] at h
  obtain ⟨method, -, h⟩ := exists_ok_of_bind h
  obtain rfl := Except.ok.inj h
  exact .of_eq rfl rfl rfl

theorem untrapped_send (e : Engine) (p : SendPlace) (r : ClassId) :
    e.Untrapped (e.send p r).state := by
  obtain ⟨hsettings, htraps, hcode | ⟨i, f, hf, hcode⟩⟩ := e.send_changes p r
  · exact .of_eq hsettings hcode htraps
  · have hmodify : e.Untrapped { e with code := e.code.modify i f } := by
      refine .modify fun n => ?_
      obtain ⟨sites, hsites⟩ := hf n
      rw [hsites]
      exact ⟨⟨rfl, fun h => h⟩, rfl, rfl⟩
    exact hmodify.trans (.of_eq hsettings hcode htraps)

section Lasting

variable {β : Type} {g : NativeMethod → β}

/-- What does not hang on caches is kept by a send, -/
theorem map_send (hg : ∀ (n : NativeMethod) sites, g { n with sites := sites } = g n) (e : Engine)
    (p : SendPlace) (r : ClassId) :
    (e.send p r).state.code.methods.map g = e.code.methods.map g := by
  obtain ⟨-, -, hcode | ⟨i, f, hf, hcode⟩⟩ := e.send_changes p r
  · rw [hcode]
  · rw [hcode]
    refine map_modify_eq fun n _ => ?_
    obtain ⟨sites, hsites⟩ := hf n
    rw [hsites, hg]

/-- and by a cleanup. -/
theorem map_cleanup (hg : ∀ (n : NativeMethod) sites, g { n with sites := sites } = g n)
    (e : Engine) :
    e.cleanup.2.code.methods.map g = e.code.methods.map g := by
  refine List.ext_getElem? fun i => ?_
  rw [List.getElem?_map, List.getElem?_map]
  rcases e.get?_cleanup ⟨i⟩ with ⟨n, n', hn, hn', hclean⟩ | ⟨hn, hn'⟩
  · rw [show e.code.methods[i]? = some n from hn,
      show e.cleanup.2.code.methods[i]? = some n' from hn',
      Option.map_some, Option.map_some, hclean.same, hg]
  · rw [show e.code.methods[i]? = none from hn, show e.cleanup.2.code.methods[i]? = none from hn']

/-- Retracting a method changes nothing of code but states. -/
theorem map_retract (hg : ∀ (n : NativeMethod) s, g { n with state := s } = g n) (e : Engine)
    (old : MethodId) :
    (e.retract old).code.methods.map g = e.code.methods.map g := by
  rw [code_retract]
  exact CodeTable.invalidateDependents_induction
    (P := fun t => t.methods.map g = e.code.methods.map g)
    (fun t i h => (CodeTable.map_invalidate hg t i).trans h) rfl old

end Lasting

theorem untrapped_cleanup (e : Engine) : e.Untrapped e.cleanup.2 := by
  refine ⟨⟨rfl, e.advances_cleanup.kept, e.advances_cleanup.code, ?_, rfl,
    fun i n' hn' hlive => ?_⟩, rfl, map_cleanup (fun _ _ => rfl) e⟩
  · simpa using congrArg List.length (map_cleanup (g := fun _ => ()) (fun _ _ => rfl) e)
  · rcases e.get?_cleanup i with ⟨n, n₁, hn, hn₁, hclean⟩ | ⟨-, hnone⟩
    · obtain rfl := Option.some.inj (hn'.symm.trans hn₁)
      rw [hclean.same] at hlive
      exact ⟨n, hn, hlive⟩
    · cases hn'.symm.trans hnone

theorem untrapped_retract (e : Engine) (old : MethodId) : e.Untrapped (e.retract old) := by
  have hcode := e.code.rests_invalidateDependents old
  rw [← code_retract] at hcode
  have hrest : (e.retract old).settings = e.settings ∧
      (e.retract old).traps.backoffs = e.traps.backoffs := by
    rw [retract]
    split
    · exact ⟨rfl, rfl⟩
    · exact ⟨rfl, rfl⟩
  exact ⟨⟨hrest.1, hcode⟩, hrest.2, map_retract (fun _ _ => rfl) e old⟩

/-- A new method installs no code and fires no trap. -/
theorem untrapped_replaceMethod {c : ClassId} {d : Draft} {m : MethodId}
    (h : e.replaceMethod c d = .ok (e', m)) :
    e.Untrapped e' := by
  rw [replaceMethod] at h
  obtain ⟨⟨classes, new⟩, -, h⟩ := exists_ok_of_bind h
  obtain ⟨rfl, -⟩ := Prod.mk.inj (Except.ok.inj h)
  have hdefine : e.Untrapped { e with classes := classes, memo := e.memo.flush } :=
    .of_eq rfl rfl rfl
  rcases e.classes.lookup c d.selector with _ | old
  · exact hdefine.trans (untrapped_cleanup _)
  · exact hdefine.trans ((untrapped_retract _ old).trans (untrapped_cleanup _))

theorem untrapped_count {a : Activation} {limit : Nat} {full : Bool}
    (h : e.count a limit = .ok (e', full)) :
    e.Untrapped e' := by
  rw [count] at h
  split at h
  · obtain ⟨native, -, h⟩ := exists_ok_of_bind h
    obtain ⟨rfl, -⟩ := Prod.mk.inj (Except.ok.inj h)
    exact .modify fun n => ⟨⟨rfl, fun h => h⟩, rfl, rfl⟩
  · split at h
    · obtain ⟨rfl, -⟩ := Prod.mk.inj (Except.ok.inj h)
      exact .of_eq rfl rfl rfl
    · obtain ⟨e₁, hlink, h⟩ := exists_ok_of_bind h
      obtain ⟨rfl, -⟩ := Prod.mk.inj (Except.ok.inj h)
      exact (untrapped_link hlink).trans (.of_eq rfl rfl rfl)

/-! ## Traps -/

theorem idles_retire (e : Engine) (n : NativeMethod) : e.Idles (e.retire n).1 := by
  rw [retire]
  split
  · exact ⟨rfl, e.code.rests_invalidate n.id⟩
  · exact (Untrapped.refl e).toIdles

theorem idles_mark {n : NativeMethod} (hn : e.code.get? n.id = some n) (trap : Nat) :
    e.Idles (e.mark n trap).1 := by
  have hpatch : e.Idles
      { e with code := e.code.modify n.id fun _ => n.patch trap (n.trapCount + 1) } := by
    refine ⟨rfl, CodeTable.rests_modify fun n' hn' => ?_⟩
    obtain rfl := Option.some.inj (hn.symm.trans hn')
    exact ⟨⟨rfl, fun h => h⟩, rfl⟩
  exact hpatch.trans (idles_retire _ _)

/-- A trap that fires installs no code by itself. -/
theorem idles_fire (hw : e.code.WellFormed) (p : ProcessId) (i trap : Nat) :
    e.Idles (e.fire p i trap).state := by
  rcases e.fire_cases p i trap with ⟨f, hfire⟩ | ⟨n, site, hfiring, hfit⟩
  · rw [hfire]
    exact (Untrapped.refl e).toIdles
  · rw [fire_eq hfiring hfit]
    have hmark := idles_mark (get?_of_firing hw.id_eq hfiring) trap
    exact ⟨hmark.settings, hmark.code⟩

/-! ## Installation -/

section Prepare

variable {k : LookupKey} {level : Nat} {comp : Compilation} (h : e.prepare k level = .ok comp)

include h

/-- Code is compiled for the key and at the level that were asked for. -/
theorem prepare_ok : comp.native.key = k ∧ comp.native.level = level := by
  rw [prepare] at h
  obtain ⟨m, -, hcompile⟩ := exists_ok_of_bind h
  obtain ⟨hgraph, hemit⟩ := Compiler.compile_ok hcompile
  obtain ⟨hkey, -, hlevel, -⟩ := Compiler.graph_expanded hgraph
  obtain ⟨size, hnative⟩ := SendGraph.exists_code_of_emit hemit
  rw [hnative]
  exact ⟨hkey, hlevel⟩

/-- No trap of it has fired yet. -/
theorem prepare_unused : comp.native.trapCount = 0 ∧ ∀ s ∈ comp.native.traps, s.used = false := by
  rw [prepare] at h
  obtain ⟨m, -, hcompile⟩ := exists_ok_of_bind h
  obtain ⟨-, hemit⟩ := Compiler.compile_ok hcompile
  refine ⟨?_, fun s hs => ?_⟩
  · obtain ⟨size, hnative⟩ := SendGraph.exists_code_of_emit hemit
    rw [hnative, SendGraph.code]
  · obtain ⟨node, -, htrap⟩ := SendGraph.emit_traps hemit hs
    obtain ⟨spill, -, rfl⟩ := Option.map_eq_some_iff.1 htrap
    rfl

end Prepare

/-- Code for a key is compiled at a level and installed. -/
structure Installs (e : Engine) (k : LookupKey) (level : Nat) (e' : Engine) : Prop where
  settings : e'.settings = e.settings
  traps : e'.traps = e.traps
  installed : ∃ comp i, e.prepare k level = .ok comp ∧ e.code.install comp.native = .ok (e'.code, i)

/-- A compilation installs the code of the key at the level. -/
theorem installs_compileAt {k : LookupKey} {level : Nat} {i : NativeId}
    (h : e.compileAt k level = .ok (e', i)) :
    e.Installs k level e' := by
  rw [compileAt] at h
  obtain ⟨comp, hprepare, h⟩ := exists_ok_of_bind h
  obtain ⟨⟨code, id⟩, hinstall, h⟩ := exists_ok_of_bind h
  obtain ⟨rfl, -⟩ := Prod.mk.inj (Except.ok.inj h)
  exact ⟨rfl, rfl, comp, id, hprepare, hinstall⟩

end Engine

/-! ## Requests -/

/-- A request to recompile by an activation, and the engine at that moment. -/
structure Request where
  engine : Engine
  process : ProcessId
  frame : Nat
  trigger : Trigger

namespace Request

variable {r : Request}

/-- The engine after the request, and what came of it. -/
def outcome (r : Request) : Except Fault (Engine × Recompiled) :=
  r.engine.recompile r.process r.frame r.trigger

/-- The verdict on the request. -/
def verdict (r : Request) : Except Fault Verdict :=
  r.engine.compiler.candidate r.engine.processes r.process r.frame r.trigger

/-- The request is decided on by an activation of a key. -/
def Concerns (r : Request) (k : LookupKey) : Prop :=
  ∃ stack j a, r.engine.processes.stack r.process = .ok stack ∧
    r.engine.compiler.Selects stack r.frame j ∧ stack[j]? = some a ∧ a.key = k

/-- What is chosen has passed the gate. -/
theorem chosen_of_verdict {choice : Choice} (h : r.verdict = .ok (.recompile choice)) :
    choice.current = r.engine.code.current? choice.key ∧
      r.engine.compiler.nextLevel choice.key r.trigger = .ok (.ok choice.level) := by
  obtain ⟨stack, hstack, -⟩ := exists_ok_of_bind h
  rcases (Compiler.candidate_eq_ok_iff hstack).1 h with ⟨home, -, hv⟩
    | ⟨j, a, level, -, -, hlevel, hv⟩
  · cases hv
  · rcases level with why | level
    · cases hv
    · obtain rfl := Verdict.recompile.inj hv
      exact ⟨rfl, hlevel⟩

/-- What is refused for a key is refused for every request that concerns it. -/
theorem verdict_of_refused {k : LookupKey} {why : Refusal} (h : r.Concerns k)
    (hwhy : r.engine.compiler.nextLevel k r.trigger = .ok (.error why)) :
    r.verdict = .ok (.declined why) := by
  obtain ⟨stack, j, a, hstack, hselects, ha, rfl⟩ := h
  exact (Compiler.candidate_eq_ok_iff hstack).2 (.inr ⟨j, a, .error why, hselects, ha, hwhy, rfl⟩)

/-- A request that is declined is counted, and nothing else. -/
theorem outcome_of_declined {why : Refusal} (h : r.verdict = .ok (.declined why)) : r.outcome = .ok
    ({ r.engine with tally := { r.engine.tally with declined := r.engine.tally.declined + 1 } },
      .declined why) := by
  rw [verdict] at h
  rw [outcome, Engine.recompile, h]
  rfl

/-- A request that is granted leads to the installation of what was chosen, any other one to
    none. -/
theorem outcome_cases {e' : Engine} {o : Recompiled} (h : r.outcome = .ok (e', o)) :
    r.engine.Idles e' ∨
      ∃ choice, r.verdict = .ok (.recompile choice) ∧
        r.engine.Installs choice.key choice.level e' := by
  rw [outcome, Engine.recompile] at h
  obtain ⟨verdict, hverdict, h⟩ := exists_ok_of_bind h
  -- Only a verdict to recompile compiles anything.
  cases verdict with
  | recompile choice =>
    obtain ⟨⟨e₁, i⟩, hcompile, h⟩ := exists_ok_of_bind h
    obtain ⟨rfl, -⟩ := Prod.mk.inj (Except.ok.inj h)
    have hinstalls := Engine.installs_compileAt hcompile
    exact .inr ⟨choice, hverdict, hinstalls.settings, hinstalls.traps, hinstalls.installed⟩
  | deferred home =>
    obtain ⟨rfl, -⟩ := Prod.mk.inj (Except.ok.inj h)
    exact .inl ⟨rfl, .refl _⟩
  | declined why =>
    obtain ⟨rfl, -⟩ := Prod.mk.inj (Except.ok.inj h)
    exact .inl ⟨rfl, .refl _⟩

end Request

/-- Whether an event compiles nothing but on request. -/
def Event.isAdaptive : Event → Bool
  | compile _ => false
  | _ => true

namespace Engine

variable {e e' : Engine} {ev : Event} {s : Settings}

/-- An event is a request, or leads to one. -/
inductive Asks (e : Engine) : Event → Request → Prop
  | recompile (p : ProcessId) (i : Nat) (trigger : Trigger) :
    Asks e (.recompile p i trigger) ⟨e, p, i, trigger⟩
  /-- A counter has reached its limit. -/
  | invoke {p : ProcessId} {i limit : Nat} {a : Activation} {counted : Engine}
    (ha : e.processes.frame p i = .ok a)
    (hlimit : e.settings.invocationLimit (e.traps.backoff a.key) = .ok limit)
    (hcount : e.count a limit = .ok (counted, true)) :
      Asks e (.invoke p i) ⟨counted, p, i, .counter⟩
  /-- Code has trapped too often. -/
  | trap {p : ProcessId} {i trap : Nat} {fired : Fired}
    (hfired : (e.fire p i trap).result = .ok fired)
    (hretired : fired.retired.isSome) : Asks e (.trap p i trap)
      ⟨{ (e.fire p i trap).state with
          tally := { (e.fire p i trap).state.tally with
            traps := (e.fire p i trap).state.tally.traps + 1 } }, p, i, .trap⟩

/-- Up to the request no code is installed. -/
theorem Asks.idles {r : Request} (h : e.Asks ev r) (hw : e.code.WellFormed) : e.Idles r.engine := by
  cases h with
  | recompile p i trigger => exact (Untrapped.refl e).toIdles
  | invoke ha hlimit hcount => exact (untrapped_count hcount).toIdles
  | @trap p i trap fired hfired hretired =>
    have hfire := idles_fire hw p i trap
    exact ⟨hfire.settings, hfire.code⟩

/-- After it there is only what comes of it. -/
theorem Asks.step_eq {r : Request} (h : e.Asks ev r) : e.step ev = r.engine.orElse r.outcome := by
  cases h with
  | recompile p i trigger => rfl
  | @invoke p i limit a counted ha hlimit hcount =>
    rw [step, Engine.invoke]
    simp only [ha, hlimit, hcount, bind, Except.bind, Request.outcome]
    -- The invocation stays counted if the recompilation fails.
    rcases hr : counted.recompile p i .counter with f | ⟨e', o⟩
    · rfl
    · rfl
  | @trap p i trap fired hfired hretired =>
    obtain ⟨retired, hretired⟩ := Option.isSome_iff_exists.1 hretired
    rw [step, uncommonTrap, Outcome.andThen]
    simp only [hfired, hretired, Request.outcome]
    rcases hr : Engine.recompile _ p i .trap with f | ⟨e', o⟩
    · rfl
    · rfl

/-- An invocation installs nothing, or asks for a recompilation. -/
theorem invoke_cases (e : Engine) (p : ProcessId) (i : Nat) :
    e.Idles (e.invoke p i).state ∨ ∃ r, e.Asks (.invoke p i) r := by
  rw [invoke]
  split
  · exact .inl (Untrapped.refl e).toIdles
  · next e₁ hcount =>
    obtain ⟨a, -, hcount⟩ := exists_ok_of_bind hcount
    obtain ⟨limit, -, hcount⟩ := exists_ok_of_bind hcount
    exact .inl (untrapped_count hcount).toIdles
  · next e₁ hcount =>
    obtain ⟨a, ha, hcount⟩ := exists_ok_of_bind hcount
    obtain ⟨limit, hlimit, hcount⟩ := exists_ok_of_bind hcount
    exact .inr ⟨_, .invoke ha hlimit hcount⟩

/-- A trap installs nothing, or asks for a recompilation. -/
theorem trap_cases (hw : e.code.WellFormed) (p : ProcessId) (i trap : Nat) :
    e.Idles (e.uncommonTrap p i trap).state ∨ ∃ r, e.Asks (.trap p i trap) r := by
  have hfire := idles_fire hw p i trap
  rw [uncommonTrap, Outcome.andThen]
  split
  · next fired hfired =>
    rcases hretired : fired.retired with _ | retired
    · exact .inl ⟨hfire.settings, hfire.code⟩
    · exact .inr ⟨_, .trap hfired (hretired ▸ rfl)⟩
  · exact .inl hfire

/-- Where nothing but requests leads to compilations, an event installs no code, or leads to a
    request. -/
theorem step_cases (hw : e.code.WellFormed) (hev : ev.isAdaptive) :
    e.Idles (e.step ev) ∨ ∃ r, e.Asks ev r := by
  have hsame {e' : Engine} (h : e.Untrapped e') : e.Idles e' := h.toIdles
  cases ev with
  | link m =>
    refine .inl (hsame (.orElse fun e' a hlink => ?_))
    obtain ⟨e₁, hm, heq⟩ := exists_ok_of_map hlink
    obtain ⟨rfl, -⟩ := Prod.mk.inj heq
    exact untrapped_link hm
  | send p r => exact .inl (hsame (untrapped_send e p r))
  | compile k => cases hev
  | invoke p i => exact e.invoke_cases p i
  | recompile p i trigger => exact .inr ⟨_, .recompile p i trigger⟩
  | trap p i trap => exact trap_cases hw p i trap
  | replace c d => exact .inl (hsame (.orElse fun e' m => untrapped_replaceMethod))
  | cleanup => exact .inl (hsame (untrapped_cleanup e))
  | capture n =>
    refine .inl (hsame (.orElse fun e' count hcapture => ?_))
    obtain ⟨native, -, hcapture⟩ := exists_ok_of_bind hcapture
    obtain ⟨rfl, -⟩ := Prod.mk.inj (Except.ok.inj hcapture)
    exact .of_eq rfl rfl rfl
  | setProcesses ps => exact .inl (hsame (.of_eq rfl rfl rfl))
  | setDatabase db => exact .inl (hsame (.of_eq rfl rfl rfl))
  | intern name => exact .inl (hsame (.of_eq rfl rfl rfl))
  | defineClass name superclass => exact .inl (hsame (.of_eq rfl rfl rfl))
  | addBlock home d =>
    refine .inl (hsame (.orElse fun e' m hadd => ?_))
    obtain ⟨a, -, heq⟩ := exists_ok_of_map hadd
    obtain ⟨rfl, -⟩ := Prod.mk.inj heq
    exact .of_eq rfl rfl rfl

/-- What a step can do to code: none is installed, or code that has passed the gate. -/
inductive Progresses (e e' : Engine) : Prop
  | idle (h : e.Idles e')
  | install {e₁ : Engine} {k : LookupKey} {level : Nat} {trigger : Trigger} (hidle : e.Idles e₁)
    (hlevel : e₁.compiler.nextLevel k trigger = .ok (.ok level)) (h : e₁.Installs k level e')

/-- In an adaptive step all code that is installed has passed the gate. -/
theorem progresses_step (hw : e.code.WellFormed) (hev : ev.isAdaptive) :
    e.Progresses (e.step ev) := by
  rcases step_cases hw hev with hidle | ⟨r, hasks⟩
  · exact .idle hidle
  · have hidle := hasks.idles hw
    rw [hasks.step_eq]
    rcases ho : r.outcome with f | ⟨e', o⟩
    · exact .idle hidle
    · rcases Request.outcome_cases ho with hidle' | ⟨choice, hverdict, hinstalls⟩
      · exact .idle (hidle.trans hidle')
      · exact .install hidle (Request.chosen_of_verdict hverdict).2 hinstalls

/-! ## Runs -/

/-- What happens to an engine in which nothing but requests leads to compilations: such an event, or
    whatever definitions. -/
inductive Adapts : Engine → Engine → Prop
  | event (e : Engine) {ev : Event} (hev : ev.isAdaptive) : Adapts e (e.step ev)
  | define (e : Engine) (t : ClassTable) : Adapts e { e with classes := t }

/-- What this leads to. -/
def AdaptsTo : Engine → Engine → Prop := Relation.ReflTransGen Adapts

/-- An adaptive run is a run. -/
theorem AdaptsTo.attained (h : e.AdaptsTo e') (he : Attained s e) : Attained s e' := by
  induction h with
  | refl => exact he
  | tail _ hadapts ih =>
    cases hadapts with
    | event hev => exact ih.step _
    | define t => exact ih.define t

theorem Adapts.progresses (h : e.Adapts e') (hw : e.code.WellFormed) : e.Progresses e' := by
  cases h with
  | event hev => exact progresses_step hw hev
  | define t => exact .idle ⟨rfl, .refl _⟩

/-- Events without a compilation from outside make an adaptive run. -/
theorem adaptsTo_run (e : Engine) {events : List Event} (h : ∀ ev ∈ events, ev.isAdaptive) :
    e.AdaptsTo (e.run events) := by
  induction events generalizing e with
  | nil => exact .refl
  | cons ev events ih =>
    have hfirst : e.Adapts (e.step ev) := .event e (h ev List.mem_cons_self)
    exact .head hfirst (ih (e.step ev) fun ev' hev' => h ev' (List.mem_cons_of_mem ev hev'))

/-- What every step keeps, a run keeps. -/
theorem AdaptsTo.induction {P : Engine → Prop}
    (hP : ∀ e e', e.code.WellFormed → e.Progresses e' → P e → P e') (h : e.AdaptsTo e')
    (ha : Attained s e) (he : P e) : P e' := by
  induction h with
  | refl => exact he
  | tail hpath hadapts ih =>
    have hw := (AdaptsTo.attained hpath ha).balanced.code
    exact hP _ _ hw (hadapts.progresses hw) ih

end Engine

end Warmup
