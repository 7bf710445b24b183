import Warmup.Proofs.Coherence
import Warmup.Proofs.Expansion

/-!
# Speculation

A trap stands for a send that is not expected to run. If it runs after all, often
enough, its code is made invalid and the send is disabled: it is compiled as a
send from then on.

* No trap is compiled for a send that is disabled (`Compiler.not_disabled_of_compile`).
* What a step may do (`Engine.Learns`): sends that are disabled stay so, code keeps
  its traps, and code that is new was compiled with the history that the step has
  left. Every event does only this, but for what is forgotten with a method that
  it replaces (`Engine.learns_step`).
* What a trap does in addition (`Engine.Trapped`): if its code has become invalid,
  the send of the trap is disabled (`Engine.trapped_uncommonTrap`).
-/

namespace Warmup

namespace NativeMethod

/-- The sends that the traps of code stand for, in the order of the traps. -/
def speculations (n : NativeMethod) : List (Option (MethodId × Bci)) :=
  n.traps.map fun s => (n.scope? s.scope).map fun d => (d.method, s.bci)

/-- The code was compiled with a history, and none of its traps has fired since. -/
def CompiledAgainst (n : NativeMethod) (h : TrapHistory) : Prop :=
  ∃ (c : Compiler) (t : FeedbackTree) (key : LookupKey) (method : MethodId)
    (level : Nat) (comp : Compilation),
    c.compile t key method level = .ok comp ∧ c.traps = h ∧ n.scopes = comp.native.scopes ∧
    n.traps = comp.native.traps

variable {n n' : NativeMethod}

/-- What code speculates on are its scopes and traps. -/
theorem speculations_congr (hscopes : n'.scopes = n.scopes) (htraps : n'.traps = n.traps) :
    n'.speculations = n.speculations := by
  simp only [speculations, scope?, hscopes, htraps]

/-- That a trap was used changes nothing in what it stands for. -/
theorem speculations_patch (n : NativeMethod) (trap count : Nat) :
    (n.patch trap count).speculations = n.speculations := by
  refine List.ext_getElem? fun i => ?_
  simp only [speculations, patch, scope?, List.getElem?_map, List.getElem?_modify]
  rcases n.traps[i]? with _ | s
  · rfl
  · by_cases hi : trap = i <;> simp [hi]

/-- The send of a trap that has just fired is among those whose traps were used. -/
theorem mem_usedTraps_patch {trap : Nat} {x : MethodId × Bci}
    (h : n.speculations[trap]? = some (some x)) (count : Nat) :
    x ∈ (n.patch trap count).usedTraps := by
  rw [speculations, List.getElem?_map] at h
  obtain ⟨s, hs, hx⟩ := Option.map_eq_some_iff.1 h
  refine List.mem_filterMap.2 ⟨{ s with used := true }, List.mem_filter.2 ⟨?_, rfl⟩, hx⟩
  refine List.mem_of_getElem? (i := trap) ?_
  simp [patch, hs]

end NativeMethod

namespace Compiler

variable {c : Compiler} {t : FeedbackTree} {key : LookupKey} {method : MethodId} {level : Nat}
  {comp : Compilation}

/-- A trap stands in a scope of its code, and its send was not disabled. -/
theorem not_disabled_of_compile (h : c.compile t key method level = .ok comp) {s : TrapSite}
    (hs : s ∈ comp.native.traps) :
    ∃ d, comp.native.scope? s.scope = some d ∧ (d.method, s.bci) ∉ c.traps.disabled := by
  obtain ⟨hgraph, hemit⟩ := compile_ok h
  obtain ⟨x, hx, htrap⟩ := SendGraph.emit_traps hemit hs
  obtain ⟨q, hq, rfl⟩ := Option.map_eq_some_iff.1 htrap
  obtain ⟨m, -, -, -, hsends⟩ := graph_reached hgraph
  obtain ⟨n, a, site, hreached, hanswers⟩ := hsends x hx
  have hscope : comp.native.scope? x.scope = some a.scope.desc := by
    rw [NativeMethod.scope?, (SendGraph.emit_ok hemit).2.2.1, hanswers.scope]
    exact SendGraph.find?_desc (graph_ordered hgraph).id_eq hreached.grown.scope
  -- A send is settled as a trap only where traps can be.
  have hcan : c.canTrap t a.scope site.bci := hanswers.settled.decided.trap (by rw [hq]; rfl)
  refine ⟨a.scope.desc, hscope, fun hmem => ?_⟩
  have hdisabled : c.traps.isDisabled a.scope.method site.bci = true := by
    rw [← hanswers.bci]
    exact List.contains_iff_mem.2 hmem
  simp [canTrap, hdisabled] at hcan

end Compiler

/-- What code speculates on was not disabled when it was compiled. -/
theorem NativeMethod.CompiledAgainst.not_disabled {n : NativeMethod} {h : TrapHistory}
    (hn : n.CompiledAgainst h) {o : Option (MethodId × Bci)} (ho : o ∈ n.speculations) :
    ∃ x, o = some x ∧ x ∉ h.disabled := by
  obtain ⟨c, t, key, method, level, comp, hcompile, rfl, hscopes, htraps⟩ := hn
  rw [speculations_congr hscopes htraps] at ho
  obtain ⟨s, hs, rfl⟩ := List.mem_map.1 ho
  obtain ⟨d, hd, hmem⟩ := Compiler.not_disabled_of_compile hcompile hs
  exact ⟨(d.method, s.bci), by rw [hd]; rfl, hmem⟩

/-! ## Histories -/

namespace TrapHistory

variable {h : TrapHistory} {x : MethodId × Bci}

/-- A send that is disabled joins those that were. -/
theorem mem_disable {m : MethodId} {bci : Bci} :
    x ∈ (h.disable m bci).disabled ↔ x = (m, bci) ∨ x ∈ h.disabled := by
  rw [disable]
  split
  · next hmem =>
    have hmem : (m, bci) ∈ h.disabled := List.contains_iff_mem.1 hmem
    exact ⟨.inr, fun hx => hx.elim (fun heq => heq ▸ hmem) fun hx => hx⟩
  · exact List.mem_cons

theorem mem_foldl_disable {l : List (MethodId × Bci)} :
    x ∈ (l.foldl (fun h d => h.disable d.1 d.2) h).disabled ↔ x ∈ l ∨ x ∈ h.disabled := by
  induction l generalizing h with
  | nil => simp
  | cons d l ih =>
    rw [List.foldl_cons, ih, mem_disable, List.mem_cons]
    constructor
    · rintro (hx | hx | hx)
      · exact .inl (.inr hx)
      · exact .inl (.inl hx)
      · exact .inr hx
    · rintro ((hx | hx) | hx)
      · exact .inr (.inl hx)
      · exact .inl hx
      · exact .inr (.inr hx)

theorem mem_forget {m : MethodId} : x ∈ (h.forget m).disabled ↔ x ∈ h.disabled ∧ x.1 ≠ m := by
  simp [forget]

end TrapHistory

/-! ## Code in the table -/

namespace CodeTable

/-- What the code with a handle speculates on. -/
def speculations (t : CodeTable) (i : NativeId) : Option (List (Option (MethodId × Bci))) :=
  (t.get? i).map (·.speculations)

variable {t t' : CodeTable}

/-- Code that changes in place speculates on the same. -/
theorem speculations_of_map {f : NativeId → NativeMethod → NativeMethod}
    (hget : ∀ i, t'.get? i = (t.get? i).map (f i))
    (hf : ∀ i n, t.get? i = some n → (f i n).speculations = n.speculations) (i : NativeId) :
    t'.speculations i = t.speculations i := by
  rw [speculations, hget, speculations]
  rcases hn : t.get? i with _ | n
  · rfl
  · exact congrArg some (hf i n hn)

theorem speculations_modify {f : NativeMethod → NativeMethod} {j : NativeId}
    (hf : ∀ n, t.get? j = some n → (f n).speculations = n.speculations) (i : NativeId) :
    (t.modify j f).speculations i = t.speculations i := by
  refine speculations_of_map (get?_modify f j) (fun i n hn => ?_) i
  split
  · next hi => exact hf n (hi ▸ hn)
  · rfl

theorem speculations_invalidate (t : CodeTable) (j i : NativeId) :
    (t.invalidate j).2.speculations i = t.speculations i := by
  refine speculations_of_map (get?_invalidate t j) (fun i n _ => ?_) i
  split
  · rfl
  · rfl

theorem speculations_invalidateDependents (h : t.WellFormed) (m : MethodId) (i : NativeId) :
    (t.invalidateDependents m).2.speculations i = t.speculations i := by
  refine speculations_of_map (get?_invalidateDependents h m) (fun i n _ => ?_) i
  split
  · rfl
  · rfl

end CodeTable

/-- Whether an event replaces a method, in the class that has it. -/
def Event.replaces (e : Engine) (m : MethodId) : Event → Bool
  | replace c d => (e.replaceMethod c d).isOk && e.classes.localMethod? c d.selector = some m
  | _ => false

namespace Engine

variable {e e' e₁ : Engine} {P : MethodId → Prop}

/-- What a step does to speculation: the sends of some methods stay disabled, code
    keeps its traps, and code that is new was compiled with the history that is left
    by the step. -/
structure Learns (P : MethodId → Prop) (e e' : Engine) : Prop where
  disabled : ∀ m bci, P m → (m, bci) ∈ e.traps.disabled → (m, bci) ∈ e'.traps.disabled
  code : ∀ i, e'.code.speculations i = e.code.speculations i ∨
    e.code.get? i = none ∧ ∃ n, e'.code.get? i = some n ∧ n.CompiledAgainst e'.traps

theorem Learns.of_code (hcode : ∀ i, e'.code.speculations i = e.code.speculations i)
    (htraps : e'.traps = e.traps) :
    Learns P e e' where
  disabled _ _ _ hmem := htraps ▸ hmem
  code i := .inl (hcode i)

theorem Learns.of_eq (hcode : e'.code = e.code) (htraps : e'.traps = e.traps) : Learns P e e' :=
  .of_code (fun _ => hcode ▸ rfl) htraps

/-- A step after one in which nothing was compiled. -/
theorem Learns.after (h : Learns P e₁ e')
    (hcode : ∀ i, e₁.code.speculations i = e.code.speculations i)
    (hdisabled : ∀ m bci, P m → (m, bci) ∈ e.traps.disabled → (m, bci) ∈ e₁.traps.disabled) :
    Learns P e e' where
  disabled m bci hm hmem := h.disabled m bci hm (hdisabled m bci hm hmem)
  code i := by
    rcases h.code i with hsame | ⟨hnone, hnew⟩
    · exact .inl (hsame.trans (hcode i))
    · have hi := hcode i
      rw [CodeTable.speculations, hnone] at hi
      exact .inr ⟨Option.map_eq_none_iff.1 hi.symm, hnew⟩

theorem Learns.orElse {α : Type} {x : Except Fault (Engine × α)}
    (h : ∀ e' a, x = .ok (e', a) → Learns P e e') :
    Learns P e (e.orElse x) := by
  rcases x with f | ⟨e', a⟩
  · exact .of_eq rfl rfl
  · exact h e' a rfl

/-! ## Upkeep -/

/-- Where the traps of code stand. -/
def trapsOf? (e : Engine) (i : NativeId) : Option (List ScopeDesc × List TrapSite) :=
  (e.code.get? i).map fun n => (n.scopes, n.traps)

/-- What code speculates on is known from its scopes and traps. -/
theorem speculations_eq (e : Engine) (i : NativeId) :
    e.code.speculations i = (e.trapsOf? i).map fun x =>
    x.2.map fun s => (x.1.find? (·.offset = s.scope)).map fun d => (d.method, s.bci) := by
  rw [CodeTable.speculations, trapsOf?, Option.map_map]
  rfl

/-- What upkeep does to speculation: the history stays, and so do the traps of code that is not
    new. -/
structure Compiles (e e' : Engine) : Prop where
  traps : e'.traps = e.traps
  code : ∀ i, e'.trapsOf? i = e.trapsOf? i ∨
    e.code.get? i = none ∧ ∃ n, e'.code.get? i = some n ∧ n.CompiledAgainst e.traps

theorem Compiles.of_eq (hcode : ∀ i, e'.trapsOf? i = e.trapsOf? i) (htraps : e'.traps = e.traps) :
    e.Compiles e' :=
  ⟨htraps, fun i => .inl (hcode i)⟩

theorem Compiles.trans (h : e.Compiles e₁) (h' : e₁.Compiles e') : e.Compiles e' where
  traps := h'.traps.trans h.traps
  code i := by
    rcases h'.code i with hsame' | ⟨hnone', n, hn, hnew⟩
    · rcases h.code i with hsame | ⟨hnone, n, hn, hnew⟩
      · exact .inl (hsame'.trans hsame)
      · -- Code that was compiled first has its traps still.
        rw [trapsOf?, trapsOf?, hn, Option.map_some] at hsame'
        obtain ⟨n', hn', heq⟩ := Option.map_eq_some_iff.1 hsame'
        obtain ⟨hscopes, htraps⟩ := Prod.mk.inj heq
        obtain ⟨c, t, key, method, level, comp, hcompile, hc, hscopes', htraps'⟩ := hnew
        exact .inr ⟨hnone, n', hn',
          c, t, key, method, level, comp, hcompile, hc, hscopes.trans hscopes',
          htraps.trans htraps'⟩
    · rcases h.code i with hsame | ⟨-, n₁, hn₁, -⟩
      · rw [trapsOf?, hnone', trapsOf?] at hsame
        exact .inr ⟨Option.map_eq_none_iff.1 hsame.symm, n, hn, h.traps ▸ hnew⟩
      · rw [hn₁] at hnone'
        cases hnone'

/-- Outside a trap chores do nothing to traps but compile new ones. -/
theorem Chore.compiles (h : e.Chore false e') : e.Compiles e' := by
  cases h with
  | aside => exact .of_eq (fun _ => rfl) rfl
  | link => exact .of_eq (fun _ => rfl) rfl
  | @install k level comp code id hprepare hinstall =>
    rw [prepare] at hprepare
    obtain ⟨m, -, hcompile⟩ := exists_ok_of_bind hprepare
    refine ⟨rfl, fun i => ?_⟩
    by_cases hi : i = id
    · -- The new code was compiled with the history that is left.
      subst hi
      obtain ⟨version, hself⟩ := CodeTable.get?_install_self hinstall
      refine .inr ⟨CodeTable.get?_eq_none_of_install hinstall, _, hself, ?_⟩
      exact ⟨e.compiler, _, k, m, level, comp, hcompile, rfl, rfl, rfl⟩
    · refine .inl ?_
      rw [trapsOf?, CodeTable.get?_install hinstall hi, trapsOf?, Option.map_map]
      congr 1
      funext n
      simp only [Function.comp_apply]
      split
      · rfl
      · rfl
  | count i ticks =>
    refine .of_eq (fun j => ?_) rfl
    rw [trapsOf?, CodeTable.get?_modify, trapsOf?, Option.map_map]
    congr 1
    funext n
    simp only [Function.comp_apply]
    split
    · rfl
    · rfl
  | patch h => cases h
  | invalidate h => cases h

theorem Upkeep.compiles (h : e.Upkeep false e') : e.Compiles e' :=
  h.induction (P := e.Compiles) (fun _ _ hchore hcompiles => hcompiles.trans hchore.compiles)
    (.of_eq (fun _ => rfl) rfl)

/-- Compilations learn nothing, and forget nothing. -/
theorem Compiles.learns (h : e.Compiles e') : Learns P e e' where
  disabled _ _ _ hmem := h.traps ▸ hmem
  code i := by
    rcases h.code i with hsame | ⟨hnone, n, hn, hnew⟩
    · exact .inl (by rw [speculations_eq, hsame, speculations_eq])
    · exact .inr ⟨hnone, n, hn, h.traps ▸ hnew⟩

/-! ## Sends -/

/-- A send changes no trap. -/
theorem learns_send (e : Engine) (p : SendPlace) (r : ClassId) : Learns P e (e.send p r).state := by
  obtain ⟨-, htraps, hcode | ⟨i, f, hf, hcode⟩⟩ := e.send_changes p r
  · exact .of_eq hcode htraps
  · refine .of_code (fun j => ?_) htraps
    rw [hcode]
    refine CodeTable.speculations_modify (fun n _ => ?_) j
    obtain ⟨sites, hsites⟩ := hf n
    rw [hsites]
    rfl

/-! ## Cleanups and new methods -/

theorem speculations_cleanup (e : Engine) (i : NativeId) :
    e.cleanup.2.code.speculations i = e.code.speculations i := by
  rw [CodeTable.speculations, CodeTable.speculations]
  rcases e.get?_cleanup i with ⟨n, n', hn, hn', hclean⟩ | ⟨hn, hn'⟩
  · rw [hn, hn', Option.map_some, Option.map_some, hclean.same]
    rfl
  · rw [hn, hn']

/-- What is forgotten with a method that is taken back is about this method, and only
    if it was replaced. -/
theorem retract_traps (e : Engine) (old : MethodId) {m : MethodId} {bci : Bci}
    (hmem : (m, bci) ∈ e.traps.disabled)
    (hm : m = old → (e.classes.method? old).any (·.superseded) = false) :
    (m, bci) ∈ (e.retract old).traps.disabled := by
  rw [retract]
  split
  · next hsuperseded =>
    refine TrapHistory.mem_forget.2 ⟨hmem, fun heq => ?_⟩
    simp [hm heq] at hsuperseded
  · exact hmem

/-- A new method forgets the method in whose place it comes, and nothing else. -/
theorem learns_replaceMethod (hs : e.Sound) {c : ClassId} {d : Draft} {m' : MethodId}
    (h : e.replaceMethod c d = .ok (e', m')) :
    Learns (fun m => e.classes.localMethod? c d.selector ≠ some m) e e' := by
  rw [replaceMethod] at h
  obtain ⟨⟨classes, new⟩, hadd, h⟩ := exists_ok_of_bind h
  obtain ⟨rfl, rfl⟩ := Prod.mk.inj (Except.ok.inj h)
  rcases hold : e.classes.lookup c d.selector with _ | old
  · exact .of_code (speculations_cleanup _) rfl
  · have hcode :
        ∀ i, (retract { e with classes := classes, memo := e.memo.flush } old).code.speculations i =
        e.code.speculations i := by
      intro i
      rw [retract]
      split
      · exact CodeTable.speculations_invalidateDependents hs.code old i
      · exact CodeTable.speculations_invalidateDependents hs.code old i
    refine ⟨fun m bci hm hmem => ?_, fun i => .inl ((speculations_cleanup _ i).trans (hcode i))⟩
    refine retract_traps _ old hmem fun heq => ?_
    -- A method that a lookup has found was not replaced before.
    obtain ⟨method, hmethod, hlive⟩ := hs.classes.wellFormed.superseded_of_lookup hold
    subst heq
    simp [ClassTable.method?_addMethod hadd (ClassTable.ne_of_addMethod hadd hmethod),
      hmethod, hm, hlive]

/-! ## Traps -/

/-- Code has trapped too often: it is invalid, and the sends of its used traps are
    disabled, among them that of the trap that has fired. -/
structure Retires (e : Engine) (trap : Nat) (ret : Retired) (n : NativeMethod) (e' : Engine) :
    Prop where
  code : e.code.get? ret.native = some n
  valid : n.isValid
  site : trap < n.speculations.length
  fired : ∀ x, n.speculations[trap]? = some (some x) → x ∈ ret.disabled
  disabled : ∀ x ∈ ret.disabled, x ∈ e'.traps.disabled
  invalid : e'.IsInvalid ret.native

/-- What a trap does: code becomes invalid only if it has trapped too often, and
    nothing that was disabled is compiled as a trap again. -/
structure Trapped (e : Engine) (trap : Nat) (retired : Option Retired) (e' : Engine) : Prop where
  disabled : ∀ x ∈ e.traps.disabled, x ∈ e'.traps.disabled
  retires : ∀ ret, retired = some ret → ∃ n, e.Retires trap ret n e'
  lost : ∀ j, e.IsValid j → e'.IsInvalid j → ∃ ret, retired = some ret ∧ ret.native = j

/-- A trap, and then a change that makes no more code invalid. -/
theorem Trapped.after {trap : Nat} {retired : Option Retired} (h : e.Trapped trap retired e₁)
    (htraps : e'.traps = e₁.traps) (hkept : ∀ j, e₁.IsInvalid j → e'.IsInvalid j)
    (hnew : ∀ j, e.IsValid j → e'.IsInvalid j → e₁.IsInvalid j) : e.Trapped trap retired e' where
  disabled x hx := htraps ▸ h.disabled x hx
  retires ret hret := by
    obtain ⟨n, hn⟩ := h.retires ret hret
    exact ⟨n, hn.code, hn.valid, hn.site, hn.fired, fun x hx => htraps ▸ hn.disabled x hx,
      hkept _ hn.invalid⟩
  lost j hvalid hinvalid := h.lost j hvalid (hnew j hvalid hinvalid)

/-- Code is as valid as it was if a trap in it is marked. -/
theorem IsValid.patch {n : NativeMethod} {j : NativeId} (h : e.IsValid j)
    (hn : e.code.get? n.id = some n) (trap count : Nat) :
    IsValid { e with code := e.code.modify n.id fun _ => n.patch trap count } j := by
  obtain ⟨n', hn', hvalid⟩ := h
  rw [IsValid, CodeTable.get?_modify, hn']
  refine ⟨_, rfl, ?_⟩
  split
  · next hj =>
    subst hj
    obtain rfl := Option.some.inj (hn.symm.trans hn')
    exact hvalid
  · exact hvalid

theorem IsValid.invalidate {i j : NativeId} (h : e.IsValid j) (hj : j ≠ i) :
    IsValid { e with code := (e.code.invalidate i).2 } j := by
  obtain ⟨n, hn, hvalid⟩ := h
  refine ⟨n, ?_, hvalid⟩
  rw [CodeTable.get?_invalidate, hn, Option.map_some, if_neg hj]

/-- The code of a trap is marked, and made invalid if this was once too often. -/
theorem trapped_mark {n : NativeMethod} {s : TrapSite} {trap : Nat}
    (hn : e.code.get? n.id = some n) (hs : n.traps[trap]? = some s) :
    (∀ j, (e.mark n trap).1.code.speculations j = e.code.speculations j) ∧
      e.Trapped trap (e.mark n trap).2 (e.mark n trap).1 := by
  have hpatch : ∀ j, (e.code.modify n.id fun _ => n.patch trap (n.trapCount + 1)).speculations j =
      e.code.speculations j := by
    refine CodeTable.speculations_modify fun n' hn' => ?_
    obtain rfl := Option.some.inj (hn.symm.trans hn')
    exact n.speculations_patch trap _
  rw [mark, retire]
  split
  · next h =>
    refine ⟨fun j => (CodeTable.speculations_invalidate _ _ j).trans (hpatch j), ?_, ?_, ?_⟩
    · exact fun x hx => TrapHistory.mem_foldl_disable.2 (.inr hx)
    · intro ret hret
      obtain rfl := Option.some.inj hret
      refine ⟨n, hn, h.2, ?_, fun x hx => NativeMethod.mem_usedTraps_patch hx _,
        fun x hx => ?_, ?_⟩
      · rw [NativeMethod.speculations, List.length_map]
        exact (List.getElem?_eq_some_iff.1 hs).1
      · exact TrapHistory.mem_foldl_disable.2 (.inl hx)
      · rw [IsInvalid, CodeTable.get?_invalidate, CodeTable.get?_modify]
        simp [NativeMethod.patch, hn, NativeMethod.isValid]
    · -- No other code is made invalid.
      intro j hvalid hinvalid
      refine ⟨_, rfl, ?_⟩
      by_contra hj
      exact ((hvalid.patch hn trap _).invalidate (Ne.symm hj)).not_isInvalid hinvalid
  · refine ⟨hpatch, fun x hx => hx, fun ret hret => (by cases hret), fun j hvalid hinvalid => ?_⟩
    exact absurd hinvalid (hvalid.patch hn trap _).not_isInvalid

/-- A trap that fires compiles nothing. -/
theorem trapped_fire (hw : e.code.WellFormed) (p : ProcessId) (i trap : Nat) :
    (∀ j, (e.fire p i trap).state.code.speculations j = e.code.speculations j) ∧
      ∃ retired, e.Trapped trap retired (e.fire p i trap).state ∧
        ∀ fired, (e.fire p i trap).result = .ok fired → fired.retired = retired := by
  rcases e.fire_cases p i trap with ⟨f, hfire⟩ | ⟨n, site, hfiring, hfit⟩
  · rw [hfire]
    refine ⟨fun j => rfl, none,
      ⟨fun x hx => hx, fun ret hret => (by cases hret), fun j hvalid hinvalid => ?_⟩, ?_⟩
    · exact absurd hinvalid hvalid.not_isInvalid
    · exact fun fired h => by cases h
  · obtain ⟨-, -, -, -, -, -, -, hsite⟩ := firing_eq_ok_iff.1 hfiring
    obtain ⟨hcode, htrapped⟩ := trapped_mark (get?_of_firing hw.id_eq hfiring) hsite
    rw [fire_eq hfiring hfit]
    refine ⟨hcode, _, htrapped.after rfl (fun j h => h) fun j _ h => h, fun fired h => ?_⟩
    obtain ⟨d, -, rfl⟩ := exists_ok_of_map h
    rfl

/-- A trap, with the compilation that it may lead to. -/
theorem trapped_uncommonTrap (hw : e.code.WellFormed) (p : ProcessId) (i trap : Nat) :
    Learns P e (e.uncommonTrap p i trap).state ∧
      ∃ retired, e.Trapped trap retired (e.uncommonTrap p i trap).state ∧
        ∀ fired r, (e.uncommonTrap p i trap).result = .ok (fired, r) → fired.retired = retired := by
  obtain ⟨hcode, retired, htrapped, hretired⟩ := trapped_fire hw p i trap
  have hlearns {e' : Engine} (h : Learns P (e.fire p i trap).state e') : Learns P e e' :=
    h.after hcode fun m bci _ hmem => htrapped.disabled _ hmem
  rw [uncommonTrap, Outcome.andThen]
  split
  · next fired hfired =>
    split
    · refine ⟨hlearns (.of_eq rfl rfl), retired, htrapped.after rfl (fun j h => h) fun j _ h => h,
        fun fired r h => ?_⟩
      obtain ⟨rfl, -⟩ := Prod.mk.inj (Except.ok.inj h)
      exact hretired _ hfired
    · simp only
      split
      · refine ⟨hlearns (.of_eq rfl rfl), retired, htrapped.after rfl (fun j h => h) fun j _ h => h,
          fun fired r h => ?_⟩
        cases h
      · -- A recompilation after the trap makes no code valid again.
        next hrecompile =>
        have hupkeep : Upkeep false _ _ := upkeep_recompile hrecompile
        have hl : Learns P _ _ := hupkeep.compiles.learns
        have hsteady := hupkeep.steady
        refine ⟨hlearns ⟨hl.disabled, hl.code⟩, retired, htrapped.after hupkeep.compiles.traps ?_
          ?_, fun fired r h => ?_⟩
        · intro j hinvalid
          refine IsInvalid.advance ?_ hsteady.toAdvances
          exact hinvalid
        · rintro j ⟨n, hn, -⟩ ⟨n', hn', hinvalid⟩
          obtain ⟨n₁, hn₁, -⟩ := (upkeep_fire hw p i trap).quiet.kept j n hn
          exact ⟨n₁, hn₁, fun hvalid => hinvalid (hsteady.valid j n₁ n' hn₁ hn' hvalid)⟩
        · obtain ⟨rfl, -⟩ := Prod.mk.inj (Except.ok.inj h)
          exact hretired _ hfired
  · exact ⟨hlearns (.of_eq rfl rfl), retired, htrapped, fun fired r h => by cases h⟩

/-! ## Events -/

/-- Every event teaches the engine something, or leaves it as it is, but for what
    is forgotten with a method that it replaces. -/
theorem learns_step (h : e.Sound) (ev : Event) :
    Learns (fun m => ¬ev.replaces e m) e (e.step ev) := by
  by_cases hev : ev.isSteady
  · rcases e.upkeep_step hev with hupkeep | ⟨t, -, -, -, hstep⟩
    · exact hupkeep.compiles.learns
    · rw [hstep]
      exact .of_eq rfl rfl
  · cases ev with
    | send p r => exact learns_send e p r
    | trap p i trap => exact (trapped_uncommonTrap h.code p i trap).1
    -- What is forgotten is said by the event.
    | replace c d =>
      refine .orElse fun e' m hreplace => ?_
      have hlearns := learns_replaceMethod h hreplace
      refine ⟨fun m bci hm => hlearns.disabled m bci fun hlocal => hm ?_, hlearns.code⟩
      simp [Event.replaces, hreplace, hlocal, Except.isOk, Except.toBool]
    | cleanup => exact .of_code e.speculations_cleanup rfl
    | _ => exact absurd rfl hev

end Engine

end Warmup
