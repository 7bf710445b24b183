import Warmup.Proofs.Speculation

/-!
# Learning from traps

Along a run, sends that are disabled stay so until their method is replaced
(`Engine.mem_disabled_run`), and code keeps its traps (`Engine.speculations_run`).
All code was installed by one of the events (`Engine.exists_installed`), so none
that is installed later has a trap for a send that is disabled, whatever key it is
compiled for (`Engine.not_mem_speculations`).

So each time that a trap makes code invalid, more is disabled than the code was
compiled with, unless methods were replaced meanwhile (`Engine.speculations_settle`).
-/

namespace Warmup

namespace Engine

variable {e e' : Engine}

/-- Whether a method is not replaced by some events. -/
def spares (e : Engine) (m : MethodId) (events : List Event) : Bool :=
  e.isAlways (fun e ev => !ev.replaces e m) events

theorem run_append (e : Engine) (events events' : List Event) :
    e.run (events ++ events') = (e.run events).run events' :=
  List.foldl_append

/-- Events that replace nothing spare all methods. -/
theorem spares_of_forall_notMem {m : MethodId} {events : List Event}
    (h : ∀ c d, .replace c d ∉ events) :
    e.spares m events := by
  induction events generalizing e with
  | nil => rfl
  | cons ev events ih =>
    have hev : ev.replaces e m = false := by
      cases ev with
      | replace c d => exact absurd List.mem_cons_self (h c d)
      | _ => rfl
    refine Bool.and_eq_true_iff.2 ⟨by simp [hev], ih fun c d hmem => ?_⟩
    exact h c d (List.mem_cons_of_mem ev hmem)

/-- Sends stay disabled until their method is replaced. -/
theorem mem_disabled_run (h : e.Sound) {m : MethodId} {bci : Bci} {events : List Event}
    (hspares : e.spares m events) (hmem : (m, bci) ∈ e.traps.disabled) :
    (m, bci) ∈ (e.run events).traps.disabled := by
  induction events generalizing e with
  | nil => exact hmem
  | cons ev events ih =>
    obtain ⟨hev, hspares⟩ := Bool.and_eq_true_iff.1 hspares
    exact ih (h.step ev) hspares ((learns_step h ev).disabled m bci (by simpa using hev) hmem)

/-- Code keeps its traps. -/
theorem speculations_run (h : e.Sound) {i : NativeId} {n : NativeMethod}
    (hn : e.code.get? i = some n) (events : List Event) :
    (e.run events).code.speculations i = some n.speculations := by
  induction events generalizing e n with
  | nil => rw [run, List.foldl_nil, CodeTable.speculations, hn, Option.map_some]
  | cons ev events ih =>
    rcases (learns_step h ev).code i with hsame | ⟨hnone, -⟩
    · rw [CodeTable.speculations, CodeTable.speculations, hn, Option.map_some] at hsame
      obtain ⟨n', hn', heq⟩ := Option.map_eq_some_iff.1 hsame
      rw [← heq]
      exact ih (h.step ev) hn'
    · rw [hn] at hnone
      cases hnone

/-- Code is installed in a run by the event after some others, compiled with the
    history that this event leaves. -/
structure Installed (e : Engine) (before : List Event) (ev : Event) (i : NativeId) : Prop where
  absent : (e.run before).code.get? i = none
  compiled : ∃ n, (e.run (before ++ [ev])).code.get? i = some n ∧
    n.CompiledAgainst (e.run (before ++ [ev])).traps

/-- Code that is new after a run was installed by one of its events. -/
theorem exists_installed (h : e.Sound) {events : List Event} {i : NativeId}
    (hnone : e.code.get? i = none) (hsome : (e.run events).code.get? i ≠ none) :
    ∃ before ev after, events = before ++ ev :: after ∧ e.Installed before ev i := by
  induction events generalizing e with
  | nil => exact absurd hnone hsome
  | cons ev events ih =>
    rcases (learns_step h ev).code i with hsame | ⟨-, hnew⟩
    · rw [CodeTable.speculations, CodeTable.speculations, hnone] at hsame
      obtain ⟨before, ev', after, heq, hinstalled⟩ :=
        ih (h.step ev) (Option.map_eq_none_iff.1 hsame) hsome
      exact ⟨ev :: before, ev', after, by rw [heq]; rfl, hinstalled.absent, hinstalled.compiled⟩
    · exact ⟨[], ev, events, rfl, hnone, hnew⟩

/-- What code speculates on was not disabled when it was installed. -/
theorem Installed.not_disabled {before after : List Event} {ev : Event} {i : NativeId}
    {n : NativeMethod} (h : e.Sound) (hinstalled : e.Installed before ev i)
    (hn : (e.run (before ++ ev :: after)).code.get? i = some n) {o : Option (MethodId × Bci)}
    (ho : o ∈ n.speculations) :
    ∃ x, o = some x ∧ x ∉ (e.run (before ++ [ev])).traps.disabled := by
  obtain ⟨n₀, hn₀, hcompiled⟩ := hinstalled.compiled
  have hkeep := speculations_run (h.run _) hn₀ after
  rw [← run_append, List.append_assoc, List.singleton_append, CodeTable.speculations, hn,
    Option.map_some] at hkeep
  exact hcompiled.not_disabled (Option.some.inj hkeep ▸ ho)

/-- Code that an event installs has no trap for a send that is disabled after the
    event. -/
theorem not_mem_speculations_step (h : e.Sound) {ev : Event} {i : NativeId} {n : NativeMethod}
    {x : MethodId × Bci} (hnone : e.code.get? i = none) (hn : (e.step ev).code.get? i = some n)
    (hx : x ∈ (e.step ev).traps.disabled) :
    some x ∉ n.speculations := by
  intro hspec
  rcases (learns_step h ev).code i with hsame | ⟨-, n', hn', hcompiled⟩
  · simp [CodeTable.speculations, hnone, hn] at hsame
  · obtain rfl := Option.some.inj (hn.symm.trans hn')
    obtain ⟨y, hy, hnot⟩ := hcompiled.not_disabled hspec
    exact hnot (Option.some.inj hy ▸ hx)

/-- Nothing that is disabled is compiled as a trap until its method is replaced. -/
theorem not_mem_speculations (h : e.Sound) {m : MethodId} {bci : Bci} {events : List Event}
    (hspares : e.spares m events) (hmem : (m, bci) ∈ e.traps.disabled) {i : NativeId}
    {n : NativeMethod} (hnone : e.code.get? i = none) (hn : (e.run events).code.get? i = some n) :
    some (m, bci) ∉ n.speculations := by
  intro hspec
  obtain ⟨before, ev, after, rfl, hinstalled⟩ := exists_installed h hnone (by rw [hn]; simp)
  obtain ⟨x, hx, hnot⟩ := hinstalled.not_disabled h hn hspec
  obtain rfl := Option.some.inj hx
  refine hnot (mem_disabled_run h ?_ hmem)
  rw [List.append_cons, spares, isAlways_append, Bool.and_eq_true] at hspares
  exact hspares.1

/-- The send of a trap that made its code invalid was not disabled when the code was
    installed, and it is now. -/
theorem Retires.exists_learned {events : List Event} {trap : Nat} {ret : Retired} {n : NativeMethod}
    (h : e.Sound) (hnone : e.code.get? ret.native = none)
    (hret : (e.run events).Retires trap ret n e') :
    ∃ x before ev after, n.speculations[trap]? = some (some x) ∧ x ∈ ret.disabled ∧
      events = before ++ ev :: after ∧
      e.Installed before ev ret.native ∧ x ∉ (e.run (before ++ [ev])).traps.disabled := by
  have hsome : (e.run events).code.get? ret.native ≠ none := by simp [hret.code]
  obtain ⟨before, ev, after, rfl, hinstalled⟩ := exists_installed h hnone hsome
  have hsite := List.getElem?_eq_getElem hret.site
  obtain ⟨x, hx, hnot⟩ := hinstalled.not_disabled h hret.code (List.mem_of_getElem? hsite)
  rw [hx] at hsite
  exact ⟨x, before, ev, after, hsite, hret.fired x hsite, rfl, hinstalled, hnot⟩

/-- In every run, sends that are disabled stay so until their method is replaced, and
    no code that is installed meanwhile has a trap for them, also not the code that is
    compiled at once by the event that disables them. A trap that makes its code
    invalid disables its send, which was not disabled when the code was installed: if
    no method was replaced since, more is disabled than the code was compiled with. -/
theorem speculations_settle (s : Settings) {t : ClassTable} (ht : t.Built) (events : List Event) :
    let start := startWith s t
    let e := start.run events
    (∀ m bci later, (m, bci) ∈ e.traps.disabled → e.spares m later →
      (m, bci) ∈ (e.run later).traps.disabled ∧
        ∀ i n, e.code.get? i = none → (e.run later).code.get? i = some n →
          some (m, bci) ∉ n.speculations) ∧
    (∀ ev i n, e.code.get? i = none → (e.step ev).code.get? i = some n →
      ∀ x ∈ (e.step ev).traps.disabled, some x ∉ n.speculations) ∧
    (∀ p i trap fired r ret, (e.uncommonTrap p i trap).result = .ok (fired, r) →
      fired.retired = some ret →
      e.IsValid ret.native ∧ (e.step (.trap p i trap)).IsInvalid ret.native ∧
        ∃ n x before ev after, e.code.get? ret.native = some n ∧
          n.speculations[trap]? = some (some x) ∧
          x ∈ ret.disabled ∧ events = before ++ ev :: after ∧ start.Installed before ev ret.native ∧
          x ∉ (start.run (before ++ [ev])).traps.disabled) ∧
    ∀ p i trap id, e.IsValid id → (e.step (.trap p i trap)).IsInvalid id →
      ∃ before ev after, events = before ++ ev :: after ∧ start.Installed before ev id ∧
        ((∀ c d, .replace c d ∉ after) →
          (start.run (before ++ [ev])).traps.disabled ⊆ (e.step (.trap p i trap)).traps.disabled ∧
            ¬(e.step (.trap p i trap)).traps.disabled ⊆
              (start.run (before ++ [ev])).traps.disabled) := by
  intro start e
  have hstart : start.Sound := .start s ht
  have hsound : e.Sound := hstart.run events
  have hnone (i : NativeId) : start.code.get? i = none := by
    simp [start, startWith, Engine.start, CodeTable.get?]
  refine ⟨fun m bci later hmem hspares => ⟨mem_disabled_run hsound hspares hmem, ?_⟩, ?_, ?_, ?_⟩
  · exact fun i n hi hn => not_mem_speculations hsound hspares hmem hi hn
  · exact fun ev i n hi hn x hx => not_mem_speculations_step hsound hi hn hx
  · intro p i trap fired r ret hresult hretired
    obtain ⟨-, retired, htrapped, hfired⟩ :=
      trapped_uncommonTrap (P := fun _ => True) hsound.code p i trap
    obtain ⟨n, hret⟩ := htrapped.retires ret ((hfired fired r hresult).symm.trans hretired)
    obtain ⟨x, before, ev, after, hx, hmem, heq, hinstalled, hnot⟩ :=
      hret.exists_learned hstart (hnone _)
    exact ⟨⟨n, hret.code, hret.valid⟩, hret.invalid, n, x, before, ev, after, hret.code, hx,
      hmem, heq, hinstalled, hnot⟩
  · intro p i trap id hvalid hinvalid
    obtain ⟨-, retired, htrapped, -⟩ :=
      trapped_uncommonTrap (P := fun _ => True) hsound.code p i trap
    obtain ⟨ret, hsome, rfl⟩ := htrapped.lost id hvalid hinvalid
    obtain ⟨n, hret⟩ := htrapped.retires ret hsome
    obtain ⟨x, before, ev, after, -, hmem, heq, hinstalled, hnot⟩ :=
      hret.exists_learned hstart (hnone _)
    refine ⟨before, ev, after, heq, hinstalled, fun hafter => ?_⟩
    refine ⟨fun y hy => ?_, fun hsubset => hnot (hsubset (hret.disabled x hmem))⟩
    -- What was disabled then was not forgotten since.
    refine htrapped.disabled y ?_
    have hrun := mem_disabled_run (hstart.run (before ++ [ev])) (spares_of_forall_notMem hafter) hy
    rwa [← run_append, ← List.append_cons, ← heq] at hrun

/-- A class with a method that sends to its argument, and a subclass that inherits
    it. -/
def inheritedSend : ClassTable :=
  ((startWith {} .initial).run [
    .replace ⟨0⟩ { selector := ⟨0⟩, steps := [.work 1] },
    .replace ⟨0⟩ { selector := ⟨1⟩, argCount := 1, steps := [.send ⟨0⟩ (.arg 0) []] },
    .defineClass "Heir" (some ⟨0⟩)]).classes

theorem built_inheritedSend : inheritedSend.Built := ((Sound.start {} .initial).run _).classes

/-- The method is compiled for its own class before it was ever called, so with a
    trap, and its code is entered. -/
def unexpectedSend : List Event := [
  .link ⟨1⟩, .compile (.send ⟨0⟩ ⟨1⟩),
  .setProcesses
    { callStacks := [[{ key := .send ⟨0⟩ ⟨1⟩, method := ⟨1⟩, execution := .compiled ⟨0⟩ 0 }]] }]

/-- The trap fires once, which is too often. The method is then compiled without it,
    also for the subclass. -/
theorem speculations_settle_unexpectedSend : ∃ start e trapped : Engine,
    start = startWith { traps := { threshold := 1 } } inheritedSend ∧ e = start.run unexpectedSend ∧
    trapped = e.step (.trap ⟨0⟩ 0 0) ∧
    (∃ fired r ret n x, (e.uncommonTrap ⟨0⟩ 0 0).result = .ok (fired, r) ∧
      fired.retired = some ret ∧
      e.code.get? ret.native = some n ∧ n.speculations[0]? = some (some x) ∧ x ∈ ret.disabled) ∧
    (∃ before ev after, unexpectedSend = before ++ ev :: after ∧ start.Installed before ev ⟨0⟩ ∧
      (start.run (before ++ [ev])).traps.disabled ⊆ trapped.traps.disabled ∧
      ¬trapped.traps.disabled ⊆ (start.run (before ++ [ev])).traps.disabled) ∧
    (⟨1⟩, 0) ∈ trapped.traps.disabled ∧
    ∃ n, trapped.code.get? ⟨2⟩ = none ∧
      (trapped.run [.compile (.send ⟨1⟩ ⟨1⟩)]).code.get? ⟨2⟩ = some n ∧
      some (⟨1⟩, 0) ∉ n.speculations := by
  -- The engines are named, so that no step below evaluates them by accident.
  obtain ⟨start, hstart⟩ :
      ∃ start, start = startWith { traps := { threshold := 1 } } inheritedSend := ⟨_, rfl⟩
  obtain ⟨e, he⟩ : ∃ e, e = start.run unexpectedSend := ⟨_, rfl⟩
  obtain ⟨trapped, htrapped⟩ : ∃ trapped, trapped = e.step (.trap ⟨0⟩ 0 0) := ⟨_, rfl⟩
  have hrun : start.run (unexpectedSend ++ [.trap ⟨0⟩ 0 0]) = trapped := by
    rw [run_append, ← he, htrapped]
    rfl
  have hretired : (e.uncommonTrap ⟨0⟩ 0 0).result.toOption.bind (·.1.retired) =
      some ⟨⟨0⟩, .send ⟨0⟩ ⟨1⟩, [(⟨1⟩, 0)], 1⟩ := by
    rw [he, hstart]
    decide +kernel
  have hdisabled : (⟨1⟩, 0) ∈ trapped.traps.disabled := by
    rw [htrapped, he, hstart]
    decide +kernel
  have hnone : (trapped.code.get? ⟨2⟩).isNone := by
    rw [htrapped, he, hstart]
    decide +kernel
  have hnew : ((trapped.run [.compile (.send ⟨1⟩ ⟨1⟩)]).code.get? ⟨2⟩).isSome := by
    rw [htrapped, he, hstart]
    decide +kernel
  have hsettle :=
    speculations_settle { traps := { threshold := 1 } } built_inheritedSend unexpectedSend
  have hstays := speculations_settle { traps := { threshold := 1 } } built_inheritedSend
    (unexpectedSend ++ [.trap ⟨0⟩ 0 0])
  simp only [← hstart, ← he, hrun] at hsettle hstays
  obtain ⟨-, -, hretires, hlost⟩ := hsettle
  obtain ⟨⟨fired, r⟩, hok, hret⟩ := Option.bind_eq_some_iff.1 hretired
  have hresult : (e.uncommonTrap ⟨0⟩ 0 0).result = .ok (fired, r) :=
    congrArg (·.result) (Outcome.eq_done_of_toOption hok)
  obtain ⟨hvalid, hinvalid, n, x, -, -, -, hn, hx, hmem, -⟩ := hretires _ _ _ _ _ _ hresult hret
  obtain ⟨before, ev, after, heq, hinstalled, hlarger⟩ := hlost _ _ _ _ hvalid hinvalid
  refine ⟨start, e, trapped, hstart, he, htrapped, ⟨fired, r, _, n, x, hresult, hret, hn, hx, hmem⟩,
    ?_, hdisabled, ?_⟩
  · refine ⟨before, ev, after, heq, hinstalled, htrapped ▸ hlarger fun c d hafter => ?_⟩
    have hreplace : Event.replace c d ∈ unexpectedSend := by
      rw [heq]
      exact List.mem_append_right before (List.mem_cons_of_mem ev hafter)
    simp [unexpectedSend] at hreplace
  · obtain ⟨n, hn⟩ := Option.isSome_iff_exists.1 hnew
    have hnone := Option.isNone_iff_eq_none.1 hnone
    have hspares : trapped.spares ⟨1⟩ [.compile (.send ⟨1⟩ ⟨1⟩)] :=
      spares_of_forall_notMem (by simp)
    exact ⟨n, hnone, hn, (hstays.1 ⟨1⟩ 0 _ hdisabled hspares).2 ⟨2⟩ n hnone hn⟩

end Engine

end Warmup
