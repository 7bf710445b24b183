import Warmup.Proofs.Coherence

/-!
# Journals

The journal of a run keeps, beside the engine, what the run has left wrong in
caches and memo: keys that were looked up too early (`Journal.early`), and code
that traps have made invalid (`Journal.retired`). This is all that is ever wrong
(`Journal.Faithful`, `Faithful.run`), so it says exactly what a send does at any
moment of a run:

* `send_coherent`: which method it runs;
* `enters_invalid_iff`: when it enters invalid code.
-/

namespace Warmup

/-- An engine, and what its run has left for later. -/
structure Journal where
  engine : Engine
  /-- Keys that were looked up in vain before all classes on their chain existed,
      since the last new method. -/
  early : List LookupKey := []
  /-- Code that traps have made invalid since caches were last cleaned up. -/
  retired : List NativeId := []

namespace Journal

/-- The journal after an event. -/
def step (j : Journal) (ev : Event) : Journal where
  engine := j.engine.step ev
  early :=
    match ev with
    | .send p r => j.engine.tooEarly p r ++ j.early
    | .replace c d => if (j.engine.replaceMethod c d).isOk then [] else j.early
    | _ => j.early
  retired :=
    match ev with
    | .trap p i trap => j.engine.lost (j.engine.uncommonTrap p i trap).state ++ j.retired
    | .replace c d => if (j.engine.replaceMethod c d).isOk then [] else j.retired
    | .cleanup => []
    | _ => j.retired

/-- The journal of a run. -/
def run (j : Journal) (events : List Event) : Journal := events.foldl step j

/-- The journals of the runs of fresh machines. -/
def Reachable (j : Journal) : Prop :=
  ∃ s t events, ClassTable.Built t ∧ run { engine := .startWith s t } events = j

variable {j : Journal}

/-- A journal does not change what the engine does. -/
theorem engine_run (j : Journal) (events : List Event) :
    (j.run events).engine = j.engine.run events := by
  induction events generalizing j with
  | nil => rfl
  | cons ev events ih => exact ih (j.step ev)

/-- The engine of a journal is in a state that a run leads to. -/
theorem Reachable.engine (h : j.Reachable) : j.engine.Reachable := by
  obtain ⟨s, t, events, ht, rfl⟩ := h
  exact ⟨s, t, events, ht, (engine_run { engine := .startWith s t } events).symm⟩

/-- What the journal says is all that is wrong with caches and memo. -/
structure Faithful (j : Journal) : Prop where
  sound : j.engine.Sound
  coherent : j.engine.Coherent j.early
  guarded : j.engine.Guarded j.retired

/-- At the start nothing is wrong. -/
theorem Faithful.start (s : Settings) {t : ClassTable} (ht : t.Built) :
    Faithful { engine := .startWith s t } := by
  have hsound := Engine.Sound.start s ht
  have hcaches :
      (Engine.startWith s t).Caches fun k t' => (Engine.startWith s t).isCurrent k t' := by
    refine ⟨fun s' hs' => ?_, fun i n hn => ?_⟩
    · cases hs'
    · simp [Engine.startWith, Engine.start, CodeTable.get?] at hn
  exact ⟨hsound, Engine.coherent_of_current hsound rfl hcaches,
    Engine.guarded_of_current hsound hcaches⟩

/-- A new method puts everything right. -/
theorem Faithful.replace (h : j.Faithful) (c : ClassId) (d : Draft) :
    (j.step (.replace c d)).Faithful := by
  cases hr : j.engine.replaceMethod c d with
  | error f =>
    have hstep : j.step (.replace c d) = j := by
      simp [step, Engine.step, hr, Engine.orElse, Except.isOk, Except.toBool]
    rw [hstep]
    exact h
  | ok a =>
    obtain ⟨e', m⟩ := a
    have hstep : j.step (.replace c d) = { engine := e' } := by
      simp [step, Engine.step, hr, Engine.orElse, Except.isOk, Except.toBool]
    -- A replacement clears the memo and cleans up all caches, so nothing remains wrong.
    obtain ⟨classes, e₁, -, hret, rfl⟩ := Engine.replaceMethod_ok h.sound.code hr
    have hsound := h.sound.replace hr
    have hmemo : e₁.cleanup.2.memo.entries = [] := congrArg LookupMemo.entries hret.memo
    rw [hstep]
    exact ⟨hsound, Engine.coherent_of_current hsound hmemo e₁.caches_isCurrent_cleanup,
      Engine.guarded_of_current hsound e₁.caches_isCurrent_cleanup⟩

/-- What is wrong after an event is in the journal. -/
theorem Faithful.step (h : j.Faithful) (ev : Event) : (j.step ev).Faithful := by
  have hsound := h.sound.step ev
  have hsteady (hev : ev.isSteady) := j.engine.steady_step hev
  cases ev with
  | send p r => exact ⟨hsound, h.coherent.send h.sound p r, h.guarded.send h.sound p r⟩
  | trap p i trap =>
    have hquiet := Engine.quiet_uncommonTrap h.sound.code p i trap
    exact ⟨hsound, h.coherent.quiet hquiet, h.guarded.quiet h.sound.code hquiet⟩
  | replace c d => exact h.replace c d
  | cleanup =>
    exact ⟨hsound, h.coherent.cleanup, Engine.guarded_of_current hsound
      j.engine.caches_isCurrent_cleanup⟩
  | _ =>
    -- All other events are steady: nothing is looked up, and no code becomes invalid.
    have hsteady := hsteady rfl
    exact ⟨hsound, h.coherent.quiet hsteady.toQuiet,
      h.guarded.advance hsteady.toAdvances hsteady.valid (hsteady.caches _ h.guarded.caches)⟩

/-- What is wrong at any moment of a run is in the journal. -/
theorem Faithful.run (h : j.Faithful) (events : List Event) : (j.run events).Faithful := by
  induction events generalizing j with
  | nil => exact h
  | cons ev events ih => exact ih (h.step ev)

/-- What is wrong in a state that a run leads to is in the journal. -/
theorem Reachable.faithful (h : j.Reachable) : j.Faithful := by
  obtain ⟨s, t, events, ht, rfl⟩ := h
  exact (Faithful.start s ht).run events

/-! ## Orderly runs -/

/-- The journals of the runs of fresh machines in which all sends are orderly. -/
def Orderly (j : Journal) : Prop :=
  ∃ s t events, ClassTable.Built t ∧ (Engine.startWith s t).isOrderly events ∧
    run { engine := .startWith s t } events = j

/-- An orderly event looks up nothing too early. -/
theorem early_step (hs : j.engine.Sound) (hearly : j.early = []) {ev : Event}
    (hev : ev.isOrderly j.engine) :
    (j.step ev).early = [] := by
  cases ev with
  | send p r =>
    obtain ⟨hclosed, hr⟩ := Bool.and_eq_true_iff.1 hev
    have hnew := hs.anchored.tooEarly_eq_nil (of_decide_eq_true hclosed) hr p
    simp only [step, hnew, hearly, List.append_nil]
  | replace c d => simp only [step, hearly, ite_self]
  | _ => exact hearly

/-- In an orderly run nothing is looked up too early. -/
theorem early_run (hs : j.engine.Sound) (hearly : j.early = []) {events : List Event}
    (hevents : j.engine.isOrderly events) : (j.run events).early = [] := by
  induction events generalizing j with
  | nil => exact hearly
  | cons ev events ih =>
    obtain ⟨hev, hevents⟩ := Bool.and_eq_true_iff.1 hevents
    exact ih (hs.step ev) (early_step hs hearly hev) hevents

/-- In an orderly run nothing is looked up too early. -/
theorem Orderly.early_eq_nil (h : j.Orderly) : j.early = [] := by
  obtain ⟨s, t, events, ht, hevents, rfl⟩ := h
  exact early_run (Engine.Sound.start s ht) rfl hevents

/-! ## Dispatch under redefinition -/

variable {p : SendPlace} {c : InlineCache}

/-- At every moment of a run in which classes are defined with existing superclasses, a send of an
    interpreted method or of valid code runs the method that the lookup finds for the key of its
    cache, whatever caches and memo have served it, and that is never a method that was replaced.
    It is not understood exactly if the lookup finds nothing, or if the key was looked up in vain
    since the last new method, when a class on its chain did not exist; if there were no sends to
    classes that do not exist, that is never so. The only failure is a send of the scheduler that
    is not understood. The lookup ends unless its chain was left without an end from the start. -/
theorem send_coherent {s : Settings} {t : ClassTable} {events : List Event} (ht : t.Built)
    (hevents : (Engine.startWith s t).isFounded events)
    (hj : run { engine := .startWith s t } events = j) (hp : j.engine.InUse p)
    (hc : j.engine.cacheAt? p = some c) (r : ClassId) :
    (t.Founded → ∃ found, j.engine.classes.Resolves (c.lookupKey r) found) ∧
    ∀ found, j.engine.classes.Resolves (c.lookupKey r) found →
      ∃ o, (j.engine.send p r).result =
          (if o = .notUnderstood ∧ j.engine.processes.inScheduler then
            .error (.fatal .lookupInScheduler) else .ok o) ∧
        o.target?.map j.engine.methodOf? =
          (if c.lookupKey r ∈ j.early then none else found).map some ∧
        ((Engine.startWith s t).isOrderly events →
          o.target?.map j.engine.methodOf? = found.map some) ∧
        ∀ m, o.target?.bind j.engine.methodOf? = some m →
          ∃ e, j.engine.classes.method? m = some e ∧ e.superseded = false := by
  have hsound := Engine.Sound.start s ht
  have hfaithful : j.Faithful := hj ▸ (Faithful.start s ht).run events
  refine ⟨fun hg => ?_, fun found hfound => ?_⟩
  · -- Classes come after their superclasses, so every search ends.
    have hfounded := Engine.founded_run hsound hg hevents
    rw [← engine_run { engine := .startWith s t } events, hj] at hfounded
    exact ⟨_, hfounded.chainsEnd.resolves _⟩
  · -- What the search finds is what the table answers, and the journal says where caches differ
    -- from that.
    obtain ⟨o, htarget, hresult⟩ := (Engine.served_send hc r).result
    have hmethod := hfaithful.coherent.leadsTo hfaithful.sound hp hc r
    rw [← htarget, Engine.answer, hfound.resolve_eq] at hmethod
    refine ⟨o, hresult, hmethod, fun horderly => ?_, fun m hm => ?_⟩
    · have hearly : j.early = [] := hj ▸ early_run hsound rfl horderly
      rw [hmethod, hearly, if_neg List.not_mem_nil]
    · obtain ⟨a, ha, hm⟩ := Option.bind_eq_some_iff.1 hm
      obtain ⟨⟨m', hm', hk⟩, -⟩ := hfaithful.coherent.runs_leadsTo hfaithful.sound hp hc
        (htarget.symm.trans ha)
      cases hm.symm.trans hm'
      exact hfaithful.sound.classes.wellFormed.superseded_of_lookup hk

/-- A method of `Object`, and one that sends its selector to its argument; a send
    to a class that is not there yet, which is then defined below `Object`. -/
def sendBeforeClass : List Event := [
  .replace ⟨0⟩ { selector := ⟨0⟩, steps := [.work 1] },
  .replace ⟨0⟩ { selector := ⟨1⟩, argCount := 1, steps := [.send ⟨0⟩ (.arg 0) []] },
  .send (.interpreted ⟨1⟩ 0) ⟨9⟩, .defineClass "Point" (some ⟨0⟩)]

/-- The class exists and the lookup finds a method, but the send is still not
    understood. -/
theorem not_understood_after_defineClass :
    let e := (Engine.startWith {} .initial).run sendBeforeClass
    e.InUse (.interpreted ⟨1⟩ 0) ∧ (e.classes.class? ⟨9⟩).isSome ∧
      (e.cacheAt? (.interpreted ⟨1⟩ 0)).map (·.lookupKey ⟨9⟩) = some (.send ⟨9⟩ ⟨0⟩) ∧
      e.classes.lookup ⟨9⟩ ⟨0⟩ = some ⟨0⟩ ∧
        (e.send (.interpreted ⟨1⟩ 0) ⟨9⟩).result = .ok .notUnderstood := by
  refine ⟨trivial, by decide, by decide, by decide, rfl⟩

/-- A method that is sent, compiled and sent again, then replaced and compiled
    once more. -/
def redefinedInUse : List Event := [
  .replace ⟨0⟩ { selector := ⟨0⟩, steps := [.work 1] },
  .replace ⟨0⟩ { selector := ⟨1⟩, argCount := 1, steps := [.send ⟨0⟩ (.arg 0) []] },
  .send (.interpreted ⟨1⟩ 0) ⟨0⟩, .compile (.send ⟨0⟩ ⟨0⟩), .send (.interpreted ⟨1⟩ 0) ⟨2⟩,
  .replace ⟨0⟩ { selector := ⟨0⟩, steps := [.work 2] }, .compile (.send ⟨0⟩ ⟨0⟩)]

/-- The next send runs the new method. -/
theorem send_coherent_redefinedInUse :
    let e := Engine.startWith {} .initial
    let j := run { engine := e } redefinedInUse
    e.isFounded redefinedInUse ∧ e.isOrderly redefinedInUse ∧ j.engine.InUse (.interpreted ⟨1⟩ 0) ∧
      ∃ c o, j.engine.cacheAt? (.interpreted ⟨1⟩ 0) = some c ∧
        (j.engine.send (.interpreted ⟨1⟩ 0) ⟨0⟩).result =
          (if o = .notUnderstood ∧ j.engine.processes.inScheduler then
            .error (.fatal .lookupInScheduler) else .ok o) ∧
        o.target?.map j.engine.methodOf? = some (some ⟨2⟩) := by
  have hfounded : (Engine.startWith {} .initial).isFounded redefinedInUse := by decide +kernel
  have horderly : (Engine.startWith {} .initial).isOrderly redefinedInUse := by decide +kernel
  obtain ⟨hends, hcoherent⟩ :=
    send_coherent (p := .interpreted ⟨1⟩ 0) .initial hfounded rfl trivial rfl ⟨0⟩
  obtain ⟨found, hfound⟩ := hends ClassTable.founded_initial
  obtain ⟨o, hresult, -, htarget, -⟩ := hcoherent found hfound
  refine ⟨hfounded, horderly, trivial, _, o, rfl, hresult, (htarget horderly).trans ?_⟩
  rw [← hfound.resolve_eq]
  decide

/-! ## Invalid code -/

/-- A send enters what its cache leads to. -/
theorem leadsTo_of_result {r : ClassId} {t : Transition} {a : Target}
    (hc : j.engine.cacheAt? p = some c) (hresult : (j.engine.send p r).result = .ok t)
    (ht : t.target? = some a) : j.engine.leadsTo? c r = some a := by
  obtain ⟨t', htarget, hresult'⟩ := (Engine.served_send hc r).result
  rw [hresult] at hresult'
  split at hresult'
  · cases hresult'
  · cases hresult'
    exact htarget.symm.trans ht

/-- A send enters invalid code exactly if its cache knows that code for the class
    of the receiver, and either a trap has made it invalid since caches were last
    cleaned up, or the send itself stands in invalid code. -/
theorem enters_invalid_iff (h : j.Reachable) (p : SendPlace) (r : ClassId) (i : NativeId) :
    (∃ t, (j.engine.send p r).result = .ok t ∧ t.target? = some (.compiled i)) ∧
      j.engine.IsInvalid i ↔ ∃ c, j.engine.cacheAt? p = some c ∧ c.cached? r = some (.compiled i) ∧
        (i ∈ j.retired ∨ ¬j.engine.InUse p ∧ j.engine.IsInvalid i) := by
  have hfaithful := h.faithful
  constructor
  · rintro ⟨⟨t, hresult, htarget⟩, hinvalid⟩
    cases hc : j.engine.cacheAt? p with
    | none =>
      obtain ⟨f, hf⟩ := Engine.send_of_cacheAt?_eq_none hc r
      rw [hf] at hresult
      cases hresult
    | some c =>
      have hleads := leadsTo_of_result hc hresult htarget
      refine ⟨c, rfl, ?_⟩
      rw [Engine.leadsTo?] at hleads
      split at hleads
      · next t' hcached =>
        cases hleads
        refine ⟨hcached, ?_⟩
        by_cases hp : j.engine.InUse p
        · -- A cache in use knows valid code, and what traps have left in it.
          rcases (hfaithful.guarded.caches.cacheAt hp hc).cached hcached i
            rfl with hvalid | hretired
          · exact absurd hinvalid hvalid.not_isInvalid
          · exact .inl hretired
        · exact .inr ⟨hp, hinvalid⟩
      · -- What a lookup leads to is the current version.
        exact absurd hinvalid (hfaithful.sound.isValid_target hleads).not_isInvalid
  · rintro ⟨c, hc, hcached, hinvalid⟩
    have hleads : j.engine.leadsTo? c r = some (.compiled i) := by rw [Engine.leadsTo?, hcached]
    obtain ⟨t, htarget, hresult⟩ := (Engine.served_send hc r).result
    rw [hleads] at htarget
    have ht : t ≠ .notUnderstood := by
      rintro rfl
      cases htarget
    refine ⟨⟨t, ?_, htarget⟩, ?_⟩
    · rw [hresult, if_neg fun hn => ht hn.1]
    · rcases hinvalid with hretired | ⟨-, hinvalid⟩
      · exact hfaithful.guarded.invalid i hretired
      · exact hinvalid

/-- A method that sends to its argument, compiled before it was ever called, so
    with a trap in place of that send. A send enters the code, and then the trap
    fires, which is once too often. -/
def trapInUse : List Event := [
  .replace ⟨0⟩ { selector := ⟨0⟩, steps := [.work 1] },
  .replace ⟨0⟩ { selector := ⟨1⟩, argCount := 1, steps := [.send ⟨0⟩ (.arg 0) []] },
  .replace ⟨0⟩ { selector := ⟨2⟩, steps := [.send ⟨1⟩ .self [.self]] },
  .link ⟨1⟩, .compile (.send ⟨0⟩ ⟨1⟩), .send (.interpreted ⟨2⟩ 0) ⟨0⟩,
  .setProcesses
    { callStacks := [[{ key := .send ⟨0⟩ ⟨1⟩, method := ⟨1⟩, execution := .compiled ⟨0⟩ 0 }]] },
  .trap ⟨0⟩ 0 0]

/-- The code is invalid, and the next send enters it again. -/
theorem hit_invalid_after_trap :
    let e := (Engine.startWith { traps := { threshold := 1 } } .initial).run trapInUse
    (e.code.get? ⟨0⟩).map (·.state) = some .invalid ∧ e.InUse (.interpreted ⟨2⟩ 0) ∧
      (e.send (.interpreted ⟨2⟩ 0) ⟨0⟩).result.toOption = some (.hit (.compiled ⟨0⟩)) :=
  ⟨by decide +kernel, trivial, by decide +kernel⟩

/-- The journal of `trapInUse` has the code, so the next send enters it. -/
theorem enters_invalid_trapInUse : ∃ j : Journal, j.Reachable ∧ ⟨0⟩ ∈ j.retired ∧
    (∃ t, (j.engine.send (.interpreted ⟨2⟩ 0) ⟨0⟩).result = .ok t ∧
      t.target? = some (.compiled ⟨0⟩)) ∧
    j.engine.IsInvalid ⟨0⟩ := by
  have hreach :
      (run { engine := .startWith { traps := { threshold := 1 } } .initial } trapInUse).Reachable :=
    ⟨_, .initial, trapInUse, .initial, rfl⟩
  have hretired : ⟨0⟩ ∈ (run { engine := .startWith { traps := { threshold := 1 } } .initial }
      trapInUse).retired := by
    decide +kernel
  have hknown : ((run { engine := .startWith { traps := { threshold := 1 } } .initial }
      trapInUse).engine.cacheAt? (.interpreted ⟨2⟩ 0)).bind (·.cached? ⟨0⟩) =
        some (.compiled ⟨0⟩) := by
    decide +kernel
  obtain ⟨c, hc, hcached⟩ := Option.bind_eq_some_iff.1 hknown
  exact ⟨_, hreach, hretired, (enters_invalid_iff hreach _ _ _).2 ⟨c, hc, hcached, .inl hretired⟩⟩

end Journal

end Warmup
