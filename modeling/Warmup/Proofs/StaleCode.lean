import Warmup.Proofs.CacheHistory
import Warmup.Proofs.Journal

/-!
# Sends of invalid code

Code that has become invalid may still be running, and its sends still go through their
caches. A cleanup leaves these caches alone (`Engine.CleanedCode`), so nothing tells them
about new methods. `Journal.sendCompiled_current_iff` says what such a send runs: for a
class that its cache does not know, what the lookup finds; for one that it knows, what the
lookup found when the cache has learned it, whether or not that is still so.
-/

namespace Warmup.Journal

variable {s : Settings} {t : ClassTable} {events : List Event} {j : Journal} {p : SendPlace}
  {c : InlineCache}

/-- The method of an entry is what the lookup found when a send has put the entry there. -/
theorem exists_taught_method (ht : t.Built)
    (hc : ((Engine.startWith s t).run events).keptAt? p = some c) {x : CacheEntry}
    (hx : x ∈ c.entries) :
    ∃ before after m, events = before ++ .send p x.cls :: after ∧
      (c.lookupKey x.cls).resolve ((Engine.startWith s t).run before).classes = some m ∧
      ((Engine.startWith s t).run events).methodOf? x.target = some m := by
  obtain ⟨before, after, rfl, htarget⟩ := Engine.exists_taught (.start s ht)
    (Engine.keptAt?_start s t) hc hx
  -- Memo and code agreed with the lookup then, and code is what it was.
  have hfaithful := (Faithful.start s ht).run before
  have hengine := engine_run { engine := .startWith s t } before
  have hsound : ((Engine.startWith s t).run before).Sound := hengine ▸ hfaithful.sound
  have hmethod := (hengine ▸ hfaithful.coherent).target hsound (c.superClass.getD x.cls) c.selector
  rw [InlineCache.lookupKey] at htarget
  rw [htarget, Option.map_some] at hmethod
  obtain ⟨m, hm, hrun⟩ := Option.map_eq_some_iff.1 hmethod.symm
  refine ⟨before, after, m, rfl, (Engine.answer_eq_some_iff.1 hm).2, ?_⟩
  rw [Engine.run, List.foldl_append]
  exact Engine.methodOf?_run hsound _ hrun.symm

/-- A send of native code, valid or not, at any moment of a run. For a class that its cache
    does not know it runs what the lookup finds, if the key was not looked up too early. For
    a class that the cache knows it runs what the lookup found when a send through this cache
    has looked the class up. In valid code that is what the lookup finds now. In invalid code
    it is so exactly if the lookup finds the same as it did then. -/
theorem sendCompiled_current_iff (ht : t.Built) (hj : run { engine := .startWith s t } events = j)
    {i : NativeId} {k : Nat} (hc : j.engine.cacheAt? (.compiled i k) = some c) (r : ClassId) :
    ∃ a, (j.engine.send (.compiled i k) r).result =
        (if a = .notUnderstood ∧ j.engine.processes.inScheduler then
          .error (.fatal .lookupInScheduler) else .ok a) ∧
      (c.cached? r = none →
        a.target?.map j.engine.methodOf? = (j.engine.answer j.early (c.lookupKey r)).map some) ∧
      ∀ x, c.cached? r = some x → a.target? = some x ∧
        ∃ before after m, events = before ++ .send (.compiled i k) r :: after ∧
          (c.lookupKey r).resolve ((Engine.startWith s t).run before).classes = some m ∧
          j.engine.methodOf? x = some m ∧
          (j.engine.IsValid i → (c.lookupKey r).resolve j.engine.classes = some m) ∧
          (a.target?.map j.engine.methodOf? = ((c.lookupKey r).resolve j.engine.classes).map some ↔
            (c.lookupKey r).resolve j.engine.classes =
              (c.lookupKey r).resolve ((Engine.startWith s t).run before).classes) := by
  have hfaithful : j.Faithful := hj ▸ (Faithful.start s ht).run events
  have hengine : j.engine = (Engine.startWith s t).run events :=
    hj ▸ engine_run { engine := .startWith s t } events
  obtain ⟨a, htarget, hresult⟩ := (Engine.served_send hc r).result
  refine ⟨a, hresult, fun hnone => ?_, fun x hx => ?_⟩
  · -- What the cache does not know is looked up.
    rw [htarget, Engine.leadsTo?, hnone]
    exact hfaithful.coherent.target hfaithful.sound _ _
  · -- What it knows was learned at some send, from the lookup of then.
    rw [Engine.leadsTo?, hx] at htarget
    have hkept :
        ((Engine.startWith s t).run events).keptAt? (.compiled i k) = some c := hengine ▸ hc
    obtain ⟨before, after, m, hevents, hthen, hm⟩ :=
      exists_taught_method ht hkept (InlineCache.mem_entries_of_cached hx)
    rw [← hengine] at hm
    refine ⟨htarget, before, after, m, hevents, hthen, hm, fun hvalid => ?_, ?_⟩
    · obtain ⟨⟨m', hm', hnow⟩, -⟩ :=
        (hfaithful.coherent.caches.cacheAt (p := .compiled i k) hvalid hc).cached hx
      rw [hnow, ← hm', hm]
    · rw [htarget, Option.map_some, hm, hthen]
      rcases (c.lookupKey r).resolve j.engine.classes with _ | m' <;> simp [eq_comm]

/-- A method, and one that sends its selector to its argument. This one is compiled, is
    running and sends; then it is replaced, and the first method is replaced too. -/
def staleActivation : List Event := [
  .replace ⟨0⟩ { selector := ⟨0⟩, steps := [.work 1] },
  .replace ⟨0⟩ { selector := ⟨1⟩, argCount := 1, steps := [.send ⟨0⟩ (.arg 0) []] },
    .compile (.send ⟨0⟩ ⟨1⟩),
  .setProcesses
    { callStacks := [[{ key := .send ⟨0⟩ ⟨1⟩, method := ⟨1⟩, execution := .compiled ⟨0⟩ 0 }]] },
  .send (.compiled ⟨0⟩ 0) ⟨0⟩,
  .replace ⟨0⟩ { selector := ⟨1⟩, argCount := 1, steps := [.send ⟨0⟩ (.arg 0) []] },
  .replace ⟨0⟩ { selector := ⟨0⟩, steps := [.work 2] }]

/-- The code is invalid and still running. For a class that its cache does not know it runs
    the new method, for the class that it knows the method of the first send. -/
theorem sendCompiled_staleActivation : ∃ j c a b x before after m,
    run { engine := .startWith {} .initial } staleActivation = j ∧ j.engine.IsInvalid ⟨0⟩ ∧
    j.engine.cacheAt? (.compiled ⟨0⟩ 0) = some c ∧
    (j.engine.send (.compiled ⟨0⟩ 0) ⟨2⟩).result = .ok a ∧
      a.target?.map j.engine.methodOf? = some (some ⟨3⟩) ∧
    c.cached? ⟨0⟩ = some x ∧ (j.engine.send (.compiled ⟨0⟩ 0) ⟨0⟩).result = .ok b ∧
      b.target? = some x ∧
    staleActivation = before ++ .send (.compiled ⟨0⟩ 0) ⟨0⟩ :: after ∧
    (c.lookupKey ⟨0⟩).resolve ((Engine.startWith {} .initial).run before).classes = some m ∧
    j.engine.methodOf? x = some m := by
  obtain ⟨j, hj⟩ : ∃ j, run { engine := .startWith {} .initial } staleActivation = j := ⟨_, rfl⟩
  have hinvalid : (j.engine.code.get? ⟨0⟩).any fun n => !n.isValid := by
    rw [← hj]
    decide +kernel
  have hknown : (j.engine.cacheAt? (.compiled ⟨0⟩ 0)).any fun c =>
      c.cached? ⟨0⟩ = some (.interpreted ⟨0⟩) ∧ c.cached? ⟨2⟩ = none ∧
          c.lookupKey ⟨2⟩ = .send ⟨2⟩ ⟨0⟩ := by
    rw [← hj]
    decide +kernel
  have hrest : j.early = [] ∧ j.engine.processes.inScheduler = false ∧
      j.engine.classes.lookup ⟨2⟩ ⟨0⟩ = some ⟨3⟩ := by
    rw [← hj]
    decide +kernel
  obtain ⟨n, hn, hn'⟩ := (Option.any_eq_true _ _).1 hinvalid
  obtain ⟨c, hc, hc'⟩ := (Option.any_eq_true _ _).1 hknown
  obtain ⟨hhit, hmiss, hkey⟩ := of_decide_eq_true hc'
  obtain ⟨a, hresult, hfound, -⟩ := sendCompiled_current_iff .initial hj hc ⟨2⟩
  obtain ⟨b, hresult', -, htaught⟩ := sendCompiled_current_iff .initial hj hc ⟨0⟩
  obtain ⟨htarget, before, after, m, hevents, hthen, hm, -⟩ := htaught _ hhit
  refine ⟨j, c, a, b, _, before, after, m, hj, ⟨n, hn, by simpa using hn'⟩, hc, ?_, ?_,
    hhit, ?_, htarget, hevents, hthen, hm⟩
  · simpa [hrest.2.1] using hresult
  · rw [hfound hmiss, Engine.answer, hrest.1, if_neg List.not_mem_nil, hkey]
    exact congrArg (Option.map some) hrest.2.2
  · simpa [hrest.2.1] using hresult'

/-- That method was replaced since, and the lookup finds the new one. -/
theorem hit_superseded_staleActivation :
    let e := (Engine.startWith {} .initial).run staleActivation
    (e.code.get? ⟨0⟩).map (·.state) = some .invalid ∧
      (e.processes.callStacks.any fun stack => stack.any fun a => a.native? = some ⟨0⟩) ∧
      (e.classes.class? ⟨0⟩).isSome ∧
      (e.cacheAt? (.compiled ⟨0⟩ 0)).map (·.lookupKey ⟨0⟩) = some (.send ⟨0⟩ ⟨0⟩) ∧
      e.classes.lookup ⟨0⟩ ⟨0⟩ = some ⟨3⟩ ∧ (e.classes.method? ⟨0⟩).map (·.superseded) = some true ∧
      (e.send (.compiled ⟨0⟩ 0) ⟨0⟩).result.toOption = some (.hit (.interpreted ⟨0⟩)) := by
  decide +kernel

end Warmup.Journal
