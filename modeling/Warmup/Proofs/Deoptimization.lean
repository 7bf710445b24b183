import Warmup.Proofs.Redefinition
import Warmup.Proofs.Rewriting
import Warmup.Proofs.ScopeChains

/-!
# Deoptimization

What becomes of a table when an activation is deoptimized, as a whole
(`ProcessTable.Deoptimizes`, `deoptimizes_of_done`): which activations and
contexts are replaced, by which others, and that all else stays. From this follow

* `deoptimize_affected`: the activations that are replaced are the least set that
  must be, and nothing refers to the contexts that were replaced;
* `deoptimize_unfolds`: the stacks are as before, with the chain of its scopes in
  place of each compiled activation.

It fails only if the activation or the code of an affected one is not there
(`exists_deoptimize_iff`).
-/

namespace Warmup

/-- The activation with other contexts. -/
def Activation.mapContexts (a : Activation) (f : ContextId → ContextId) : Activation :=
  { a with own := a.own.map f, home := a.home.map f }

/-- An activation whose contexts are replaced refers to the replacements. -/
theorem Activation.references_mapContexts {a : Activation} {f : ContextId → ContextId}
    {c : ContextId} :
    (a.mapContexts f).references c ↔ ∃ c', a.references c' ∧ f c' = c := by
  simp only [references, mapContexts, Bool.or_eq_true, decide_eq_true_eq,
    Option.map_eq_some_iff, or_and_right, exists_or]

namespace ProcessTable

variable {t t' : ProcessTable} {code : CodeTable} {p : ProcessId} {i : Nat} {d : Deoptimized}
  {r : FrameRef} {a b : Activation} {c : ContextId} {fresh : ContextId → ContextId}
  {new : FrameRef → List Activation}

/-- The stacks of `t'` are those of `t` with the affected activations replaced in
    their places: `new` says by which ones, and `fresh` which contexts they refer
    to in place of others. -/
structure Rewrites (t t' : ProcessTable) (code : CodeTable) (affected : FrameRef → Prop)
    (fresh : ContextId → ContextId) (new : FrameRef → List Activation) : Prop where
  inPlace : t'.callStacks = t.callStacks.mapIdx fun q s =>
    (List.range s.length).flatMap fun j => new (⟨q⟩, j)
  kept : ∀ r a, t.frame? r = some a → ¬affected r → new r = [a]
  rewired : ∀ r a, t.frame? r = some a → affected r → a.execution = .interpreted →
    new r = [a.mapContexts fresh]
  converted : ∀ r a n o, t.frame? r = some a → affected r → a.execution = .compiled n o →
    ∃ m, code.get? n = some m ∧ Unfolds m (a.mapContexts fresh) o (new r)
  active : t'.active = t.active
  scheduler : t'.inScheduler = t.inScheduler

/-- What a deoptimization does and reports. -/
structure Deoptimizes (t : ProcessTable) (code : CodeTable) (p : ProcessId) (i : Nat)
    (t' : ProcessTable) (d : Deoptimized) (fresh : ContextId → ContextId)
    (new : FrameRef → List Activation) : Prop where
  converted : d.converted = (t.marked p i).filter t.compiledAt
  rewired : d.rewired = (t.marked p i).filter (!t.compiledAt ·)
  invalidated : d.invalidated = t.spoiled (t.marked p i)
  synthesized : d.synthesized = (d.converted.flatMap new).length
  renews : t.Renews t' d.invalidated fresh
  rewrites : t.Rewrites t' code (t.Affected p i) fresh new

/-! ## What is replaced by what -/

/-- An interpreted activation only gets other contexts. A compiled one gives a stack of interpreted
    ones. -/
theorem replacement_cases {replaced : List (ContextId × ContextId)} {l : List Activation}
    (h : a.replacement code replaced = .ok l) :
    a.execution = .interpreted ∧ l = [a.redirect replaced] ∨
      ∃ n o m, a.execution = .compiled n o ∧ code.get? n = some m ∧
        Unfolds m (a.redirect replaced) o l := by
  rw [Activation.replacement] at h
  rcases hexec : a.execution with _ | ⟨n, o⟩
  · rw [hexec] at h
    exact .inl ⟨rfl, (Except.ok.inj h).symm⟩
  · rw [hexec] at h
    obtain ⟨m, hm, h⟩ := exists_ok_of_bind h
    exact .inr ⟨n, o, m, rfl, CodeTable.get_ok hm, unfolds_of_unfoldActivation h⟩

/-- An activation has a replacement if it is interpreted, or if its code is there
    and its scope has a chain. -/
theorem exists_replacement_iff (replaced : List (ContextId × ContextId)) :
    (∃ l, a.replacement code replaced = .ok l) ↔ ∀ n o, a.execution = .compiled n o →
      ∃ m chain, code.get? n = some m ∧ m.ChainTo o a.bci chain := by
  rw [Activation.replacement]
  rcases a.execution with _ | ⟨n, o⟩
  · simp
  · rcases hm : code.get? n with _ | m
    · simp [CodeTable.get, hm, bind, Except.bind]
    · have hchain := exists_unfoldActivation_iff (n := m) (a := a.redirect replaced) (o := o)
      have hbci : (a.redirect replaced).bci = a.bci := rfl
      rw [hbci] at hchain
      simpa [CodeTable.get, hm, bind, Except.bind] using hchain

/-- Replacing contexts leaves the stacks alone. -/
theorem replaceContexts_frame? (t : ProcessTable) (cs : List ContextId) (r : FrameRef) :
    (t.replaceContexts cs).1.frame? r = t.frame? r := by
  rw [frame?, (t.replaceContexts_frame cs).1, frame?]

/-- A deoptimization replaces contexts, and then all activations at once. -/
theorem deoptimize_eq_done_iff :
    let u := t.replaceContexts (t.spoiled (t.marked p i))
    let l := (t.marked p i).reverse
    t.deoptimize code p i = .done t' d ↔ (∃ a, t.frame? (p, i) = some a) ∧
      u.1.Replaceable code u.2 l ∧ t' = u.1.spread (standIns code u.2 l) ∧
        d = u.1.reported (standIns code u.2 l) l { invalidated := t.spoiled (t.marked p i) } := by
  intro u l
  -- Activations are replaced from the newest on, so that the places of the others stay valid.
  have hl : l.Pairwise fun r r' => r'.Before r := List.pairwise_reverse.2 (t.pairwise_marked p i)
  rw [deoptimize]
  rcases hframe : t.frame p i with f | a
  · have hnot : ¬∃ a, t.frame? (p, i) = some a := by
      rintro ⟨a, ha⟩
      rw [frame_eq_ok_iff.2 ha] at hframe
      cases hframe
    simp [hnot, Outcome.fail, Outcome.done]
  · have ha : ∃ a, t.frame? (p, i) = some a := ⟨a, frame_eq_ok_iff.1 hframe⟩
    simp only [ha, true_and]
    exact replaceFrames_eq_done_iff hl

/-- Replacing contexts does not change which activations are compiled. -/
theorem replaceContexts_compiledAt (t : ProcessTable) (cs : List ContextId) :
    (t.replaceContexts cs).1.compiledAt = t.compiledAt := by
  funext r
  rw [compiledAt, replaceContexts_frame?, compiledAt]

/-- The contexts that are replaced exist, and are replaced once. -/
theorem renews_spoiled (t : ProcessTable) (p : ProcessId) (i : Nat) :
    t.Renews (t.replaceContexts (t.spoiled (t.marked p i))).1 (t.spoiled (t.marked p i))
      (redirect (t.replaceContexts (t.spoiled (t.marked p i))).2) := by
  refine renews_replaceContexts ((t.pairwise_spoiled _).imp fun hlt heq => ?_) fun c hc => ?_
  · exact Nat.ne_of_lt hlt (congrArg (·.index) heq)
  · obtain ⟨r, -, a, -, -, -, e, he, -⟩ := mem_spoiled_iff.1 hc
    exact ⟨e, he⟩

/-- Activations of a table `u` that has the stacks of `t` are replaced. -/
theorem rewrites_spread {u : ProcessTable} {replaced : List (ContextId × ContextId)}
    {l : List FrameRef} {affected : FrameRef → Prop}
    (hu : u.callStacks = t.callStacks ∧ u.active = t.active ∧ u.inScheduler = t.inScheduler)
    (hmem : ∀ r, r ∈ l ↔ affected r) (h : u.Replaceable code replaced l) :
    t.Rewrites (u.spread (standIns code replaced l)) code affected (redirect replaced)
      fun r => (t.frame? r).elim [] (standIns code replaced l r) := by
  have hframe (r : FrameRef) : u.frame? r = t.frame? r := by rw [frame?, hu.1, frame?]
  -- What stands in for an affected activation is its replacement.
  have hnew {r : FrameRef} {a : Activation} (ha : t.frame? r = some a) (hr : affected r) :
      a.replacement code replaced = .ok (standIns code replaced l r a) := by
    obtain ⟨b, new, hb, hnew⟩ := h r ((hmem r).2 hr)
    rw [hframe, ha] at hb
    cases hb
    rw [standIns_of_mem ((hmem r).2 hr) hnew, hnew]
  constructor
  case inPlace =>
    rw [callStacks_spread, hu.1]
    simp only [hframe]
  case kept =>
    intro r a ha hr
    rw [ha]
    exact standIns_of_not_mem fun h => hr ((hmem r).1 h)
  case rewired =>
    intro r a ha hr hexec
    rw [ha]
    rcases replacement_cases (hnew ha hr) with ⟨-, hself⟩ | ⟨n, o, m, hexec', -⟩
    · exact hself
    · rw [hexec] at hexec'
      cases hexec'
  case converted =>
    intro r a n o ha hr hexec
    rw [ha]
    rcases replacement_cases (hnew ha hr) with ⟨hexec', -⟩ | ⟨n', o', m, hexec', hm, hunfolds⟩
    · rw [hexec] at hexec'
      cases hexec'
    · rw [hexec] at hexec'
      cases hexec'
      exact ⟨m, hm, hunfolds⟩
  case active => exact hu.2.1
  case scheduler => exact hu.2.2

/-- A deoptimization that succeeds does all that `Deoptimizes` says. -/
theorem deoptimizes_of_done (h : t.deoptimize code p i = .done t' d) :
    ∃ fresh new, t.Deoptimizes code p i t' d fresh new := by
  obtain ⟨-, hreplaceable, rfl, rfl⟩ := deoptimize_eq_done_iff.1 h
  have hrenews := t.renews_spoiled p i
  have hmem (r : FrameRef) : r ∈ (t.marked p i).reverse ↔ t.Affected p i r := by
    rw [List.mem_reverse, mem_marked_iff]
  refine ⟨_, _, ?_, ?_, rfl, ?_, ?_, rewrites_spread (t.replaceContexts_frame _) hmem hreplaceable⟩
  · simp [reported, replaceContexts_compiledAt]
  · simp [reported, replaceContexts_compiledAt]
  · simp only [reported, replaceContexts_compiledAt, replaceContexts_frame?,
      Nat.zero_add, List.append_nil]
    exact ((List.reverse_perm _).flatMap_right _).length_eq.symm
  · exact ⟨hrenews.invalid, hrenews.renewed, hrenews.injective, hrenews.kept, hrenews.added⟩

/-! ## When it succeeds -/

/-- The activation must be there, and every compiled activation that is affected
    must have code with a chain of its scope. -/
theorem exists_deoptimize_iff : (∃ t' d, t.deoptimize code p i = .done t' d) ↔
    (∃ a, t.frame? (p, i) = some a) ∧ ∀ r a n o, t.Affected p i r → t.frame? r = some a →
      a.execution = .compiled n o → ∃ m chain, code.get? n = some m ∧ m.ChainTo o a.bci chain := by
  simp only [deoptimize_eq_done_iff, exists_and_left, exists_eq, and_true]
  refine and_congr_right fun _ => ?_
  simp only [Replaceable, List.mem_reverse, mem_marked_iff, replaceContexts_frame?, exists_and_left,
    exists_replacement_iff]
  constructor
  · intro h r a n o hr ha hexec
    obtain ⟨b, hb, hchain⟩ := h r hr
    obtain rfl : a = b := Option.some.inj (ha.symm.trans hb)
    exact hchain n o hexec
  · intro h r hr
    obtain ⟨a, ha⟩ := hr.exists_frame
    exact ⟨a, ha, fun n o => h r a n o hr ha⟩

/-! ## What is left of an activation -/

/-- The activations that are reported as converted are the compiled ones that were affected. -/
theorem Deoptimizes.mem_converted (h : t.Deoptimizes code p i t' d fresh new) :
    r ∈ d.converted ↔ t.Affected p i r ∧ t.compiledAt r := by
  rw [h.converted, List.mem_filter, mem_marked_iff]

/-- Those reported as rewired are the interpreted ones that were affected. -/
theorem Deoptimizes.mem_rewired (h : t.Deoptimizes code p i t' d fresh new) :
    r ∈ d.rewired ↔ t.Affected p i r ∧ ¬t.compiledAt r := by
  rw [h.rewired, List.mem_filter, mem_marked_iff, Bool.not_eq_true, Bool.not_eq_true']

/-- The contexts that are reported are those that affected activations spoil. -/
theorem Deoptimizes.mem_invalidated (h : t.Deoptimizes code p i t' d fresh new) :
    c ∈ d.invalidated ↔ ∃ r, t.Affected p i r ∧ t.Spoils r c := by
  rw [h.invalidated, mem_spoiled_marked_iff]

/-- Only contexts that are there are reported. -/
theorem Deoptimizes.exists_context?_of_mem_invalidated (h : t.Deoptimizes code p i t' d fresh new) :
    ∀ c ∈ d.invalidated, ∃ e, t.context? c = some e := by
  intro c hc
  obtain ⟨r, -, a, -, -, -, e, he, -⟩ := h.mem_invalidated.1 hc
  exact ⟨e, he⟩

/-- The activations after all were replaced. -/
theorem Rewrites.exists_frame?_iff {affected : FrameRef → Prop}
    (h : t.Rewrites t' code affected fresh new) :
    (∃ r, t'.frame? r = some b) ↔ ∃ r a, t.frame? r = some a ∧ b ∈ new r := by
  constructor
  · rintro ⟨⟨⟨q⟩, k⟩, hb⟩
    obtain ⟨s', hs', hb⟩ := frame?_eq_some_iff.1 hb
    rw [h.inPlace, List.getElem?_mapIdx] at hs'
    obtain ⟨s, hs, rfl⟩ := Option.map_eq_some_iff.1 hs'
    obtain ⟨j, hj, hb⟩ := List.mem_flatMap.1 (List.mem_of_getElem? hb)
    have ha := List.getElem?_eq_getElem (List.mem_range.1 hj)
    exact ⟨(⟨q⟩, j), _, frame?_eq_some_iff.2 ⟨s, hs, ha⟩, hb⟩
  · rintro ⟨⟨⟨q⟩, j⟩, a, ha, hb⟩
    obtain ⟨s, hs, ha⟩ := frame?_eq_some_iff.1 ha
    have hmem : b ∈ (List.range s.length).flatMap fun j => new (⟨q⟩, j) :=
      List.mem_flatMap.2 ⟨j, List.mem_range.2 (List.getElem?_eq_some_iff.1 ha).1, hb⟩
    obtain ⟨k, hk⟩ := List.mem_iff_getElem?.1 hmem
    refine ⟨(⟨q⟩, k), frame?_eq_some_iff.2 ⟨_, ?_, hk⟩⟩
    rw [h.inPlace, List.getElem?_mapIdx, hs]
    rfl

/-- What replaces an affected activation refers to the fresh contexts in place of
    its own ones. -/
theorem Rewrites.exists_references_iff {affected : FrameRef → Prop}
    (h : t.Rewrites t' code affected fresh new) (ha : t.frame? r = some a) (hr : affected r) :
    (∃ b ∈ new r, b.references c) ↔ ∃ c', a.references c' ∧ fresh c' = c := by
  rw [← Activation.references_mapContexts]
  rcases hexec : a.execution with _ | ⟨n, o⟩
  · rw [h.rewired r a ha hr hexec]
    simp
  · obtain ⟨m, -, hunfolds⟩ := h.converted r a n o ha hr hexec
    exact hunfolds.exists_references_iff

/-- No activation refers to a context that was replaced: those that did are
    affected. -/
theorem Deoptimizes.not_references (h : t.Deoptimizes code p i t' d fresh new)
    (hb : t'.frame? r = some b) (hc : c ∈ d.invalidated) : ¬b.references c := by
  intro href
  obtain ⟨r', a, ha, hmem⟩ := h.rewrites.exists_frame?_iff.1 ⟨r, hb⟩
  by_cases hr' : t.Affected p i r'
  · obtain ⟨c', -, rfl⟩ := (h.rewrites.exists_references_iff ha hr').1 ⟨b, hmem, href⟩
    exact h.renews.fresh_not_mem h.exists_context?_of_mem_invalidated c' hc
  · rw [h.rewrites.kept r' a ha hr', List.mem_singleton] at hmem
    obtain ⟨r'', hr'', hspoils⟩ := h.mem_invalidated.1 hc
    exact hr' (.refers hr'' hspoils ha (hmem ▸ href))

/-- Among all affected activations none is left compiled. -/
theorem Rewrites.interpreted_of_mem {affected : FrameRef → Prop}
    (h : t.Rewrites t' code affected fresh new) (ha : t.frame? r = some a) (hr : affected r)
    (hb : b ∈ new r) : b.execution = .interpreted := by
  rcases hexec : a.execution with _ | ⟨n, o⟩
  · rw [h.rewired r a ha hr hexec, List.mem_singleton] at hb
    rw [hb]
    exact hexec
  · obtain ⟨m, -, hunfolds⟩ := h.converted r a n o ha hr hexec
    exact hunfolds.interpreted b hb

/-! ## How stacks grow -/

/-- What is reported is in the order of the stacks. -/
theorem Deoptimizes.pairwise_converted (h : t.Deoptimizes code p i t' d fresh new) :
    d.converted.Pairwise FrameRef.Before :=
  h.converted ▸ (t.pairwise_marked p i).filter _

theorem Deoptimizes.pairwise_rewired (h : t.Deoptimizes code p i t' d fresh new) :
    d.rewired.Pairwise FrameRef.Before :=
  h.rewired ▸ (t.pairwise_marked p i).filter _

/-- The converted activations of one process, by their places on its stack. -/
theorem Deoptimizes.converted_perm (h : t.Deoptimizes code p i t' d fresh new) {q : Nat}
    {s : List Activation} (hs : t.callStacks[q]? = some s) :
    (d.converted.filter (·.1 = ⟨q⟩)).Perm
      (((List.range s.length).filter fun j => (⟨q⟩, j) ∈ d.converted).map fun j => (⟨q⟩, j)) := by
  have hnodup : d.converted.Nodup := h.pairwise_converted.imp FrameRef.Before.ne
  refine (List.perm_ext_iff_of_nodup (hnodup.filter _) ?_).2 ?_
  · exact (List.nodup_range.filter _).map fun j j' hjj' => congrArg (·.2) hjj'
  · rintro ⟨q', j⟩
    simp only [List.mem_filter, List.mem_map, List.mem_range, decide_eq_true_eq, Prod.mk.injEq]
    constructor
    · rintro ⟨hr, rfl⟩
      obtain ⟨a, ha⟩ := (h.mem_converted.1 hr).1.exists_frame
      obtain ⟨s', hs', ha⟩ := frame?_eq_some_iff.1 ha
      obtain rfl : s = s' := Option.some.inj (hs.symm.trans hs')
      exact ⟨j, ⟨(List.getElem?_eq_some_iff.1 ha).1, hr⟩, rfl, rfl⟩
    · rintro ⟨j', ⟨-, hr⟩, rfl, rfl⟩
      exact ⟨hr, rfl⟩

/-- An activation that is not converted is replaced by one. -/
theorem Deoptimizes.length_eq_one (h : t.Deoptimizes code p i t' d fresh new)
    (ha : t.frame? r = some a) (hr : r ∉ d.converted) : (new r).length = 1 := by
  rw [h.mem_converted, not_and] at hr
  by_cases haffected : t.Affected p i r
  · have hexec : a.execution = .interpreted := by
      have hcompiled := hr haffected
      rw [compiledAt, ha, Option.any_some, Activation.isCompiled] at hcompiled
      simpa using hcompiled
    rw [h.rewrites.rewired r a ha haffected hexec]
    rfl
  · rw [h.rewrites.kept r a ha haffected]
    rfl

/-- A stack grows by what its converted activations give, less these themselves. -/
theorem Deoptimizes.length_add (h : t.Deoptimizes code p i t' d fresh new) {q : Nat}
    {s : List Activation} (hs : t.callStacks[q]? = some s) :
    ∃ s', t'.callStacks[q]? = some s' ∧
      s'.length + (d.converted.filter (·.1 = ⟨q⟩)).length =
        s.length + ((d.converted.filter (·.1 = ⟨q⟩)).flatMap new).length := by
  have hperm := h.converted_perm hs
  refine ⟨_, by rw [h.rewrites.inPlace, List.getElem?_mapIdx, hs, Option.map_some], ?_⟩
  rw [hperm.length_eq, (hperm.flatMap_right new).length_eq, List.length_map, List.flatMap_map,
    length_flatMap_add_length_filter, List.length_range]
  intro j hj hr
  have ha := List.getElem?_eq_getElem (List.mem_range.1 hj)
  exact h.length_eq_one (frame?_eq_some_iff.2 ⟨s, hs, ha⟩) (by simpa using hr)

/-! ## Main results -/

/-- A deoptimization replaces what it must and no more: the least set of
    activations that has the given one and all newer ones of its process, and
    with a compiled activation that has laid out an optimized context all that
    refer to this context. The contexts of these are replaced by fresh ones, one
    by one, and nothing refers to them any longer. -/
theorem deoptimize_affected (t : ProcessTable) (code : CodeTable) (p : ProcessId) (i : Nat) :
    ((∃ t' d, t.deoptimize code p i = .done t' d) ↔
      (∃ a, t.frame? (p, i) = some a) ∧ ∀ r a n o, t.Affected p i r → t.frame? r = some a →
        a.execution = .compiled n o → ∃ m chain, code.get? n = some m ∧ m.ChainTo o a.bci chain) ∧
    ∀ t' d, t.deoptimize code p i = .done t' d →
      (d.converted.Pairwise FrameRef.Before ∧ ∀ r, r ∈ d.converted ↔
        t.Affected p i r ∧ t.compiledAt r) ∧
      (d.rewired.Pairwise FrameRef.Before ∧ ∀ r, r ∈ d.rewired ↔
        t.Affected p i r ∧ ¬t.compiledAt r) ∧
      (d.invalidated.Pairwise (·.index < ·.index) ∧
        ∀ c, c ∈ d.invalidated ↔ ∃ r, t.Affected p i r ∧ t.Spoils r c) ∧
      (∃ fresh new, t.Renews t' d.invalidated fresh ∧
        t.Rewrites t' code (t.Affected p i) fresh new) ∧
      ∀ r b c, t'.frame? r = some b → c ∈ d.invalidated → ¬b.references c := by
  refine ⟨exists_deoptimize_iff, fun t' d h => ?_⟩
  obtain ⟨fresh, new, hd⟩ := deoptimizes_of_done h
  refine ⟨⟨hd.pairwise_converted, fun r => hd.mem_converted⟩,
    ⟨hd.pairwise_rewired, fun r => hd.mem_rewired⟩,
    ⟨?_, fun c => hd.mem_invalidated⟩, ⟨fresh, new, hd.renews, hd.rewrites⟩,
    fun r b c => hd.not_references⟩
  rw [hd.invalidated]
  exact t.pairwise_spoiled _

/-- A method (2) that calls another one (1), which calls a third one (0), and a
    block in the first one (3) that calls the second one. -/
def nestedCalls : List Event := [
  .replace ⟨0⟩ { selector := ⟨0⟩, steps := [.work 1] },
  .replace ⟨0⟩ { selector := ⟨1⟩, argCount := 1, steps := [.work 1, .send ⟨0⟩ (.arg 0) []] },
  .replace ⟨0⟩ { selector := ⟨2⟩, steps := [.send ⟨1⟩ .self [.self]] },
  .addBlock ⟨2⟩ { selector := ⟨3⟩, argCount := 1, steps := [.send ⟨1⟩ .self [.arg 0]] }]

/-- The first method and its block are compiled, with what they call. -/
def inlinedCalls : Engine :=
  (((Engine.startWith {} .initial).run nestedCalls).step (.compile (.send ⟨0⟩ ⟨2⟩))).step
    (.compile (.given ⟨0⟩ ⟨3⟩))

/-- Three processes: a compiled activation of the first one has laid out a context
    that a compiled block of the second one refers to, and this has laid out a
    context that an interpreted block of the third one refers to. -/
def sharedContexts : ProcessTable where
  callStacks := [
    [{ key := .send ⟨0⟩ ⟨2⟩, method := ⟨2⟩ },
      { key := .send ⟨0⟩ ⟨2⟩, method := ⟨2⟩, execution := .compiled ⟨0⟩ 2, own := some ⟨0⟩ },
      { key := .send ⟨0⟩ ⟨1⟩, method := ⟨1⟩ },
      { key := .send ⟨0⟩ ⟨2⟩, method := ⟨2⟩, execution := .compiled ⟨0⟩ 1, bci := 1 }],
    [{ key := .send ⟨0⟩ ⟨2⟩, method := ⟨2⟩, execution := .compiled ⟨0⟩ 0 },
      { key := .given ⟨0⟩ ⟨3⟩, method := ⟨3⟩, execution := .compiled ⟨1⟩ 1,
        isBlock := true, own := some ⟨1⟩, home := some ⟨0⟩ }],
    [{ key := .given ⟨0⟩ ⟨3⟩, method := ⟨3⟩, isBlock := true, home := some ⟨1⟩ },
      { key := .send ⟨0⟩ ⟨2⟩, method := ⟨2⟩, execution := .compiled ⟨0⟩ 0, own := some ⟨2⟩ }]]
  contexts := [⟨⟨2⟩, true, true⟩, ⟨⟨3⟩, true, true⟩, ⟨⟨2⟩, true, true⟩]

/-- Activations of three processes share contexts, so all of them are affected. -/
theorem deoptimize_sharedContexts : ∃ t', sharedContexts.deoptimize inlinedCalls.code ⟨0⟩ 1 =
    .done t' ⟨[(⟨0⟩, 1), (⟨0⟩, 3), (⟨1⟩, 1)], [(⟨0⟩, 2), (⟨2⟩, 0)], [⟨0⟩, ⟨1⟩], 7⟩ ∧
    t'.callStacks.map (·.map (·.place.2)) = [
      [(⟨2⟩, 0), (⟨2⟩, 0), (⟨1⟩, 1), (⟨0⟩, 0), (⟨1⟩, 0), (⟨2⟩, 0), (⟨1⟩, 1)],
      [(⟨2⟩, 0), (⟨3⟩, 0), (⟨1⟩, 0)], [(⟨3⟩, 0), (⟨2⟩, 0)]] :=
  ⟨_, Outcome.eq_done_of_toOption (by decide +kernel), by decide +kernel⟩

/-- The replacement goes from process to process, and leaves alone what does not
    hang on it. -/
theorem deoptimize_affected_sharedContexts :
    ∃ t' d, sharedContexts.deoptimize inlinedCalls.code ⟨0⟩ 1 = .done t' d ∧
      d.converted = [(⟨0⟩, 1), (⟨0⟩, 3), (⟨1⟩, 1)] ∧ d.rewired = [(⟨0⟩, 2), (⟨2⟩, 0)] ∧
      d.invalidated = [⟨0⟩, ⟨1⟩] ∧ sharedContexts.Affected ⟨0⟩ 1 (⟨2⟩, 0) ∧
      ¬sharedContexts.Affected ⟨0⟩ 1 (⟨2⟩, 1) ∧
      ∀ r b c, t'.frame? r = some b → c ∈ d.invalidated → ¬b.references c := by
  obtain ⟨t', hdone, -⟩ := deoptimize_sharedContexts
  obtain ⟨⟨-, hconverted⟩, ⟨-, hrewired⟩, -, -, hreferences⟩ :=
    (deoptimize_affected _ _ _ _).2 _ _ hdone
  refine ⟨t', _, hdone, rfl, rfl, rfl, ((hrewired _).1 (by decide)).1, fun h => ?_, hreferences⟩
  exact absurd ((hconverted (⟨2⟩, 1)).2 ⟨h, by decide⟩) (by decide)

/-- The code that compiled activations run has a property. -/
def Runs (t : ProcessTable) (code : CodeTable) (P : Activation → NativeMethod → Prop) : Prop :=
  ∀ r a n o m, t.frame? r = some a → a.execution = .compiled n o → code.get? n = some m → P a m

/-- Activations that run compiled code are replaced in their places by one
    interpreted activation for each scope from the root of the code down to
    theirs. All that is needed for this is that their code has their scope. Each
    stack grows by what is put in, less what is taken out. -/
theorem deoptimize_unfolds {t : ProcessTable} {code : CodeTable}
    (hcode : t.Runs code fun _ m => m.Compiled) (p : ProcessId) (i : Nat) :
    ((∃ t' d, t.deoptimize code p i = .done t' d) ↔
      (∃ a, t.frame? (p, i) = some a) ∧ ∀ r a n o, t.Affected p i r → t.frame? r = some a →
        a.execution = .compiled n o → ∃ m s, code.get? n = some m ∧ m.scope? o = some s) ∧
    ∀ t' d, t.deoptimize code p i = .done t' d → ∃ fresh new,
      t.Rewrites t' code (t.Affected p i) fresh new ∧
      (∀ r a n o, t.Affected p i r → t.frame? r = some a → a.execution = .compiled n o →
        ∃ m chain lite bci, code.get? n = some m ∧ m.ChainTo o a.bci chain ∧
          chain.head? = some (⟨0, none, m.key, m.method, lite⟩, bci) ∧
          (new r).map (·.place) = chain.map fun e => (e.1.key, e.1.method, e.2)) ∧
      (∀ r, t.Affected p i r → ∀ b ∈ new r, b.execution = .interpreted) ∧
      (d.converted.Nodup ∧ ∀ r, r ∈ d.converted ↔ t.Affected p i r ∧ t.compiledAt r) ∧
      (∀ q s, t.callStacks[q]? = some s → ∃ s', t'.callStacks[q]? = some s' ∧
        s'.length + (d.converted.filter (·.1 = ⟨q⟩)).length =
          s.length + ((d.converted.filter (·.1 = ⟨q⟩)).flatMap new).length) ∧
      d.synthesized = (d.converted.flatMap new).length := by
  constructor
  · rw [exists_deoptimize_iff]
    refine and_congr_right fun _ =>
      ⟨fun h r a n o hr ha hexec => ?_, fun h r a n o hr ha hexec => ?_⟩
    · obtain ⟨m, chain, hm, hchain⟩ := h r a n o hr ha hexec
      obtain ⟨-, s, hs, -⟩ := hchain.eq_append hchain
      exact ⟨m, s, hm, hs⟩
    · -- In compiled code every scope has a chain of senders.
      obtain ⟨m, s, hm, hs⟩ := h r a n o hr ha hexec
      obtain ⟨chain, hchain⟩ := (hcode r a n o m ha hexec hm).exists_chainTo hs a.bci
      exact ⟨m, chain, hm, hchain⟩
  · intro t' d h
    obtain ⟨fresh, new, hd⟩ := deoptimizes_of_done h
    refine ⟨fresh, new, hd.rewrites, fun r a n o hr ha hexec => ?_, fun r hr b hb => ?_,
      ⟨hd.pairwise_converted.imp FrameRef.Before.ne, fun r => hd.mem_converted⟩,
      fun q s => hd.length_add, hd.synthesized⟩
    · obtain ⟨m, hm, hunfolds⟩ := hd.rewrites.converted r a n o ha hr hexec
      obtain ⟨chain, hchain, hplaces⟩ := hunfolds.chain
      obtain ⟨lite, bci, hhead⟩ := (hcode r a n o m ha hexec hm).head_chainTo hchain
      exact ⟨m, chain, lite, bci, hm, hchain, hhead, hplaces⟩
    · obtain ⟨a, ha⟩ := hr.exists_frame
      exact hd.rewrites.interpreted_of_mem ha hr hb

/-- The code is what the compiler makes of its methods. -/
theorem compiled_inlinedCalls : inlinedCalls.code.Compiled := by
  have hsound : ((Engine.startWith {} .initial).run nestedCalls).Sound :=
    .run (.start {} .initial) nestedCalls
  have hnone : ((Engine.startWith {} .initial).run nestedCalls).code.methods = [] := by
    decide +kernel
  refine Engine.compiled_step (hsound.step _).classes
    (Engine.compiled_step hsound.classes (fun i n hn => ?_) _) _
  rw [CodeTable.get?, hnone] at hn
  cases hn

/-- Two compiled activations of the first process become three and two. -/
theorem deoptimize_unfolds_sharedContexts :
    sharedContexts.Runs inlinedCalls.code (fun _ m => m.Compiled) ∧
      ∃ t' d fresh new, sharedContexts.deoptimize inlinedCalls.code ⟨0⟩ 1 = .done t' d ∧
        sharedContexts.Rewrites t' inlinedCalls.code (sharedContexts.Affected ⟨0⟩ 1) fresh new ∧
        t'.callStacks.map (·.length) = [7, 3, 2] ∧ (d.converted.flatMap new).length = 7 := by
  have hcode : sharedContexts.Runs inlinedCalls.code fun _ m => m.Compiled :=
    fun _ _ n _ m _ _ hm => compiled_inlinedCalls n m hm
  obtain ⟨t', hdone, hplaces⟩ := deoptimize_sharedContexts
  obtain ⟨fresh, new, hrewrites, -, -, -, -, hsynthesized⟩ :=
    (deoptimize_unfolds hcode _ _).2 _ _ hdone
  refine ⟨hcode, t', _, fresh, new, hdone, hrewrites, ?_, hsynthesized.symm⟩
  simpa [Function.comp_def] using congrArg (List.map List.length) hplaces

end ProcessTable

end Warmup
