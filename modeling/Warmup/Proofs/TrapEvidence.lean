import Warmup.Proofs.Retention

/-!
# What a trap rests on

A trap takes the place of a send, or of what is left of it behind a type case, only
where feedback says that it never ran, and nothing speaks against it
(`Compiler.TrapEvidence`). For one send this is `IsSettled.trap_iff`. Every send of a
graph is settled in its scope (`graph_settled`), and a scope without full debug
information leaves all scopes without it that are inlined into it
(`lite_of_mem_lineage`), so the same holds of graphs (`trap_iff_evidence`).

A send that feedback forbids to inline stays a send, and is flagged so.
-/

namespace Warmup

/-- What is found at a send is there. -/
theorem FeedbackTree.get?_of_find? {t : FeedbackTree} {s f : ScopeId} {bci : Bci} {k : LookupKey}
    (h : t.find? s bci k = some f) : ∃ e, t.get? f = some e ∧ e.what.key? = some k := by
  have hfound := List.find?_some h
  exact Option.bind_eq_some_iff.1 (of_decide_eq_true hfound)

/-- What is found at a send hangs there. -/
theorem FeedbackTree.Linked.scope_of_find? {t : FeedbackTree} {s f : ScopeId} {bci : Bci}
    {k : LookupKey} (hlinked : t.Linked) (h : t.find? s bci k = some f) :
    ∃ e, t.get? f = some e ∧ e.sender = some (s, bci) ∧ e.what.key? = some k := by
  obtain ⟨e, he, hkey⟩ := get?_of_find? h
  obtain ⟨e', he', hsender, -⟩ := hlinked.mem_subscopes.1 (List.mem_of_find?_eq_some h)
  obtain rfl := Option.some.inj (he.symm.trans he')
  exact ⟨e, he, hsender, hkey⟩

theorem FeedbackTree.isSome_get?_root_of_isUntaken {t : FeedbackTree} {s : ScopeId} {bci : Bci}
    (h : t.isUntaken s bci) : (t.get? root).isSome := by
  obtain ⟨w, hw, -⟩ := List.any_eq_true.1 h
  obtain ⟨x, -, e, he, -⟩ := mem_known.1 hw
  have hlength : 0 < t.scopes.length := List.length_pos_of_mem (List.mem_of_getElem? he)
  rw [get?, root, List.getElem?_eq_getElem hlength]
  rfl

/-- A send that is found at a position is a send of the graph, at this position. -/
theorem SendGraph.mem_of_sendAt? {g : SendGraph} {o : Offset} {bci : Bci} {x : SendNode}
    (h : g.sendAt? o bci = some x) :
    x ∈ g.sends ∧ x.scope = o ∧ x.bci = bci := by
  rw [sendAt?] at h
  have hplace := List.find?_some h
  exact ⟨List.mem_of_find?_eq_some h, of_decide_eq_true hplace⟩

namespace Compiler

/-- What must be known about a send for a trap to stand there: feedback that names the
    send as one that never ran, to a receiver of which nothing else is known. -/
structure TrapEvidence (c : Compiler) (t : FeedbackTree) (s : CompileScope) (site : SendSite)
    (f : ScopeId) : Prop where
  feedback : c.settings.feedback.enabled
  allowed : c.settings.inlining.uncommonTraps
  dynamic : site.isSuper = false
  unknown : s.value site.receiver = .unknown
  scope : s.feedback = some f
  untaken : t.isUntaken f site.bci
  inlinable : t.isUninlinable f site.bci = false
  /-- No trap has fired there. -/
  common : t.isUncommon f site.bci = false
  enabled : c.traps.isDisabled s.method site.bci = false

variable {c : Compiler} {t : FeedbackTree} {s : CompileScope} {site : SendSite} {r : Resolution}
  {e : ScopeId}

/-! ## One send -/

/-- What speaks against a trap: the debug information, the settings, a trap that was disabled or has
    fired. -/
theorem canTrap_iff (hs : s.feedback = some e) {bci : Bci} :
    c.canTrap t s bci ↔ s.lite = false ∧ c.settings.inlining.uncommonTraps ∧
      c.traps.isDisabled s.method bci = false ∧ t.isUncommon e bci = false := by
  simp [canTrap, hs, and_assoc]

/-- An estimate comes from feedback if it says that no other class was ever seen. -/
theorem estimate_others_iff : (c.estimate t s site).others = .untaken ↔
    c.settings.feedback.enabled ∧ ∃ f, s.feedback = some f ∧ t.isUntaken f site.bci := by
  have hpredict : ∀ p, Estimate.predict c.classes site.selector = some p → p.others ≠ .untaken := by
    intro p hp
    rw [Estimate.predict] at hp
    split_ifs at hp <;> cases hp <;> simp
  -- A prediction by selector never says that the rest is untaken.
  have hother : ((Estimate.predict c.classes site.selector).getD {}).others ≠ .untaken := by
    rcases hp : Estimate.predict c.classes site.selector with _ | p
    · simp
    · exact hpredict p hp
  rw [estimate]
  by_cases henabled : c.settings.feedback.enabled
  · rcases hs : s.feedback with _ | f
    · simpa using hother
    · by_cases htaken : t.isUntaken f site.bci
      · simp [henabled, htaken, Estimate.ofFeedback]
      · rcases hseen : Estimate.ofFeedback t f site.bci with _ | p
        · simpa [henabled, htaken, hseen] using hother
        · have hp : p.others ≠ .untaken := by
            rw [Estimate.ofFeedback, if_neg htaken] at hseen
            split_ifs at hseen <;> cases hseen <;> simp
          simpa [henabled, htaken, hseen] using hp
  · rcases hs : s.feedback with _ | f <;> simpa [henabled] using hother

/-- Where a send is untaken, its classes are those of the feedback. -/
theorem estimate_classes_of_untaken (hfeedback : c.settings.feedback.enabled)
    (hs : s.feedback = some e) (huntaken : t.isUntaken e site.bci) :
    (c.estimate t s site).classes = t.classes e site.bci := by
  simp [estimate, hs, hfeedback, Estimate.ofFeedback, huntaken]

/-- Of expected classes, a trap is left exactly if it may be, no other class was ever
    seen, and each class has got its callee. -/
theorem settleEstimate_trap_iff {p : Estimate} {arms : List (ClassId × Offset)}
    (hsub : (arms.map (·.1)).Sublist p.classes) : (c.settleEstimate t s site p arms).trap?.isSome ↔
      p.others = .untaken ∧ c.canTrap t s site.bci ∧ arms.map (·.1) = p.classes := by
  rw [settleEstimate]
  split
  · next hempty =>
    obtain hnone : arms.map (·.1) = [] := List.sublist_nil.1 (hempty ▸ hsub)
    rw [hempty, hnone]
    split
    · next hcan => exact ⟨fun _ => ⟨hcan.1, hcan.2, rfl⟩, fun _ => rfl⟩
    · next hcan => exact ⟨by rintro ⟨⟩, fun hall => absurd ⟨hall.1, hall.2.1⟩ hcan⟩
  · next hne =>
    split
    · next hnil =>
      subst hnil
      exact ⟨by rintro ⟨⟩, fun hall => absurd hall.2.2.symm hne⟩
    · split
      · next hmissing =>
        refine ⟨by rintro ⟨⟩, fun hall => ?_⟩
        have hlength := congrArg List.length hall.2.2
        rw [List.length_map] at hlength
        exact absurd hlength (Nat.ne_of_lt hmissing)
      · next hmissing =>
        -- As many callees as classes are tried, so none was left out.
        have hall : arms.map (·.1) = p.classes :=
          hsub.eq_of_length_le (by rw [List.length_map]; exact Nat.not_lt.1 hmissing)
        split
        · next hcan => exact ⟨fun _ => ⟨hcan.1, hcan.2, hall⟩, fun _ => rfl⟩
        · next hcan => exact ⟨by rintro ⟨⟩, fun hall => absurd ⟨hall.1, hall.2.1⟩ hcan⟩

/-- A send must not be inlined if feedback is used and says so. -/
theorem isUninlinable_iff (hs : s.feedback = some e) :
    c.isUninlinable t s site ↔ c.settings.feedback.enabled ∧ t.isUninlinable e site.bci := by
  simp [isUninlinable, hs]

/-- A class is known statically for a super send, and for a receiver that is known. -/
theorem staticClass?_eq_none_iff :
    staticClass? s site = none ↔ site.isSuper = false ∧ s.value site.receiver = .unknown := by
  rw [staticClass?]
  rcases hsuper : site.isSuper
  · rcases s.value site.receiver <;> simp
  · simp

/-- A send that feedback forbids to inline stays one. -/
theorem IsSettled.of_uninlinable (h : c.IsSettled t s site r) (hsuper : site.isSuper = false)
    (hvalue : s.value site.receiver = .unknown) (hun : c.isUninlinable t s site) :
    r = .send ⟨{ optimized := true, uninlinable := true }, none⟩ := by
  rw [h.eq_settle, settle_of_uninlinable (staticClass?_eq_none_iff.2 ⟨hsuper, hvalue⟩) hun]

/-- A send of which nothing is known statically has a trap exactly if there is evidence for
    it, and every class that was seen has got its callee. -/
theorem IsSettled.trap_iff (h : c.IsSettled t s site r) : r.trap?.isSome ↔ s.lite = false ∧
    ∃ e, c.TrapEvidence t s site e ∧ r.arms.map (·.1) = t.classes e site.bci := by
  rcases hclass : staticClass? s site with _ | d
  · obtain ⟨hsuper, hvalue⟩ := staticClass?_eq_none_iff.1 hclass
    by_cases hun : c.isUninlinable t s site
    · rw [h.of_uninlinable hsuper hvalue hun]
      refine ⟨by rintro ⟨⟩, ?_⟩
      rintro ⟨-, e, he, -⟩
      have := ((isUninlinable_iff he.scope).1 hun).2
      simp [he.inlinable] at this
    · have hsub := h.tried
      rw [receivers_of_dynamic hclass hun] at hsub
      have heq := h.eq_settle
      rw [settle_of_dynamic hclass hun] at heq
      have htrap : (c.settleEstimate t s site (c.estimate t s site) r.arms).trap?.isSome ↔ _ :=
        settleEstimate_trap_iff hsub
      rw [← heq, estimate_others_iff] at htrap
      rw [htrap]
      constructor
      · rintro ⟨⟨hfeedback, e, hscope, huntaken⟩, hcan, harms⟩
        obtain ⟨hlite, hallowed, henabled, hcommon⟩ := (canTrap_iff hscope).1 hcan
        have hinlinable : t.isUninlinable e site.bci = false :=
          Bool.eq_false_iff.2 fun htrue => hun ((isUninlinable_iff hscope).2 ⟨hfeedback, htrue⟩)
        exact ⟨hlite, e,
          ⟨hfeedback, hallowed, hsuper, hvalue, hscope, huntaken, hinlinable, hcommon, henabled⟩,
          harms.trans (estimate_classes_of_untaken hfeedback hscope huntaken)⟩
      · rintro ⟨hlite, e, he, harms⟩
        exact ⟨⟨he.feedback, e, he.scope, he.untaken⟩,
          (canTrap_iff he.scope).2 ⟨hlite, he.allowed, he.enabled, he.common⟩,
          harms.trans (estimate_classes_of_untaken he.feedback he.scope he.untaken).symm⟩
  · -- A callee that is known takes the place of the send, and otherwise the send stays.
    have hnone : r.trap? = none := by
      rw [h.eq_settle, settle_of_static hclass]
      rcases r.arms with _ | ⟨x, rest⟩ <;> rfl
    rw [hnone]
    refine ⟨by rintro ⟨⟩, ?_⟩
    rintro ⟨-, e, he, -⟩
    cases hclass.symm.trans (staticClass?_eq_none_iff.2 ⟨he.dynamic, he.unknown⟩)

/-! ## Sends of a graph -/

section Graph

variable {g : SendGraph} {key : LookupKey} {method : MethodId} {level : Nat} {stats : InliningStats}
  (h : c.graph t key method level = .ok (g, stats))
include h

/-- A scope without full debug information passes that on to what is inlined into it. -/
theorem lite_of_sender {i : Nat} {k a : CompileScope} {o : Offset} {bci : Bci}
    (hk : g.scopes[i]? = some k) (hsender : k.sender = some (o, bci)) (ha : g.scopes[o]? = some a)
    (hlite : a.lite) : k.lite := by
  obtain ⟨a', site, d, trail, ha', -, henter⟩ := graph_entered h hk hsender
  obtain rfl := Option.some.inj (ha.symm.trans ha')
  obtain ⟨e, m, builtin, -, -, -, hb⟩ := henter.callee
  rw [congrArg (·.scope.lite) hb]
  simp [calleeScope, hlite]

/-- A scope without full debug information leaves all that is inlined into it without. -/
theorem lite_of_mem_lineage {o : Offset} {s k : CompileScope} (hs : g.scopes[o]? = some s)
    (hk : k ∈ lineage g.scopes o) (hlite : k.lite) : s.lite := by
  have hg := graph_ordered h
  induction o using Nat.strongRecOn generalizing s with
  | ind o ih =>
    rw [hg.lineage_eq hs] at hk
    rcases List.mem_cons.1 hk with rfl | hk
    · exact hlite
    · rcases hsender : s.sender with _ | ⟨p, bci⟩
      · simp [hsender] at hk
      · rw [hsender] at hk
        obtain ⟨a, site, d, trail, ha, -, -⟩ := graph_entered h hs hsender
        exact lite_of_sender h hs hsender ha (ih p (hg.sender_lt o s p bci hs hsender) ha hk)

/-- The feedback about a scope is in the tree, if it says anything about a send. -/
theorem isSome_get?_feedback {o : Offset} (hs : g.scopes[o]? = some s)
    (hscope : s.feedback = some e) {bci : Bci} (huntaken : t.isUntaken e bci) :
    (t.get? e).isSome := by
  obtain ⟨m, -, -, hscopes, -⟩ := graph_reached h
  obtain ⟨n, trail, hreached⟩ := hscopes o s hs
  generalize hb : (⟨s, trail⟩ : Caller) = b at hreached
  generalize g.path o = p at hreached
  -- The feedback of a scope is the root of the tree, or was found in it.
  rcases hreached with hroot | ⟨-, henter, -⟩
  · obtain rfl : s = rootScope t key m := congrArg Caller.scope hb
    rw [rootScope] at hscope
    split at hscope
    · cases hscope
    · obtain rfl := Option.some.inj hscope
      exact FeedbackTree.isSome_get?_root_of_isUntaken huntaken
  · subst hb
    rw [henter.feedback] at hscope
    obtain ⟨e', -, hfound⟩ := Option.bind_eq_some_iff.1 hscope
    obtain ⟨k, hk, -⟩ := FeedbackTree.get?_of_find? hfound
    exact Option.isSome_iff_exists.2 ⟨k, hk⟩

/-- The sends of a graph are those of its scopes. One of them has a trap exactly if no
    scope around it is without full debug information, there is evidence for the trap, and
    every class that was seen has got its callee. One that feedback forbids to inline stays
    a send. -/
theorem trap_iff_evidence (hbuilt : c.classes.Built) :
    (∀ x ∈ g.sends, ∃ s m site, g.scopes[x.scope]? = some s ∧ c.classes.method? s.method = some m ∧
      site ∈ m.sends ∧ site.bci = x.bci) ∧
    ∀ (o : Offset) s m site, g.scopes[o]? = some s → c.classes.method? s.method = some m →
      site ∈ m.sends → (∃ x ∈ g.sends, x.scope = o ∧ x.bci = site.bci) ∧
      ∀ x ∈ g.sends, x.scope = o → x.bci = site.bci → x.selector = site.selector ∧
        (x.resolution.trap?.isSome ↔ (∀ k ∈ lineage g.scopes o, k.lite = false) ∧
          ∃ e, (t.get? e).isSome ∧ c.TrapEvidence t s site e ∧
            x.resolution.arms.map (·.1) = t.classes e site.bci) ∧
        (c.settings.feedback.enabled → site.isSuper = false → s.value site.receiver = .unknown →
          ∀ e, s.feedback = some e → t.isUninlinable e site.bci →
            x.resolution = .send ⟨{ optimized := true, uninlinable := true }, none⟩) := by
  have hg := graph_ordered h
  refine ⟨fun x hx => ?_, fun o s m site hs hm hsite => ⟨?_, ?_⟩⟩
  · obtain ⟨s, m, site, hs, hm, hsite, hbci, -⟩ := graph_settled h hx
    exact ⟨s, m, site, hs, hm, hsite, hbci.symm⟩
  · obtain ⟨m₀, -, -, hscopes, -⟩ := graph_reached h
    obtain ⟨n, trail, hreached⟩ := hscopes o s hs
    obtain ⟨r, hmem, -⟩ := hreached.grown.tried hm hsite
    exact ⟨_, hmem, hg.id_eq o s hs, rfl⟩
  · -- The send at a position is settled in its scope.
    rintro x hx rfl hbci
    obtain ⟨hselector, hsettled⟩ := graph_settled_at h hbuilt.wellFormed hx hs hm hsite hbci
    refine ⟨hselector, hsettled.trap_iff.trans ⟨?_, ?_⟩,
      fun hfeedback hsuper hvalue e hscope hun => ?_⟩
    · rintro ⟨hlite, e, he, harms⟩
      refine ⟨fun k hk => ?_, e, isSome_get?_feedback h hs he.scope he.untaken, he, harms⟩
      exact Bool.eq_false_iff.2 fun hlite' => by simp [lite_of_mem_lineage h hs hk hlite'] at hlite
    · rintro ⟨hlite, e, -, he, harms⟩
      exact ⟨hlite _ (hg.mem_lineage_self hs), e, he, harms⟩
    · exact hsettled.of_uninlinable hsuper hvalue ((isUninlinable_iff hscope).2 ⟨hfeedback, hun⟩)

end Graph

/-- The first send of the method has run for `True` only, the second one for too many
    classes. -/
def conditionalSeen : FeedbackTree := .ofScopes [
  { what := .interpreted (.send ⟨0⟩ ⟨0⟩) ⟨0⟩ true, sender := none, level := 0 },
  { what := .callee (.send ⟨5⟩ ⟨1⟩) ⟨1⟩ (.interpreted ⟨1⟩), sender := some (⟨0⟩, 0), level := 1 },
  { what := .untaken .uncommonBranch, sender := some (⟨0⟩, 0), level := 1 },
  { what := .uninlinable true, sender := some (⟨0⟩, 1), level := 1 }]

/-- The method of `True` is inlined, for other receivers there is a trap; the second send
    stays one. -/
theorem trap_iff_evidence_conditional : ∃ g stats s site x y, conditional.classes.Built ∧
    conditional.graph conditionalSeen (.send ⟨0⟩ ⟨0⟩) ⟨0⟩ 1 = .ok (g, stats) ∧
      g.scopes[0]? = some s ∧
    g.sendAt? 0 0 = some x ∧ x.resolution.trap?.isSome ∧ x.resolution.arms.map (·.1) = [⟨5⟩] ∧
    (∃ e, conditional.TrapEvidence conditionalSeen s site e) ∧
    g.sendAt? 0 1 = some y ∧
      y.resolution = .send ⟨{ optimized := true, uninlinable := true }, none⟩ := by
  obtain ⟨g, stats, s, x, y, h, hs, hmethod, hfeedback, hx, hy, htrap, harms⟩ : ∃ g stats s x y,
      conditional.graph conditionalSeen (.send ⟨0⟩ ⟨0⟩) ⟨0⟩ 1 = .ok (g, stats) ∧
      g.scopes[0]? = some s ∧
      s.method = ⟨0⟩ ∧ s.feedback = some ⟨0⟩ ∧ g.sendAt? 0 0 = some x ∧ g.sendAt? 0 1 = some y ∧
      x.resolution.trap?.isSome ∧ x.resolution.arms.map (·.1) = [⟨5⟩] :=
    ⟨_, _, _, _, _, rfl, rfl, rfl, rfl, rfl, rfl, rfl, rfl⟩
  obtain ⟨m, hm, hsends⟩ : ∃ m, conditional.classes.method? ⟨0⟩ = some m ∧
      m.sends = [⟨0, ⟨1⟩, .unknown, [.block ⟨3⟩], false⟩, ⟨1, ⟨0⟩, .unknown, [], false⟩] :=
        ⟨_, rfl, rfl⟩
  obtain ⟨-, hall⟩ := trap_iff_evidence h built_conditional
  obtain ⟨-, hfirst⟩ := hall 0 s m _ hs (hmethod ▸ hm) (hsends ▸ List.mem_cons_self)
  obtain ⟨-, hsecond⟩ :=
    hall 0 s m _ hs (hmethod ▸ hm) (hsends ▸ List.mem_cons_of_mem _ List.mem_cons_self)
  obtain ⟨hxmem, hxs, hxb⟩ := SendGraph.mem_of_sendAt? hx
  obtain ⟨hymem, hys, hyb⟩ := SendGraph.mem_of_sendAt? hy
  obtain ⟨-, e, -, he, -⟩ := (hfirst x hxmem hxs hxb).2.1.1 htrap
  exact ⟨g, stats, s, _, x, y, built_conditional, h, hs, hx, htrap, harms, ⟨e, he⟩, hy,
    (hsecond y hymem hys hyb).2.2 rfl rfl rfl ⟨0⟩ hfeedback rfl⟩

end Compiler

end Warmup
