import Warmup.Proofs.Expansion

/-!
# Limits of inlining

Two compilations side by side, of which the first allows no more than the second
(`Compiler.Tighter`). A callee that the first one inlines is tried by the second
one in a caller that is alike (`Caller.Alike`), if the second expects its class
too, and then it is inlined there as well (`Grown.follow`).

With the same feedback both expect the same classes. So a graph that is compiled
under tighter limits holds a part of what it would hold under looser ones
(`paths_subset_of_tighter`).
-/

namespace Warmup

/-- Settings that differ in the limits of inlining only, and set none higher. -/
structure Settings.Inlining.Tighter (s s' : Settings.Inlining) : Prop where
  rest : s' = { s with
    maxMethodCost := s'.maxMethodCost
    maxBlockCost := s'.maxBlockCost
    blockArgBonus := s'.blockArgBonus
    minBlockPercent := s'.minBlockPercent
    maxUnroll := s'.maxUnroll
    maxDepth := s'.maxDepth }
  maxMethodCost : s.maxMethodCost ≤ s'.maxMethodCost
  maxBlockCost : s.maxBlockCost ≤ s'.maxBlockCost
  blockArgBonus : s.blockArgBonus ≤ s'.blockArgBonus
  minBlockPercent : s'.minBlockPercent ≤ s.minBlockPercent
  maxUnroll : s.maxUnroll ≤ s'.maxUnroll
  maxDepth : s.maxDepth ≤ s'.maxDepth

theorem Settings.Inlining.Tighter.refl (s : Settings.Inlining) : s.Tighter s :=
  ⟨rfl, UInt32.le_refl _, UInt32.le_refl _, UInt32.le_refl _, UInt32.le_refl _,
    UInt64.le_refl _, UInt64.le_refl _⟩

/-- A block that makes up too little of its home is no better under a higher
    percentage. -/
theorem Candidate.isNegligible_mono {k : Candidate} {p p' cost home : Nat} (hp : p ≤ p')
    (h : k.isNegligible p cost home) : k.isNegligible p' cost home := by
  obtain ⟨hblock, hcost⟩ := Bool.and_eq_true_iff.1 h
  have hlt : cost * 100 < p * home := of_decide_eq_true hcost
  exact Bool.and_eq_true_iff.2
    ⟨hblock, decide_eq_true (Nat.lt_of_lt_of_le hlt (Nat.mul_le_mul_right home hp))⟩

/-- Two callers run the same methods for the same receivers and arguments. What is
    known about them by feedback, and where they stand in a graph, may differ. -/
structure Caller.Alike (a a' : Caller) : Prop where
  key : a.scope.key = a'.scope.key
  method : a.scope.method = a'.scope.method
  receiver : a.scope.receiver = a'.scope.receiver
  args : a.scope.args = a'.scope.args
  trail : a.trail = a'.trail

namespace Compiler

/-- The first compiler works with the classes of the second and allows no more. -/
structure Tighter (c c' : Compiler) : Prop where
  classes : c.classes = c'.classes
  inlining : c.settings.inlining.Tighter c'.settings.inlining

variable {c c' : Compiler} {t t' : FeedbackTree} {k : Candidate} {site : SendSite}

/-! ## Decisions -/

section Decisions

variable (h : c.Tighter c')
include h

/-- Tighter limits allow no larger cost. -/
theorem sizeLimit_mono {limit limit' : Nat} (hl : c.sizeLimit k = .ok limit)
    (hl' : c'.sizeLimit k = .ok limit') :
    limit ≤ limit' := by
  have fit_eq {n l : Nat} (h : Word.fit 32 n = .ok l) : l = n := by
    rw [Word.fit] at h
    split at h
    · exact (Except.ok.inj h).symm
    · cases h
  rw [fit_eq hl, fit_eq hl']
  have hbonus :
      c.settings.inlining.blockArgBonus.toNat ≤ c'.settings.inlining.blockArgBonus.toNat :=
    UInt32.le_iff_toNat_le.1 h.inlining.blockArgBonus
  refine Nat.add_le_add ?_ (Nat.mul_le_mul_left _ hbonus)
  split
  · exact UInt32.le_iff_toNat_le.1 h.inlining.maxBlockCost
  · exact UInt32.le_iff_toNat_le.1 h.inlining.maxMethodCost

/-- Which selectors are built in is not a limit. -/
theorem isBuiltin_congr : c.isBuiltin k = c'.isBuiltin k := by
  have hselectors :
      c'.settings.inlining.builtinSelectors = c.settings.inlining.builtinSelectors := by
    rw [h.inlining.rest]
  rw [isBuiltin, isBuiltin, h.classes, hselectors]

/-- What tighter limits allow by its cost, looser ones allow. -/
theorem decideByCost_mono {builtin : Bool} {d : Decision}
    (hallowed : c.decideByCost k = .ok (.allowed builtin)) (hd : c'.decideByCost k = .ok d) :
    ∃ builtin', d = .allowed builtin' := by
  rw [decideByCost] at hallowed hd
  obtain ⟨cost, hcost, hallowed⟩ := exists_ok_of_bind hallowed
  obtain ⟨cost', hcost', hd⟩ := exists_ok_of_bind hd
  obtain rfl := Except.ok.inj (hcost.symm.trans hcost')
  have hpercent :
      c'.settings.inlining.minBlockPercent.toNat ≤ c.settings.inlining.minBlockPercent.toNat :=
    UInt32.le_iff_toNat_le.1 h.inlining.minBlockPercent
  rcases hneg :
    k.homeCost.filter (k.isNegligible c.settings.inlining.minBlockPercent.toNat cost) with _ | home
  · -- A block that the higher percentage lets pass is let pass by the lower one.
    have hneg' : k.homeCost.filter
        (k.isNegligible c'.settings.inlining.minBlockPercent.toNat cost) = none := by
      refine Option.filter_eq_none_iff.2 fun home hhome hbad => ?_
      exact Option.filter_eq_none_iff.1 hneg home hhome (Candidate.isNegligible_mono hpercent hbad)
    simp only [hneg] at hallowed
    simp only [hneg'] at hd
    obtain ⟨limit, hlimit, hallowed⟩ := exists_ok_of_bind hallowed
    obtain ⟨limit', hlimit', hd⟩ := exists_ok_of_bind hd
    have hle : limit ≤ limit' := sizeLimit_mono h hlimit hlimit'
    have hbuiltin := isBuiltin_congr h (k := k)
    obtain rfl := Except.ok.inj hd
    -- What is exempt from the limit is so under both.
    by_cases hcost' : cost ≤ limit'
    · exact ⟨false, if_pos hcost'⟩
    · have hcost : ¬cost ≤ limit := fun hle' => hcost' (Nat.le_trans hle' hle)
      rw [if_neg hcost] at hallowed
      rw [if_neg hcost', ← hbuiltin]
      split at hallowed
      · next hb => exact ⟨true, if_pos hb⟩
      · cases hallowed
  · simp only [hneg] at hallowed
    cases hallowed

/-- A limit that is set tighter can only turn an allowed callee into a rejected
    one. -/
theorem shouldInline_mono {builtin : Bool} {d : Decision}
    (hallowed : c.shouldInline k = .ok (.allowed builtin)) (hd : c'.shouldInline k = .ok d) :
    ∃ builtin', d = .allowed builtin' := by
  have henabled : c'.settings.inlining.enabled = c.settings.inlining.enabled := by
    rw [h.inlining.rest]
  rw [shouldInline] at hallowed hd
  rw [henabled] at hd
  split at hallowed
  · next hon =>
    rw [if_pos hon] at hd
    -- A hint decides by itself, so limits only matter without one.
    rcases hhint : k.method.hint with _ | _ | _ <;> simp only [hhint] at hallowed hd
    · exact decideByCost_mono h hallowed hd
    · exact ⟨false, (Except.ok.inj hd).symm⟩
    · cases hallowed
  · cases hallowed

end Decisions

end Compiler

/-! ## Callers that are alike -/

namespace Caller.Alike

variable {c c' : Compiler} {t t' : FeedbackTree} {site : SendSite} {d : ClassId}
  {a a' b b' : Caller} (h : a.Alike a')
include h

theorem value_eq : a.scope.value = a'.scope.value := by
  funext x
  rcases x with _ | _ | _ | _ | _ <;> simp only [CompileScope.value, h.receiver, h.args]

theorem staticClass?_eq :
    Compiler.staticClass? a.scope site = Compiler.staticClass? a'.scope site := by
  rw [Compiler.staticClass?, Compiler.staticClass?, h.value_eq, h.receiver]

/-- The same callee is tried in callers that are alike. -/
theorem calleeAt?_eq (hc : c.classes = c'.classes) (d : ClassId) :
    c.calleeAt? a.scope site d = c'.calleeAt? a'.scope site d := by
  simp only [Compiler.calleeAt?, Compiler.superCallee?, Compiler.callee?, h.value_eq,
    h.receiver, h.method, hc]

/-- With the same feedback, the same classes are expected. -/
theorem receivers_eq (hc : c.classes = c'.classes) (hs : c.settings.feedback = c'.settings.feedback)
    (hf : a.scope.feedback = a'.scope.feedback) :
    c.receivers t a.scope site = c'.receivers t a'.scope site := by
  have huninlinable : c.isUninlinable t a.scope site = c'.isUninlinable t a'.scope site := by
    rw [Compiler.isUninlinable, Compiler.isUninlinable, hs, hf]
  have hestimate : c.estimate t a.scope site = c'.estimate t a'.scope site := by
    rw [Compiler.estimate, Compiler.estimate, hs, hf, hc]
  rw [Compiler.receivers, Compiler.receivers, h.staticClass?_eq, huninlinable, hestimate]

/-- Attempts for the same class lead to callers that are alike. -/
theorem enter (hc : c.classes = c'.classes) (hb : c.Enters t a site d b)
    (hb' : c'.Enters t' a' site d b') :
    b.Alike b' := by
  obtain ⟨e, m, builtin, he, -, -, heq⟩ := hb.callee
  obtain ⟨e', m', builtin', he', -, -, heq'⟩ := hb'.callee
  rw [h.calleeAt?_eq hc, he'] at he
  obtain rfl := Option.some.inj he
  rw [heq, heq']
  exact ⟨rfl, rfl, rfl, by simp only [Compiler.calleeScope, h.value_eq], by rw [h.trail]⟩

end Caller.Alike

namespace Compiler

variable {c c' : Compiler} {t t' : FeedbackTree} {site : SendSite} {d : ClassId} {a a' b : Caller}
  {g g' : SendGraph} {n : Nat} {m : Method}

/-- What is known in a callee is what the tree has below the send, under the key of the callee. -/
theorem Enters.feedback (h : c.Enters t a site d b) :
    b.scope.feedback = a.scope.feedback.bind fun f => t.find? f site.bci b.scope.key := by
  obtain ⟨e, m, builtin, -, -, -, heq⟩ := h.callee
  rw [heq]
  rfl

/-- What is allowed in a caller under tighter limits is allowed in one that is alike under looser
    ones. -/
theorem decideAt_mono (h : c.Tighter c') (ha : a.Alike a') {e : Callee} {builtin : Bool}
    {decision : Decision} (hallowed : c.decideAt a site e m = .ok (.allowed builtin))
    (hd : c'.decideAt a' site e m = .ok decision) :
    ∃ builtin', decision = .allowed builtin' := by
  rw [decideAt] at hallowed hd
  have hunroll : c.settings.inlining.maxUnroll.toNat ≤ c'.settings.inlining.maxUnroll.toNat :=
    UInt64.le_iff_toNat_le.1 h.inlining.maxUnroll
  split at hallowed
  · cases hallowed
  · -- The callee is not too deep in a recursion for the tighter limit, so it is not for the looser
    -- one.
    next hle =>
    rw [← ha.trail, if_neg (by omega)] at hd
    obtain ⟨home, hhome, hallowed⟩ := exists_ok_of_bind hallowed
    obtain ⟨home', hhome', hd⟩ := exists_ok_of_bind hd
    rw [h.classes, hhome'] at hhome
    obtain rfl := Except.ok.inj hhome
    rw [← ha.value_eq] at hd
    exact shouldInline_mono h hallowed hd

/-- Where a compiler that allows as much reaches a caller that is alike, it
    inlines what the first one inlined, as far as it expects the same classes. -/
theorem Grown.follow (h : c.Tighter c') (ha : a.Alike a') (hg : c'.Grown t' g' n a')
    (hm : c.classes.method? a.scope.method = some m) (hsite : site ∈ m.sends) :
    ∃ r, ⟨a'.scope.id, site.bci, site.selector, r⟩ ∈ g'.sends ∧ c'.Decided t' a'.scope site r ∧
      ∀ d b k, c.Enters t a site d b → d ∈ c'.receivers t' a'.scope site → n = k + 1 →
        ∃ b', c'.Enters t' a' site d b' ∧ c'.Grown t' g' k b' ∧ (d, b'.scope.id) ∈ r.arms ∧
          b.Alike b' := by
  rw [h.classes, ha.method] at hm
  obtain ⟨r, hmem, hdecided, htried⟩ := hg.tried hm hsite
  refine ⟨r, hmem, hdecided, fun d b k hb hd hn => ?_⟩
  obtain ⟨e, m', builtin, he, hm', hallowed, -⟩ := hb.callee
  rw [ha.calleeAt?_eq h.classes] at he
  rw [h.classes] at hm'
  rcases htried d hd e m' k he hm' hn with ⟨why, hrejected⟩ | ⟨b', hb', hgrown, harm⟩
  · obtain ⟨builtin', habsurd⟩ := decideAt_mono h ha hallowed hrejected
    cases habsurd
  · exact ⟨b', hb', hgrown, harm, ha.enter h.classes hb hb'⟩

/-- With the same feedback, the callees of callers that are alike are alike. -/
theorem Grown.enter (h : c.Tighter c') (hs : c.settings.feedback = c'.settings.feedback)
    (ha : a.Alike a') (hf : a.scope.feedback = a'.scope.feedback) (hg : c'.Grown t g' (n + 1) a')
    (hb : c.Enters t a site d b) :
    ∃ b', c'.Enters t a' site d b' ∧ c'.Grown t g' n b' ∧ b.Alike b' ∧
      b.scope.feedback = b'.scope.feedback := by
  obtain ⟨m, hm, hsite⟩ := hb.sends
  have hclass : d ∈ c'.receivers t a'.scope site := ha.receivers_eq h.classes hs hf ▸ hb.receiver
  obtain ⟨r, -, -, hfollow⟩ := hg.follow (t := t) h ha hm hsite
  obtain ⟨b', hb', hgrown, -, halike⟩ := hfollow d b n hb hclass rfl
  exact ⟨b', hb', hgrown, halike, by rw [hb.feedback, hb'.feedback, hf, halike.key]⟩

/-! ## Graphs under tighter limits -/

/-- With the same feedback, whatever is reached under tighter limits is reached
    under looser ones too, and as many levels are left there. -/
theorem Reached.loosen (h : c.Tighter c') (hs : c.settings.feedback = c'.settings.feedback)
    {levels levels' : Nat} {r : Caller} (hroot : c'.Grown t g' levels' r)
    (hlevels : levels ≤ levels') {p : List (Bci × LookupKey)}
    (hreached : c.Reached t g levels r p n a) :
    ∃ n' a', c'.Reached t g' levels' r p n' a' ∧ n ≤ n' ∧ a.Alike a' ∧
      a.scope.feedback = a'.scope.feedback := by
  induction hreached with
  | root _ => exact ⟨levels', r, .root hroot, hlevels, ⟨rfl, rfl, rfl, rfl, rfl⟩, rfl⟩
  | @enter p n a site d b _ henter _ ih =>
    obtain ⟨n', a', hreached', hle, halike, hfeedback⟩ := ih
    obtain ⟨k, rfl⟩ : ∃ k, n' = k + 1 := ⟨n' - 1, by omega⟩
    obtain ⟨b', henter', hgrown', halike', hfeedback'⟩ :=
      hreached'.grown.enter h hs halike hfeedback henter
    refine ⟨k, b', ?_, by omega, halike', hfeedback'⟩
    rw [halike'.key]
    exact hreached'.enter henter' hgrown'

/-- A method that is compiled from the same feedback under limits none of which is
    looser has no scopes but those that it has under the first limits; and every
    callee that would still be allowed was allowed. -/
theorem paths_subset_of_tighter {key : LookupKey} {method : MethodId} {level : Nat}
    {stats stats' : InliningStats} {limits : Settings.Inlining}
    (hlimits : limits.Tighter c.settings.inlining) (h : c.graph t key method level = .ok (g, stats))
    (h' : { c with settings.inlining := limits }.graph t key method level = .ok (g', stats')) :
    g'.paths ⊆ g.paths ∧ ∀ k decision builtin, c.shouldInline k = .ok decision →
      { c with settings.inlining := limits }.shouldInline k = .ok (.allowed builtin) →
        ∃ builtin', decision = .allowed builtin' := by
  have htighter : Tighter { c with settings.inlining := limits } c := ⟨rfl, hlimits⟩
  refine ⟨fun p hp => ?_, fun k decision builtin hdecision hallowed => shouldInline_mono
    htighter hallowed hdecision⟩
  obtain ⟨o, s, hs, rfl⟩ := SendGraph.mem_paths.1 hp
  obtain ⟨m, hm, hgrown, -, -⟩ := graph_reached h
  obtain ⟨m', hm', -, hscopes, -⟩ := graph_reached h'
  obtain rfl := Option.some.inj (hm.symm.trans hm')
  obtain ⟨n, trail, hreached⟩ := hscopes o s hs
  have hdepth : limits.maxDepth.toNat ≤ c.settings.inlining.maxDepth.toNat :=
    UInt64.le_iff_toNat_le.1 hlimits.maxDepth
  obtain ⟨n', a', hreached', -, -, -⟩ := hreached.loosen htighter rfl hgrown hdepth
  exact SendGraph.mem_paths.2 ⟨_, _, hreached'.grown.scope, hreached'.path_eq (graph_ordered h) rfl⟩

/-- A method that calls another with a block, which calls the block and a third
    method. -/
def withBlock : Compiler where
  settings := {}
  classes := { ClassTable.initial with
    classes := ClassTable.initial.classes.set 0
      ⟨"Object", none, [(⟨0⟩, ⟨0⟩), (⟨1⟩, ⟨1⟩), (⟨2⟩, ⟨2⟩)]⟩
    methods := [
      Draft.finish { selector := ⟨0⟩, steps := [.send ⟨1⟩ .self [.block ⟨3⟩]] } ⟨0⟩ ⟨0⟩ none,
      Draft.finish { selector := ⟨1⟩, argCount := 1,
                     steps := [.send ⟨3⟩ (.arg 0) [], .send ⟨2⟩ .self [], .work 40] }
        ⟨1⟩ ⟨0⟩ none,
      Draft.finish { selector := ⟨2⟩, steps := [.work 30] } ⟨2⟩ ⟨0⟩ none,
      Draft.finish { selector := ⟨3⟩, steps := [.work 3] } ⟨3⟩ ⟨0⟩ (some ⟨0⟩)]
    selectors := ["run", "each:", "step", "value"] }
  code := {}
  traps := {}

/-- Its limits, but for the cost of methods. -/
def lowerCost : Settings.Inlining := { maxMethodCost := 30 }

/-- The second method is within the lower limit only by the bonus for its block. The
    third one no longer is, and all else stays. -/
theorem paths_subset_withBlock : ∃ g g' stats stats',
    withBlock.graph .null (.send ⟨0⟩ ⟨0⟩) ⟨0⟩ 1 = .ok (g, stats) ∧
      { withBlock with settings.inlining := lowerCost }.graph .null (.send ⟨0⟩ ⟨0⟩) ⟨0⟩ 1 =
        .ok (g', stats') ∧
      g.paths = [[], [(0, .send ⟨0⟩ ⟨1⟩)], [(0, .send ⟨0⟩ ⟨1⟩), (0, .given .blockClosure ⟨3⟩)],
        [(0, .send ⟨0⟩ ⟨1⟩), (1, .send ⟨0⟩ ⟨2⟩)]] ∧
      g'.paths.length = 3 ∧ g'.paths ⊆ g.paths := by
  have hlimits : lowerCost.Tighter withBlock.settings.inlining :=
    ⟨rfl, by decide, by decide, by decide, by decide, by decide, by decide⟩
  have h : withBlock.graph .null (.send ⟨0⟩ ⟨0⟩) ⟨0⟩ 1 = .ok (_, _) := rfl
  have h' : { withBlock with settings.inlining := lowerCost }.graph .null (.send ⟨0⟩ ⟨0⟩) ⟨0⟩ 1 =
      .ok (_, _) := rfl
  exact ⟨_, _, _, _, h, h', by decide, by decide, (paths_subset_of_tighter hlimits h h').1⟩

end Compiler

end Warmup
