import Warmup.Proofs.Decisions
import Warmup.Proofs.Emission
import Warmup.Proofs.KeyNames
import Warmup.Proofs.Limits

/-!
# Limits that do not fit

A callee is inlined up to a limit on its cost, which grows with every block among its arguments. How
much it grows is a matter of the settings, and so is where it starts: the limit may not fit its
word. No setting is refused for that.

* `Compiler.LimitOverflows`: the decision on a callee needs a limit that does not fit;
* `decideAt_eq_error_iff_limitOverflows`: nothing else goes wrong in a decision, if all costs fit;
* `Led.exists_grown`: whatever decisions lead to is in the graph, if there is one;
* `compile_overflows_iff`: a compilation fails exactly if it comes to such a decision.
-/

namespace Warmup

/-- The costs of all methods fit their words. -/
def ClassTable.CostsFit (t : ClassTable) : Prop :=
  ∀ id m, t.method? id = some m → m.exactCost < Word.size 32

namespace Compiler

/-- The decision on a callee is made by its cost, and the limit on the cost does not fit its
    word. -/
structure LimitOverflows (c : Compiler) (a : Caller) (site : SendSite) (e : Callee) (m : Method) :
    Prop where
  enabled : c.settings.inlining.enabled
  /-- The callee is not met too often. -/
  unrolled : a.trail.count (e.method, e.key.cls) ≤ c.settings.inlining.maxUnroll.toNat
  /-- Nothing is said about inlining it. -/
  hint : m.hint = .unspecified
  /-- A block makes up enough of its home. -/
  relevant : ∀ id home, m.home = some id → c.classes.method? id = some home →
    c.settings.inlining.minBlockPercent.toNat * home.exactCost ≤ m.exactCost * 100
  /-- The bonus for the blocks among the arguments is too much. -/
  limit : Word.size 32 ≤
    (if m.isBlock then c.settings.inlining.maxBlockCost
      else c.settings.inlining.maxMethodCost).toNat +
      (site.args.countP fun x => (a.scope.value x).isBlock) % Word.size 32 *
      c.settings.inlining.blockArgBonus.toNat

variable {c : Compiler} {t : FeedbackTree} {a : Caller} {site : SendSite} {e : Callee} {m : Method}
  {f : Fault}

/-! ## Decisions -/

/-- Nothing goes wrong in a decision but the limit, if all costs fit. -/
theorem decideAt_eq_error_iff_limitOverflows (h : c.classes.CostsFit)
    (hm : c.classes.method? e.method = some m) :
    c.decideAt a site e m = .error f ↔ f = .overflow ∧ c.LimitOverflows a site e m := by
  have hhome : ¬c.HomeOverflows m := by
    rintro ⟨id, home, -, hhome, hlarge⟩
    exact Nat.not_lt.2 hlarge (h id home hhome)
  rw [decideAt_eq_error_iff]
  refine and_congr_right fun _ => ⟨?_, ?_⟩
  · rintro ⟨hunrolled, hcause⟩
    obtain ⟨hon, hhint, hcause⟩ := hcause.resolve_left hhome
    obtain ⟨hrelevant, hlimit⟩ := hcause.resolve_left (Nat.not_le.2 (h _ m hm))
    exact ⟨hon, hunrolled, hhint, hrelevant, hlimit⟩
  · rintro ⟨hon, hunrolled, hhint, hrelevant, hlimit⟩
    exact ⟨hunrolled, .inr ⟨hon, hhint, .inr ⟨hrelevant, hlimit⟩⟩⟩

/-! ## Callers that decisions lead to -/

/-- The limit is the same for callers that are alike. -/
theorem LimitOverflows.of_alike {a' : Caller} (ha : a.Alike a') (h : c.LimitOverflows a site e m) :
    c.LimitOverflows a' site e m :=
  ⟨h.enabled, ha.trail ▸ h.unrolled, h.hint, h.relevant, ha.value_eq ▸ h.limit⟩

variable {g : SendGraph} {levels n : Nat} {r : Caller}

/-- Whatever decisions lead to stands in the graph, if there is one, with the same things known of
    it. -/
theorem Led.exists_grown (hroot : c.Grown t g levels r) (h : c.Led t levels r n a) :
    ∃ a', c.Grown t g n a' ∧ a.Alike a' ∧ a.scope.feedback = a'.scope.feedback := by
  induction h with
  | root => exact ⟨r, hroot, ⟨rfl, rfl, rfl, rfl, rfl⟩, rfl⟩
  | enter _ hb ih =>
    obtain ⟨a', hgrown, halike, hfeedback⟩ := ih
    obtain ⟨b', -, hgrown', halike', hfeedback'⟩ :=
      hgrown.enter ⟨rfl, .refl _⟩ rfl halike hfeedback hb
    exact ⟨b', hgrown', halike', hfeedback'⟩

/-- In a graph, all decisions were made. -/
theorem Grown.exists_decideAt (h : c.Grown t g (n + 1) a) {d : ClassId}
    (htries : c.Tries t a site d e m) :
    ∃ decision, c.decideAt a site e m = .ok decision := by
  obtain ⟨caller, hcaller, hsite⟩ := htries.sends
  obtain ⟨r, -, -, htried⟩ := h.tried hcaller hsite
  rcases htried d htries.receiver e m n htries.callee htries.method rfl
    with ⟨why, hrejected⟩ | ⟨b, hb, -, -⟩
  · exact ⟨_, hrejected⟩
  · obtain ⟨e', m', builtin, he, hm, hallowed, -⟩ := hb.callee
    obtain rfl := Option.some.inj (htries.callee.symm.trans he)
    obtain rfl := Option.some.inj (htries.method.symm.trans hm)
    exact ⟨_, hallowed⟩

/-- The same decisions are made in callers that are alike. -/
theorem Tries.of_alike {a' : Caller} {d : ClassId} (ha : a.Alike a')
    (hf : a.scope.feedback = a'.scope.feedback) (h : c.Tries t a site d e m) :
    c.Tries t a' site d e m where
  sends := ha.method ▸ h.sends
  receiver := ha.receivers_eq rfl rfl hf ▸ h.receiver
  callee := ha.calleeAt?_eq rfl d ▸ h.callee
  method := h.method

/-! ## Compilations -/

variable (c t) in
/-- Inlining comes to a decision for which a limit does not fit. -/
def MeetsOverflow (key : LookupKey) (m : Method) : Prop :=
  ∃ n a site d e m', c.Led t c.settings.inlining.maxDepth.toNat (rootCaller t key m) (n + 1) a ∧
    c.Tries t a site d e m' ∧ c.LimitOverflows a site e m'

variable {key : LookupKey} {method : MethodId} {level : Nat} {stats : InliningStats}

/-- If all costs fit, a graph can only fail where a limit does not. -/
theorem graph_yields (t : FeedbackTree) (key : LookupKey) (level : Nat) (h : c.classes.CostsFit)
    (hm : c.classes.method? method = some m) :
    Yields (c.MeetsOverflow t key m) (c.graph t key method level) := by
  refine yields_graph t key hm level fun n b site d e m' hled htries => ?_
  rcases hdecide : c.decideAt b site e m' with f | decision
  · obtain ⟨rfl, hlimit⟩ := (decideAt_eq_error_iff_limitOverflows h htries.method).1 hdecide
    exact .inr ⟨rfl, n, b, site, d, e, m', hled, htries, hlimit⟩
  · exact .ok decision

/-- There is no graph if its growth comes to a limit that does not fit. -/
theorem MeetsOverflow.graph_ne_ok (h : c.classes.CostsFit) (hm : c.classes.method? method = some m)
    (hmeets : c.MeetsOverflow t key m) : c.graph t key method level ≠ .ok (g, stats) := by
  intro hgraph
  obtain ⟨n, a, site, d, e, m', hled, htries, hlimit⟩ := hmeets
  -- Nothing is said about where the caller stands, but one that is alike stands in the graph.
  obtain ⟨m₀, hm₀, hroot, -⟩ := graph_reached hgraph
  obtain rfl := Option.some.inj (hm.symm.trans hm₀)
  obtain ⟨a', hgrown, halike, hfeedback⟩ := hled.exists_grown hroot
  obtain ⟨decision, hok⟩ := hgrown.exists_decideAt (htries.of_alike halike hfeedback)
  have herror := (decideAt_eq_error_iff_limitOverflows h htries.method).2
    ⟨rfl, hlimit.of_alike halike⟩
  cases hok.symm.trans herror

/-- A type case tests only for classes that there are: each has a method for the send. -/
theorem graph_arms_class (hgraph : c.graph t key method level = .ok (g, stats)) {x : SendNode}
    (hx : x ∈ g.sends) {arms : List (ClassId × Offset)} {residual : Residual}
    (hr : x.resolution = .typeCase arms residual) {y : ClassId × Offset} (hy : y ∈ arms) :
    y.1.index < c.classes.classes.length := by
  have hmem : y ∈ x.resolution.arms := by rwa [hr]
  obtain ⟨m, -, -, -, hsends⟩ := graph_reached hgraph
  obtain ⟨n, a, site, -, hanswers⟩ := hsends x hx
  -- Where a class is known there is one callee, and no type case.
  have hdynamic : staticClass? a.scope site = none := by
    refine Option.eq_none_iff_forall_not_mem.2 fun d hd => ?_
    cases hr.symm.trans (hanswers.settled.decided.static d hd y hmem)
  obtain ⟨b, -, hb⟩ := hanswers.arms y hmem
  obtain ⟨e, m', builtin, hcallee, -⟩ := hb.callee
  rw [calleeAt?_of_dynamic hdynamic] at hcallee
  obtain ⟨m'', hlookup, -⟩ := Option.map_eq_some_iff.1 hcallee
  obtain ⟨entry, hentry⟩ := ClassTable.exists_class_of_lookup hlookup
  exact (List.getElem?_eq_some_iff.1 hentry).1

/-- It tests for no class twice. -/
theorem graph_arms_le (hgraph : c.graph t key method level = .ok (g, stats)) {x : SendNode}
    (hx : x ∈ g.sends) {arms : List (ClassId × Offset)} {residual : Residual}
    (hr : x.resolution = .typeCase arms residual) :
    arms.length ≤ c.classes.classes.length := by
  obtain ⟨-, -, -, _, -, hexpanded⟩ := graph_expanded hgraph
  obtain ⟨_, _, _, -, -, -, -, -, -, hresolves⟩ :=
    hexpanded.settled g.scopes (Within.self g.scopes) x hx
  have hnodup : (arms.map (·.1)).Nodup := by simpa [hr, Resolution.arms] using hresolves.distinct
  -- The classes of the arms are different, and all of them are there, so there are at most as many.
  have hindices : (arms.map fun y => y.1.index).Nodup := by
    have hmap := hnodup.map (f := ClassId.index) fun d d' heq => by
      cases d; cases d'; cases heq; rfl
    rwa [List.map_map] at hmap
  have hsub : arms.map (fun y => y.1.index) ⊆ List.range c.classes.classes.length := by
    intro i hi
    obtain ⟨y, hy, rfl⟩ := List.mem_map.1 hi
    exact List.mem_range.2 (graph_arms_class hgraph hx hr hy)
  simpa using (hindices.subperm hsub).length_le

/-- The code of a graph is emitted if all costs fit, and there are not too many classes for the
    tests. -/
theorem graph_emits (hw : c.classes.WellFormed) (h : c.classes.CostsFit)
    (hclasses : c.classes.classes.length < 2 ^ 31)
    (hgraph : c.graph t key method level = .ok (g, stats)) : ∃ n, g.emit c.classes = .ok n := by
  have hmethods : ∀ s ∈ g.scopes, ∃ m, c.classes.method? s.method = some m := fun s hs =>
    let ⟨_, ho⟩ := List.mem_iff_getElem?.1 hs
    graph_scope_method hgraph hw ho
  refine ⟨_, SendGraph.emit_of_emittable hmethods ⟨fun s hs => ?_, fun x hx => ?_⟩⟩
  · obtain ⟨m, hm⟩ := hmethods s hs
    rw [ClassTable.exactCost, hm]
    exact h _ m hm
  · rcases hr : x.resolution with ⟨d, o⟩ | ⟨arms, residual⟩ | q | n
    -- A test for each class is small, as there are fewer classes than half of the words.
    case typeCase =>
      have hle := graph_arms_le hgraph hx hr
      have hmod := Nat.mod_le arms.length (Word.size 32)
      have hsize : Word.size 32 = 2 * 2 ^ 31 := rfl
      show 2 * (arms.length % Word.size 32) < Word.size 32
      omega
    all_goals exact (by decide : 0 < Word.size 32)

/-- A compilation fails for the limit only. -/
theorem compile_cases (t : FeedbackTree) (key : LookupKey) (level : Nat) (hw : c.classes.WellFormed)
    (h : c.classes.CostsFit) (hclasses : c.classes.classes.length < 2 ^ 31)
    (hm : c.classes.method? method = some m) :
    (∃ comp, c.compile t key method level = .ok comp ∧ ¬c.MeetsOverflow t key m ∧
      c.graph t key method level = .ok (comp.graph, comp.stats)) ∨
    c.compile t key method level = .error .overflow ∧ c.MeetsOverflow t key m := by
  rcases graph_yields t key level h hm with ⟨⟨g, stats⟩, hgraph⟩ | ⟨hgraph, hmeets⟩
  · obtain ⟨n, hn⟩ := graph_emits hw h hclasses hgraph
    refine .inl ⟨⟨g, stats, n⟩, ?_, fun hmeets => hmeets.graph_ne_ok h hm hgraph, hgraph⟩
    simp only [compile, hgraph, hn, bind, Except.bind, pure, Except.pure]
  · refine .inr ⟨?_, hmeets⟩
    simp only [compile, hgraph, bind, Except.bind]

variable (c) in
/-- The limits fit even if all arguments of a send are blocks. -/
def BonusesFit : Prop :=
  ∀ id caller, c.classes.method? id = some caller → ∀ site ∈ caller.sends,
    max c.settings.inlining.maxMethodCost.toNat c.settings.inlining.maxBlockCost.toNat +
      site.args.length * c.settings.inlining.blockArgBonus.toNat < Word.size 32

/-- If the bonus for all blocks of any method fits, so does every limit. -/
theorem BonusesFit.not_meetsOverflow (h : c.BonusesFit) : ¬c.MeetsOverflow t key m := by
  rintro ⟨n, a, site, d, e, m', -, htries, hlimit⟩
  obtain ⟨caller, hcaller, hsite⟩ := htries.sends
  have hfits := h _ caller hcaller site hsite
  have hargs :
      (site.args.countP fun x => (a.scope.value x).isBlock) % Word.size 32 ≤ site.args.length :=
    (Nat.mod_le _ _).trans List.countP_le_length
  have hbonus := Nat.mul_le_mul_right c.settings.inlining.blockArgBonus.toNat hargs
  have hlarge := hlimit.limit
  split at hlarge <;> omega

/-- Let superclass chains end, all costs fit, and the classes be few enough for type tests. Then
    each lookup of a compilation ends, and the compilation has a result, or the limit on some callee
    does not fit its word; it is the latter exactly if inlining comes to such a callee. The shares
    of blocks are compared without overflow, and a type case has no more tests than there are
    classes. -/
theorem compile_overflows_iff (c : Compiler) (t : FeedbackTree) (key : LookupKey)
    (method : MethodId) (level : Nat) (hbuilt : c.classes.Built) (hends : c.classes.ChainsEnd)
    (hclasses : c.classes.classes.length < 2 ^ 31) (hcosts : c.classes.CostsFit)
    (hm : c.classes.method? method = some m) :
    (∀ d s, c.classes.Searches s d (c.classes.lookup d s)) ∧
    ((∃ comp, c.compile t key method level = .ok comp ∧ ∀ x ∈ comp.graph.sends, ∀ arms residual,
        x.resolution = .typeCase arms residual → arms.length ≤ c.classes.classes.length) ∨
      c.compile t key method level = .error .overflow) ∧
    (c.compile t key method level = .error .overflow ↔ c.MeetsOverflow t key m) ∧
    (c.BonusesFit → ∃ comp, c.compile t key method level = .ok comp) ∧
    ∀ id home, c.classes.method? id = some home → home.exactCost * 100 < Word.size 64 ∧
      c.settings.inlining.minBlockPercent.toNat * home.exactCost < Word.size 64 := by
  have hcases := compile_cases t key level hbuilt.wellFormed hcosts hclasses hm
  refine ⟨hends.searches, ?_, ?_, fun hfits => ?_, fun id home hhome => ?_⟩
  · rcases hcases with ⟨comp, hcomp, -, hgraph⟩ | ⟨herror, -⟩
    · exact .inl ⟨comp, hcomp, fun x hx arms residual hr => graph_arms_le hgraph hx hr⟩
    · exact .inr herror
  · rcases hcases with ⟨comp, hcomp, hmeets, -⟩ | ⟨herror, hmeets⟩
    · exact iff_of_false (by rw [hcomp]; rintro ⟨⟩) hmeets
    · exact iff_of_true herror hmeets
  · rcases hcases with ⟨comp, hcomp, -, -⟩ | ⟨-, hmeets⟩
    · exact ⟨comp, hcomp⟩
    · exact absurd hmeets hfits.not_meetsOverflow
  · have hcost := hcosts id home hhome
    -- Both products are of two numbers that fit 32 bits.
    have hsquare : Word.size 64 = Word.size 32 * Word.size 32 := rfl
    rw [hsquare]
    exact ⟨Nat.mul_lt_mul'' hcost (by decide), Nat.mul_lt_mul'' (UInt32.toNat_lt _) hcost⟩

/-- A method that calls another with a block, where methods are inlined up to the largest cost. -/
def generous : Compiler where
  settings := { inlining := { maxMethodCost := 4294967295 } }
  classes := { ClassTable.initial with
    classes := ClassTable.initial.classes.set 0 ⟨"Object", none, [(⟨1⟩, ⟨1⟩), (⟨0⟩, ⟨0⟩)]⟩
    methods := [
      Draft.finish { selector := ⟨0⟩, argCount := 1, steps := [.work 1] } ⟨0⟩ ⟨0⟩ none,
      Draft.finish { selector := ⟨1⟩, steps := [.send ⟨0⟩ .self [.block ⟨2⟩]] } ⟨1⟩ ⟨0⟩ none,
      Draft.finish { selector := ⟨2⟩, steps := [.work 1] } ⟨2⟩ ⟨0⟩ (some ⟨1⟩)]
    selectors := ["each:", "run", "value"] }
  code := {}
  traps := {}

/-- The classes are built by definitions, as those of a program are. -/
theorem built_generous : generous.classes.Built := by
  have h := ((ClassTable.Built.initial.intern "each:").intern "run").intern "value"
  have h := ClassTable.Built.addMethod h (c := ⟨0⟩)
    (b := { selector := ⟨0⟩, argCount := 1, steps := [.work 1] }) rfl
  have h := ClassTable.Built.addMethod h (c := ⟨0⟩)
    (b := { selector := ⟨1⟩, steps := [.send ⟨0⟩ .self [.block ⟨2⟩]] }) rfl
  exact @ClassTable.Built.addBlock _ _ ⟨1⟩ _ { selector := ⟨2⟩, steps := [.work 1] } h rfl

theorem costsFit_generous : generous.classes.CostsFit := fun id m hm =>
  (by decide : ∀ m ∈ generous.classes.methods, m.exactCost < Word.size 32) m
    (List.mem_of_getElem? hm)

/-- With the default settings all limits fit. -/
theorem bonusesFit_default : { generous with settings := {} }.BonusesFit := fun id caller hcaller =>
  (by decide : ∀ caller ∈ generous.classes.methods, ∀ site ∈ caller.sends,
    max 40 60 + site.args.length * 20 < Word.size 32) caller (List.mem_of_getElem? hcaller)

/-- The limit for `each:` overflows by the bonus for its block. With the default limits, there is a
    result. -/
theorem compile_overflows_generous :
    generous.classes.Built ∧ generous.classes.ChainsEnd ∧ generous.classes.CostsFit ∧
    (∃ m, generous.classes.method? ⟨1⟩ = some m ∧ generous.MeetsOverflow .null (.send ⟨0⟩ ⟨1⟩) m) ∧
    ∃ comp, { generous with settings := {} }.compile .null (.send ⟨0⟩ ⟨1⟩) ⟨1⟩ 1 = .ok comp := by
  have hends : generous.classes.ChainsEnd := ClassTable.Founded.chainsEnd (by decide)
  refine ⟨built_generous, hends, costsFit_generous, ⟨_, rfl, ?_⟩, ?_⟩
  · exact (compile_overflows_iff generous .null (.send ⟨0⟩ ⟨1⟩) ⟨1⟩ 1
      built_generous hends (by decide) costsFit_generous rfl).2.2.1.1 rfl
  · exact (compile_overflows_iff { generous with settings := {} } .null (.send ⟨0⟩ ⟨1⟩)
      ⟨1⟩ 1 built_generous hends (by decide) costsFit_generous rfl).2.2.2.1 bonusesFit_default

/-- The settings are accepted, and all costs fit. -/
theorem compile_fails_generous : generous.settings.validate = .ok generous.settings ∧
    generous.classes.CostsFit ∧ generous.compile .null (.send ⟨0⟩ ⟨1⟩) ⟨1⟩ 1 = .error .overflow :=
  ⟨rfl, costsFit_generous, rfl⟩

end Compiler

end Warmup
