import Warmup.Proofs.TrapEvidence

/-!
# Scopes without full debug information

A scope is compiled without full debug information if its callee was to be inlined
always or is inlined as a basic operation only, or if it is inlined into such a scope.
It gets no traps. Feedback trees carry the mark on (`FeedbackTree.isLite`), but what
counts for traps is the new compilation, which decides by itself
(`recorded_lite_trap_iff`).

Both agree where code is compiled again from its own feedback. A scope that stands for
one of the code has the same method, receiver and arguments again
(`CompileScope.Repeats`), so the decision on it is the same. They need not agree for the
scopes of a callee whose code was walked: there, arguments are known that were not
known before.
-/

namespace Warmup

/-- Two scopes run the same method for the same receiver and arguments, with or without
    full debug information. -/
structure CompileScope.Repeats (s s' : CompileScope) : Prop where
  key : s.key = s'.key
  method : s.method = s'.method
  receiver : s.receiver = s'.receiver
  args : s.args = s'.args
  lite : s.lite = s'.lite

theorem CompileScope.Repeats.alike {s s' : CompileScope} (h : s.Repeats s')
    (trail : List (MethodId × ClassId)) :
    Caller.Alike ⟨s, trail⟩ ⟨s', trail⟩ := ⟨h.key, h.method, h.receiver, h.args, rfl⟩

namespace Evidence

/-- Nothing is sorted in code with its scopes in order, no trap and one call site. -/
theorem walkNative_eq {n : NativeMethod} {s : CallSite}
    (hscopes : n.scopes.Pairwise fun a b => decide (a.offset ≤ b.offset)) (htraps : n.traps = [])
    (hsites : n.sites = [s]) (attach : Attach) (level : Nat) (parent : Option (ScopeId × Bci))
    (t : FeedbackTree) :
    walkNative attach n level parent t =
      attachSite attach (n.scopes.foldl (Placed.step n level parent) { tree := t }).ids
        (n.scopes.foldl (Placed.step n level parent) { tree := t }).tree s := by
  rw [walkNative, placeScopes, List.mergeSort_of_pairwise hscopes, htraps,
    hsites, List.mergeSort_nil, List.mergeSort_singleton]
  rfl

theorem treeOfNative_of_walkNative {e : Evidence} {n : NativeMethod} {trusted : Bool}
    {t : FeedbackTree} (he : e.settings.enabled)
    (h : walkNative (e.attachCache n.key trusted e.settings.maxDepth.toNat) n 0 none .empty = t)
    (ht : t.scopes.isEmpty = false) : e.treeOfNative n trusted = t := by
  rw [treeOfNative, if_pos he]
  simp only [h, ht]
  rfl

end Evidence

namespace Compiler

variable {c c' : Compiler} {t t' : FeedbackTree} {g g' : SendGraph} {key : LookupKey}
  {method : MethodId} {level : Nat} {stats : InliningStats} {a a' b b' : Caller}
  {site site' : SendSite} {d d' : ClassId}

/-! ## The same decisions -/

section Decisions

variable (hclasses : c.classes = c'.classes)
  (hinlining : c.settings.inlining = c'.settings.inlining)
include hclasses hinlining

theorem shouldInline_congr (k : Candidate) : c.shouldInline k = c'.shouldInline k := by
  have hlimit : c.sizeLimit k = c'.sizeLimit k := by rw [sizeLimit, sizeLimit, hinlining]
  have hbuiltin : c.isBuiltin k = c'.isBuiltin k := by
    rw [isBuiltin, isBuiltin, hinlining, hclasses]
  have hcost : c.decideByCost k = c'.decideByCost k := by
    rw [decideByCost, decideByCost, hlimit, hbuiltin, hinlining]
  rw [shouldInline, shouldInline, hcost, hinlining]

/-- Whether a callee is inlined as a basic operation only does not depend on the trail. -/
theorem decideAt_builtin (hvalue : a.scope.value = a'.scope.value) {e : Callee} {m : Method}
    {builtin builtin' : Bool} (h : c.decideAt a site e m = .ok (.allowed builtin))
    (h' : c'.decideAt a' site e m = .ok (.allowed builtin')) :
    builtin = builtin' := by
  rw [decideAt] at h h'
  split at h
  · cases h
  · split at h'
    · cases h'
    · obtain ⟨home, hhome, h⟩ := exists_ok_of_bind h
      obtain ⟨home', hhome', h'⟩ := exists_ok_of_bind h'
      rw [hclasses, hhome'] at hhome
      obtain rfl := Except.ok.inj hhome
      rw [shouldInline_congr hclasses hinlining, hvalue, h'] at h
      exact (Decision.allowed.inj (Except.ok.inj h)).symm

/-- What is entered at the same position under the same key, from scopes that repeat each
    other, repeats itself. -/
theorem Enters.repeats (hw : c.classes.WellFormed) (ha : a.scope.Repeats a'.scope)
    (hb : c.Enters t a site d b) (hb' : c'.Enters t' a' site' d' b') (hbci : site.bci = site'.bci)
    (hkey : b.scope.key = b'.scope.key) :
    b.scope.Repeats b'.scope := by
  have halike := ha.alike []
  have hvalue : a.scope.value = a'.scope.value := halike.value_eq
  obtain ⟨m, hm, hsite⟩ := hb.sends
  obtain ⟨m', hm', hsite'⟩ := hb'.sends
  rw [← hclasses, ← ha.method, hm] at hm'
  obtain rfl := Option.some.inj hm'
  have hsame := hw.sendAt? hm hsite
  rw [hbci, hw.sendAt? hm hsite'] at hsame
  obtain rfl := Option.some.inj hsame
  obtain ⟨e, m₁, builtin, he, hm₁, hdecide, heq⟩ := hb.callee
  obtain ⟨e', m₁', builtin', he', hm₁', hdecide', heq'⟩ := hb'.callee
  rw [heq, heq'] at hkey ⊢
  -- The class that the callee was tried for is the one that is known, or that of the key.
  obtain rfl : d = d' := by
    have hd := hb.receiver
    have hd' := hb'.receiver
    rcases hclass : staticClass? a.scope site' with _ | d₀
    · rw [calleeAt?_of_dynamic hclass] at he
      rw [calleeAt?_of_dynamic (halike.staticClass?_eq ▸ hclass)] at he'
      obtain ⟨_, -, rfl⟩ := Option.map_eq_some_iff.1 he
      obtain ⟨_, -, rfl⟩ := Option.map_eq_some_iff.1 he'
      exact congrArg LookupKey.cls hkey
    · rw [receivers_of_static hclass] at hd
      rw [receivers_of_static (halike.staticClass?_eq ▸ hclass)] at hd'
      rw [List.mem_singleton.1 hd, List.mem_singleton.1 hd']
  obtain rfl : e = e' := by
    rw [halike.calleeAt?_eq hclasses, he'] at he
    exact (Option.some.inj he).symm
  rw [hclasses, hm₁'] at hm₁
  obtain rfl := Option.some.inj hm₁
  obtain rfl := decideAt_builtin hclasses hinlining hvalue hdecide hdecide'
  exact ⟨rfl, rfl, rfl, by simp only [calleeScope, hvalue], by simp only [calleeScope, ha.lite]⟩

/-- A scope whose feedback stands for a scope of earlier code repeats that scope. -/
theorem Reached.repeats (hw : c.classes.WellFormed)
    (h : c.graph t key method level = .ok (g, stats)) {P : ScopeId → Bci → Knowledge → Prop}
    {n : NativeId} (hgains : FeedbackTree.Gains P (.ofScopes (g.scopes.map (·.rebuilt n))) t')
    {m : Method} (hm : c.classes.method? method = some m) {levels left : Nat}
    {p : List (Bci × LookupKey)}
    (hreached : c'.Reached t' g' levels (rootCaller t' key m) p left a') {f : ScopeId}
    (hf : a'.scope.feedback = some f) (hlt : f.index < g.scopes.length) :
    ∃ k, g.scopes[f.index]? = some k ∧ k.Repeats a'.scope := by
  induction hreached generalizing f with
  | root =>
    have hroot : f = FeedbackTree.root := by
      simp only [rootCaller, rootScope] at hf
      split at hf
      · cases hf
      · exact (Option.some.inj hf).symm
    subst hroot
    obtain ⟨m', hm', hgrown, -⟩ := graph_reached h
    obtain rfl := Option.some.inj (hm.symm.trans hm')
    exact ⟨_, hgrown.scope, rfl, rfl, rfl, rfl, rfl⟩
  | @enter p left a' site' d' b' _ henter' _ ih =>
    rw [henter'.feedback] at hf
    obtain ⟨x, hx, hfound⟩ := Option.bind_eq_some_iff.1 hf
    obtain ⟨e, he, hsender, hkey⟩ :=
      (hgains.linked (FeedbackTree.linked_ofScopes _)).scope_of_find? hfound
    obtain ⟨e', he', hwhat, hsender'⟩ := FeedbackTree.get?_rebuilt hgains
      (List.getElem?_eq_getElem hlt)
    obtain rfl := Option.some.inj (he.symm.trans he')
    rw [hwhat] at hkey
    rw [hsender] at hsender'
    obtain ⟨⟨o, bci⟩, hplaced, hplace⟩ := Option.map_eq_some_iff.1 hsender'.symm
    obtain ⟨rfl, rfl⟩ := Prod.mk.inj hplace
    -- The scope hangs at the one that the feedback about the caller stands for.
    have ho : o < f.index := (graph_ordered h).sender_lt f.index _ o _
      (List.getElem?_eq_getElem hlt) hplaced
    obtain ⟨k, hk, hrepeats⟩ := ih hx (Nat.lt_trans ho hlt)
    obtain ⟨a, site, d, trail, ha, hbci, henter⟩ :=
      graph_entered h (List.getElem?_eq_getElem hlt) hplaced
    obtain rfl := Option.some.inj (hk.symm.trans ha)
    exact ⟨_, List.getElem?_eq_getElem hlt,
      henter.repeats hclasses hinlining hw hrepeats henter' hbci (Option.some.inj hkey)⟩

end Decisions

/-- In a scope that feedback records as one without full debug information, traps stand
    where they stand in any other scope: it must have full debug information now, and there
    must be evidence for the trap. It has none again if the record is that of an earlier
    compilation of the same method, for the same classes and under the same limits. -/
theorem recorded_lite_trap_iff (hbuilt : c.classes.Built)
    (h : c.graph t key method level = .ok (g, stats)) {o : Offset} {s : CompileScope} {f : ScopeId}
    (hs : g.scopes[o]? = some s) (hf : s.feedback = some f) (hlite : t.isLite f) :
    (∀ x ∈ g.sends, x.scope = o → (x.resolution.trap?.isSome ↔ s.lite = false ∧
      ∃ m site, c.classes.method? s.method = some m ∧ site ∈ m.sends ∧ x.bci = site.bci ∧
        c.TrapEvidence t s site f ∧ x.resolution.arms.map (·.1) = t.classes f site.bci)) ∧
    ∀ (c₀ : Compiler) (t₀ : FeedbackTree) (level₀ : Nat) (comp : Compilation)
      (n : NativeMethod) (e : Evidence)
      (trusted : Bool), c₀.classes = c.classes → c₀.settings.inlining = c.settings.inlining →
      c₀.compile t₀ key method level₀ = .ok comp → n.scopes = comp.native.scopes →
        e.settings.enabled →
      t = e.treeOfNative n trusted → f.index < n.scopes.length → s.lite := by
  constructor
  · rintro x hx rfl
    constructor
    · intro htrap
      obtain ⟨s', m, site, hs', hm, hsite, hbci, -, hsettled⟩ := graph_settled h hx
      obtain rfl := Option.some.inj (hs.symm.trans hs')
      obtain ⟨hfull, e, he, harms⟩ := hsettled.trap_iff.1 htrap
      obtain rfl := Option.some.inj (hf.symm.trans he.scope)
      exact ⟨hfull, m, site, hm, hsite, hbci, he, harms⟩
    · rintro ⟨hfull, m, site, hm, hsite, hbci, he, harms⟩
      obtain ⟨-, hsettled⟩ := graph_settled_at h hbuilt.wellFormed hx hs hm hsite hbci
      exact hsettled.trap_iff.2 ⟨hfull, f, he, harms⟩
  · rintro c₀ t₀ level₀ comp n e trusted hclasses hinlining hcompile hn he rfl hlt
    obtain ⟨hgraph, hemit⟩ := compile_ok hcompile
    rw [(SendGraph.emit_ok hemit).2.2.1] at hn
    have hgains := Evidence.gains_treeOfNative (graph_preordered hgraph)
      (graph_scopes_ne_nil hgraph) hn he trusted
    obtain ⟨m, hm, -, hscopes, -⟩ := graph_reached h
    obtain ⟨left, trail, hreached⟩ := hscopes o s hs
    rw [hn, List.length_map] at hlt
    obtain ⟨k, hk, hrepeats⟩ := hreached.repeats hclasses hinlining
      (hclasses ▸ hbuilt.wellFormed) hgraph hgains (hclasses ▸ hm) hf hlt
    -- The record is the mark of the earlier scope.
    obtain ⟨x, hx, hwhat, -⟩ := FeedbackTree.get?_rebuilt hgains hk
    rw [FeedbackTree.isLite, FeedbackTree.get?, hx, Option.any_some, hwhat] at hlite
    exact hrepeats.lite ▸ hlite

/-- A method that adds its argument to a small integer. Addition is too expensive to be
    inlined but as a basic operation, unless its argument is a block, as in a call by a
    second method. -/
def exempted : Compiler where
  settings := {}
  classes := { ClassTable.initial with
    classes := (ClassTable.initial.classes.set 2 ⟨"SmallInteger", some ⟨0⟩, [(⟨0⟩, ⟨0⟩)]⟩).set 0
      ⟨"Object", none, [(⟨3⟩, ⟨2⟩), (⟨2⟩, ⟨1⟩)]⟩
    methods := [
      Draft.finish { selector := ⟨0⟩, argCount := 1, steps := [.work 45, .send ⟨1⟩ .unknown []] }
      ⟨0⟩ ⟨2⟩ none,
      Draft.finish { selector := ⟨2⟩, argCount := 1,
                     steps := [.send ⟨0⟩ (.literal .smallInteger) [.arg 0]] } ⟨1⟩ ⟨0⟩ none,
      Draft.finish { selector := ⟨3⟩, steps := [.send ⟨2⟩ .unknown [.block ⟨3⟩]] } ⟨2⟩ ⟨0⟩ none,
      Draft.finish { selector := ⟨4⟩, steps := [.work 1] } ⟨3⟩ ⟨0⟩ (some ⟨2⟩)]
    selectors := ["+", "x", "add:", "run", "value"] }
  code := {}
  traps := {}

theorem built_exempted : exempted.classes.Built := by
  have h :=
    ((((ClassTable.Built.initial.intern "+").intern "x").intern "add:").intern "run").intern "value"
  have h := ClassTable.Built.addMethod h (c := .smallInteger)
    (b := { selector := ⟨0⟩, argCount := 1, steps := [.work 45, .send ⟨1⟩ .unknown []] }) rfl
  have h := ClassTable.Built.addMethod h (c := ⟨0⟩)
    (b := { selector := ⟨2⟩, argCount := 1,
            steps := [.send ⟨0⟩ (.literal .smallInteger) [.arg 0]] }) rfl
  have h := ClassTable.Built.addMethod h (c := ⟨0⟩)
    (b := { selector := ⟨3⟩, steps := [.send ⟨2⟩ .unknown [.block ⟨3⟩]] }) rfl
  exact @ClassTable.Built.addBlock _ _ ⟨2⟩ _ { selector := ⟨4⟩, steps := [.work 1] } h rfl

/-- The code of the method, in which addition is inlined as a basic operation. -/
def additionCode : NativeMethod where
  id := ⟨0⟩
  key := .send ⟨0⟩ ⟨2⟩
  method := ⟨1⟩
  level := 1
  invocations := 10
  scopes :=
    [⟨0, none, .send ⟨0⟩ ⟨2⟩, ⟨1⟩, false⟩, ⟨1, some (0, 0), .send .smallInteger ⟨0⟩, ⟨0⟩, true⟩]
  sites := [⟨1, 1, { selector := ⟨1⟩ }⟩]

/-- The code of the second method, which has called that of the first one. -/
def callingCode : NativeMethod where
  id := ⟨1⟩
  key := .send ⟨0⟩ ⟨3⟩
  method := ⟨2⟩
  level := 1
  scopes := [⟨0, none, .send ⟨0⟩ ⟨3⟩, ⟨2⟩, false⟩]
  sites :=
    [⟨0, 0, { selector := ⟨2⟩, flags := { dirty := true }, dest := .direct ⟨⟨0⟩, .compiled ⟨0⟩⟩ }⟩]

/-- Both have been installed. -/
def bothInstalled : Evidence :=
  ⟨exempted.classes, { methods := [additionCode, callingCode] }, {}, none, {}⟩

/-- What the code of the first method says: nothing was sent in the addition. -/
def additionTree : FeedbackTree := .ofScopes [
  { what := .inlined (.send ⟨0⟩ ⟨2⟩) ⟨1⟩ ⟨0⟩ 0 false, sender := none, level := 0 },
  { what := .inlined (.send .smallInteger ⟨0⟩) ⟨0⟩ ⟨0⟩ 1 true,
    sender := some (⟨0⟩, 0), level := 0 },
  { what := .untaken .neverExecuted, sender := some (⟨1⟩, 1), level := 1 }]

/-- What the code of the second method says, with that of the first one below it. -/
def callingTree : FeedbackTree := .ofScopes [
  { what := .inlined (.send ⟨0⟩ ⟨3⟩) ⟨2⟩ ⟨1⟩ 0 false, sender := none, level := 0, complete := [0] },
  { what := .inlined (.send ⟨0⟩ ⟨2⟩) ⟨1⟩ ⟨0⟩ 0 false, sender := some (⟨0⟩, 0), level := 1 },
  { what := .inlined (.send .smallInteger ⟨0⟩) ⟨0⟩ ⟨0⟩ 1 true,
    sender := some (⟨1⟩, 0), level := 1 },
  { what := .untaken .neverExecuted, sender := some (⟨2⟩, 1), level := 2 }]

theorem treeOfNative_additionCode :
    bothInstalled.treeOfNative additionCode true = additionTree := by
  refine Evidence.treeOfNative_of_walkNative rfl ?_ rfl
  rw [Evidence.walkNative_eq (by decide) rfl rfl]
  rfl

theorem treeOfNative_callingCode : bothInstalled.treeOfNative callingCode true = callingTree := by
  refine Evidence.treeOfNative_of_walkNative rfl ?_ rfl
  rw [Evidence.walkNative_eq (by decide) rfl rfl]
  -- The call site has called the code of the first method, which is walked below it.
  change Evidence.walkNative (bothInstalled.attachCache (.send ⟨0⟩ ⟨3⟩) true 3) additionCode 1
    (some (⟨0⟩, 0)) (.ofScopes (callingTree.scopes.take 1)) = callingTree
  rw [Evidence.walkNative_eq (by decide) rfl rfl]
  rfl

/-- Compiled again, the first method has no trap in the addition, although nothing was
    sent there. -/
theorem recorded_lite_addition : ∃ comp g stats s x, exempted.classes.Built ∧
    exempted.compile .null (.send ⟨0⟩ ⟨2⟩) ⟨1⟩ 1 = .ok comp ∧
      additionCode.scopes = comp.native.scopes ∧
    exempted.graph (bothInstalled.treeOfNative additionCode true) (.send ⟨0⟩ ⟨2⟩) ⟨1⟩ 2 =
      .ok (g, stats) ∧
    g.scopes[1]? = some s ∧ s.feedback = some ⟨1⟩ ∧ additionTree.isLite ⟨1⟩ ∧
      additionTree.isUntaken ⟨1⟩ 1 ∧
    g.sendAt? 1 1 = some x ∧ s.lite ∧ x.resolution.trap? = none := by
  obtain ⟨comp, hcompile, hscopes⟩ :
      ∃ comp, exempted.compile .null (.send ⟨0⟩ ⟨2⟩) ⟨1⟩ 1 = .ok comp ∧
      additionCode.scopes = comp.native.scopes := ⟨_, rfl, rfl⟩
  obtain ⟨g, stats, s, x, h, hs, hf, hx⟩ : ∃ g stats s x,
      exempted.graph additionTree (.send ⟨0⟩ ⟨2⟩) ⟨1⟩ 2 = .ok (g, stats) ∧ g.scopes[1]? = some s ∧
      s.feedback = some ⟨1⟩ ∧ g.sendAt? 1 1 = some x := ⟨_, _, _, _, rfl, rfl, rfl, rfl⟩
  obtain ⟨hmem, hscope, -⟩ := SendGraph.mem_of_sendAt? hx
  obtain ⟨htrap, hagain⟩ := recorded_lite_trap_iff built_exempted h hs hf (by decide)
  have hlite : s.lite := hagain exempted .null 1 comp additionCode bothInstalled true rfl
    rfl hcompile hscopes rfl treeOfNative_additionCode.symm (by decide)
  have hnone : x.resolution.trap? = none := by
    refine Option.not_isSome_iff_eq_none.1 fun hsome => ?_
    simp [((htrap x hmem hscope).1 hsome).1] at hlite
  exact ⟨comp, g, stats, s, x, built_exempted, hcompile, hscopes, treeOfNative_additionCode ▸ h, hs,
    hf, by decide, by decide, hx, hlite, hnone⟩

/-- In the code of the second method the addition gets a trap, although it is recorded as
    a scope without full debug information. -/
theorem trap_in_recorded_lite : ∃ comp comp' g stats s x, exempted.classes.Built ∧
    exempted.compile .null (.send ⟨0⟩ ⟨2⟩) ⟨1⟩ 1 = .ok comp ∧
      additionCode.scopes = comp.native.scopes ∧
    exempted.compile .null (.send ⟨0⟩ ⟨3⟩) ⟨2⟩ 1 = .ok comp' ∧
      callingCode.scopes = comp'.native.scopes ∧
    exempted.graph (bothInstalled.treeOfNative callingCode true) (.send ⟨0⟩ ⟨3⟩) ⟨2⟩ 2 =
      .ok (g, stats) ∧
    g.scopes[2]? = some s ∧ s.feedback = some ⟨2⟩ ∧
      (bothInstalled.treeOfNative callingCode true).isLite ⟨2⟩ ∧
    g.sendAt? 2 1 = some x ∧ x.resolution.trap?.isSome := by
  rw [treeOfNative_callingCode]
  exact ⟨_, _, _, _, _, _, built_exempted, rfl, rfl, rfl, rfl, rfl, rfl, rfl, rfl, rfl, rfl⟩

end Compiler

end Warmup
