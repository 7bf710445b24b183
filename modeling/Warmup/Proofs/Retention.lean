import Warmup.Proofs.Findings
import Warmup.Proofs.Limits
import Warmup.Proofs.Reconstruction

/-!
# What a recompilation retains

Code that is compiled again from its own feedback inlines all that it had inlined
before, and more where its caches have seen more.

The feedback tree remembers the graph (`FeedbackTree.Remembers`): at every send
where something was inlined it names the class, leads on to the scope itself, and
does not forbid inlining. So the second compilation follows the first one step by
step, always with the feedback that stands for the scope of the first
(`Reached.retrace`).
-/

namespace Warmup

/-- All that is inlined in a graph is inlined in a second one. A callee that took the
    place of its send does so again, and an arm of a type case is still an arm of
    one. -/
structure SendGraph.RetainedIn (g g' : SendGraph) : Prop where
  scopes : ∀ (o : Offset) (k : CompileScope), g.scopes[o]? = some k →
    ∃ (o' : Offset) (k' : CompileScope), g'.scopes[o']? = some k' ∧ g'.path o' = g.path o ∧
      k'.method = k.method ∧ k'.receiver = k.receiver
  sends : ∀ x ∈ g.sends, ∃ x' ∈ g'.sends,
    g'.path x'.scope = g.path x.scope ∧ x'.bci = x.bci ∧ x'.selector = x.selector ∧
      ∀ y ∈ x.resolution.arms, ∃ o', (y.1, o') ∈ x'.resolution.arms ∧ g'.path o' = g.path y.2 ∧
        (x.resolution = .inlined y.1 y.2 → x'.resolution = .inlined y.1 o') ∧
        (x.resolution.isTypeCase → x'.resolution.isTypeCase)

/-- Code after some use: it has the same scopes, and no cache is flagged that was not
    flagged when it was compiled. -/
structure NativeMethod.UsedAs (n n' : NativeMethod) : Prop where
  scopes : n'.scopes = n.scopes
  flagged : ∀ s' ∈ n'.sites, s'.cache.flags.uninlinable →
    ∃ s ∈ n.sites, s.scope = s'.scope ∧ s.bci = s'.bci ∧ s.cache.flags.uninlinable

/-- The feedback in a tree about a graph: under the handle of each scope, the callees
    that were inlined into it. -/
structure FeedbackTree.Remembers (t : FeedbackTree) (g : SendGraph) : Prop where
  isNull : t.isNull = false
  classes : ∀ (i : Nat) (k : CompileScope) (o : Offset) (bci : Bci), g.scopes[i]? = some k →
    k.sender = some (o, bci) → k.key.cls ∈ t.classes ⟨o⟩ bci
  find? : ∀ (i : Nat) (k : CompileScope) (o : Offset) (bci : Bci), g.scopes[i]? = some k →
    k.sender = some (o, bci) → t.find? ⟨o⟩ bci k.key = some ⟨i⟩
  inlinable : ∀ (i : Nat) (k : CompileScope) (o : Offset) (bci : Bci), g.scopes[i]? = some k →
    k.sender = some (o, bci) → t.isUninlinable ⟨o⟩ bci = false

/-! ## What the tree remembers -/

namespace FeedbackTree

variable {P : ScopeId → Bci → Knowledge → Prop} {l : List CompileScope} {n : NativeId}
  {t : FeedbackTree} {i : Nat} {k : CompileScope} {o : Offset} {bci : Bci}

/-- The first scope with a key at a send is found there. -/
theorem Linked.find?_eq_some (hlinked : t.Linked) {x y : ScopeId} {key : LookupKey}
    (hy : y ∈ t.subscopes x bci) (hkey : (t.get? y).bind (·.what.key?) = some key)
    (hfirst : ∀ z ∈ t.subscopes x bci, z.index < y.index → (t.get? z).bind (·.what.key?) ≠ some key) :
    t.find? x bci key = some y := by
  -- What is filed at a send is filed in the order of the handles.
  obtain ⟨before, after, hsplit⟩ := List.append_of_mem hy
  have hsorted := hlinked.pairwise_subscopes x bci
  rw [hsplit] at hsorted
  refine List.find?_eq_some_iff_append.2
    ⟨decide_eq_true hkey, before, after, hsplit, fun z hz => ?_⟩
  have hlt : z.index < y.index := (List.pairwise_append.1 hsorted).2.2 z hz y List.mem_cons_self
  simpa using hfirst z (hsplit ▸ List.mem_append_left _ hz) hlt

section Rebuilt

variable (h : Gains P (ofScopes (l.map (·.rebuilt n))) t)
include h

/-- The tree has the scopes of the graph under the same numbers. -/
theorem get?_rebuilt (hk : l[i]? = some k) :
    ∃ s, t.scopes[i]? = some s ∧ s.what = .inlined k.key k.method n k.id k.lite ∧
      s.sender = k.sender.map fun d => (⟨d.1⟩, d.2) := by
  obtain ⟨s, hs, hwhat, hsender, -⟩ := h.keeps i (k.rebuilt n) (by simp [hk])
  exact ⟨s, hs, hwhat, hsender⟩

theorem isNull_rebuilt (hk : l[i]? = some k) : t.isNull = false := by
  obtain ⟨s, hs, hwhat, -⟩ := get?_rebuilt h hk
  have hmem : s ∈ t.scopes := List.mem_of_getElem? hs
  refine Bool.and_eq_false_imp.2 fun _ => List.all_eq_false.2 ⟨s, hmem, ?_⟩
  simp [hwhat]

/-- The scopes below a scope of the graph are filed at it. -/
theorem filedAt_rebuilt (hl : Ordered l) (hk : l[i]? = some k)
    (hsender : k.sender = some (o, bci)) : t.FiledAt ⟨o⟩ := by
  have ho : o < l.length := Nat.lt_trans (hl.sender_lt i k o bci hk hsender)
    (List.getElem?_eq_some_iff.1 hk).1
  exact h.filedAt (hl.filed_rebuilt n) (by simpa using ho)

/-- The tree names the class of every callee that was inlined. -/
theorem classes_rebuilt (hl : Ordered l) (hk : l[i]? = some k)
    (hsender : k.sender = some (o, bci)) :
    k.key.cls ∈ t.classes ⟨o⟩ bci := by
  obtain ⟨s, hs, hwhat, hs'⟩ := get?_rebuilt h hk
  rw [hsender] at hs'
  refine (filedAt_rebuilt h hl hk hsender).mem_classes_iff.2
    ⟨k.key, rfl, .inl ⟨s, List.mem_of_getElem? hs, hs', ?_⟩⟩
  rw [Knowledge.Shows, hwhat]
  rfl

/-- The first scope with a key at a send is the one that was inlined there: no other
    one was, and what caches add comes later. -/
theorem find?_rebuilt (hl : Ordered l) (hnodup : (l.map fun k => (k.sender, k.key)).Nodup)
    (hk : l[i]? = some k) (hsender : k.sender = some (o, bci)) :
    t.find? ⟨o⟩ bci k.key = some ⟨i⟩ := by
  have hfiled := filedAt_rebuilt h hl hk hsender
  obtain ⟨s, hs, hwhat, hs'⟩ := get?_rebuilt h hk
  have hi : i < l.length := (List.getElem?_eq_some_iff.1 hk).1
  have hlinked := h.linked (linked_ofScopes _)
  refine hlinked.find?_eq_some ((hfiled bci ⟨i⟩).2 ⟨s, hs, by rw [hs', hsender]; rfl⟩) ?_ ?_
  · rw [get?, hs, Option.bind_some, hwhat]
    rfl
  · -- An earlier scope with the key would be at the same send twice in the graph.
    rintro ⟨j⟩ hj hlt hkey₁
    replace hlt : j < i := hlt
    obtain ⟨s₁, hs₁, hsender₁⟩ := (hfiled bci ⟨j⟩).1 hj
    obtain ⟨s₂, hs₂, hwhat₂, hsender₂⟩ :=
      get?_rebuilt h (List.getElem?_eq_getElem (Nat.lt_trans hlt hi))
    obtain rfl := Option.some.inj (hs₁.symm.trans hs₂)
    refine List.nodup_iff_getElem?_ne_getElem?.1 hnodup j i hlt (by simpa using hi) ?_
    have hkey : l[j].key = k.key := by
      rw [get?, hs₂, Option.bind_some, hwhat₂] at hkey₁
      exact Option.some.inj hkey₁
    have hsame : l[j].sender = k.sender := by
      rw [hsender₂] at hsender₁
      obtain ⟨⟨o', bci'⟩, ho', heq⟩ := Option.map_eq_some_iff.1 hsender₁
      obtain ⟨ho, rfl⟩ := Prod.mk.inj heq
      obtain rfl := congrArg ScopeId.index ho
      rw [ho', hsender]
    rw [List.getElem?_map, List.getElem?_map, hk, List.getElem?_eq_getElem (Nat.lt_trans hlt hi),
      Option.map_some, Option.map_some, hkey, hsame]

end Rebuilt

end FeedbackTree

namespace Compiler

variable {c c' : Compiler} {t t' : FeedbackTree} {g g' : SendGraph} {key : LookupKey}
  {method : MethodId} {level : Nat} {stats : InliningStats} {comp : Compilation} {n : NativeMethod}

/-- A scope that hangs at another was entered from there. -/
theorem graph_entered (h : c.graph t key method level = .ok (g, stats)) {i : Nat} {k : CompileScope}
    {o : Offset} {bci : Bci} (hk : g.scopes[i]? = some k) (hsender : k.sender = some (o, bci)) :
    ∃ a site d trail, g.scopes[o]? = some a.scope ∧ site.bci = bci ∧
      c.Enters t a site d ⟨k, trail⟩ := by
  obtain ⟨m, -, -, hscopes, -⟩ := graph_reached h
  obtain ⟨n, trail, hreached⟩ := hscopes i k hk
  generalize hb : (⟨k, trail⟩ : Caller) = b at hreached
  generalize g.path i = p at hreached
  -- A scope with a sender is not the root.
  rcases hreached with hroot | ⟨ha, henter, -⟩
  · obtain rfl : k = rootScope t key m := congrArg Caller.scope hb
    cases hsender
  · subst hb
    have heq := henter.sender
    rw [hsender] at heq
    obtain ⟨rfl, rfl⟩ := Prod.mk.inj (Option.some.inj heq)
    exact ⟨_, _, _, trail, ha.grown.scope, rfl, henter⟩

/-- Where a send is left that must not be inlined, nothing was inlined. -/
theorem not_uninlinable_of_sender (hw : c.classes.WellFormed)
    (h : c.graph t key method level = .ok (g, stats)) {i : Nat} {k : CompileScope} {x : SendNode}
    {q : RealSend} (hk : g.scopes[i]? = some k) (hsender : k.sender = some (x.scope, x.bci))
    (hx : x ∈ g.sends) (hq : x.resolution.send? = some q) :
    ¬q.flags.uninlinable := by
  intro hflag
  obtain ⟨a, site, d, trail, ha, hbci, henter⟩ := graph_entered h hk hsender
  obtain ⟨m, -, -, -, hsends⟩ := graph_reached h
  obtain ⟨n, a', site', hreached, hanswers⟩ := hsends x hx
  -- Both are sends of one scope, at one position.
  have hscope : a'.scope = a.scope := by
    have ha' := hreached.grown.scope
    rw [← hanswers.scope, ha] at ha'
    exact (Option.some.inj ha').symm
  obtain ⟨m₁, hm₁, hsite⟩ := henter.sends
  obtain ⟨m₂, hm₂, hsite'⟩ := hanswers.sends
  rw [hscope, hm₁] at hm₂
  obtain rfl := Option.some.inj hm₂
  have heq := hw.sendAt? hm₁ hsite
  rw [hbci, hanswers.bci, hw.sendAt? hm₁ hsite'] at heq
  obtain rfl := Option.some.inj heq
  have hnone := hanswers.settled.decided.uninlinable q hq hflag
  rw [hscope] at hnone
  simpa [hnone] using henter.receiver

/-- The tree of code that is used, and has no megamorphic cache, remembers the graph of the code. -/
theorem remembers_treeOfNative (hw : c.classes.WellFormed)
    (h : c.compile t key method level = .ok comp) (hn : comp.native.UsedAs n)
    (hmegamorphic : ∀ s ∈ n.sites, ¬s.cache.isMegamorphic) {e : Evidence} (he : e.settings.enabled)
    (trusted : Bool) : (e.treeOfNative n trusted).Remembers comp.graph := by
  obtain ⟨hgraph, hemit⟩ := compile_ok h
  have hpre : Preordered comp.graph.scopes := graph_preordered hgraph
  have hne : comp.graph.scopes ≠ [] := graph_scopes_ne_nil hgraph
  have hgains := Evidence.gains_treeOfNative hpre hne
    (hn.scopes.trans (SendGraph.emit_ok hemit).2.2.1) he trusted
  constructor
  · exact FeedbackTree.isNull_rebuilt hgains (List.getElem?_eq_getElem (List.length_pos_iff.2 hne))
  · exact fun i k o bci hk hsender => FeedbackTree.classes_rebuilt hgains hpre.toOrdered hk hsender
  · exact fun i k o bci hk hsender => FeedbackTree.find?_rebuilt hgains hpre.toOrdered
      (graph_nodup hgraph hw) hk hsender
  · intro i k o bci hk hsender
    by_contra htrue
    have hfiled := FeedbackTree.filedAt_rebuilt hgains hpre.toOrdered hk hsender
    obtain ⟨s, hs, hplace, hflag⟩ | ⟨-, -, ⟨⟩⟩ :=
      hfiled.isUninlinable_iff.1 (Bool.eq_true_of_not_eq_false htrue)
    obtain ⟨j, hj⟩ := List.mem_iff_getElem?.1 hs
    have ho : o < comp.graph.scopes.length :=
      Nat.lt_trans (hpre.sender_lt i k o bci hk hsender) (List.getElem?_eq_some_iff.1 hk).1
    rcases Nat.lt_or_ge j comp.graph.scopes.length with hlt | hge
    · -- Scopes of the graph are inlined callees themselves.
      obtain ⟨s', hs', hwhat, -⟩ := FeedbackTree.get?_rebuilt hgains (List.getElem?_eq_getElem hlt)
      obtain rfl := Option.some.inj (hj.symm.trans hs')
      rw [Knowledge.Shows, hwhat] at hflag
      cases hflag
    · obtain ⟨-, hreason⟩ := hgains.gained j s hj (by simpa using hge)
      obtain ⟨s', hs', heq, hbci, hflag'⟩ := hreason ⟨o⟩ bci hplace (by simpa using ho) hflag
      obtain rfl : s'.scope = o := congrArg ScopeId.index heq
      rcases hflag' with hmega | hflag'
      · exact hmegamorphic s' hs' hmega
      · obtain ⟨s₀, hs₀, hscope, hbci₀, hflag₀⟩ := hn.flagged s' hs' hflag'
        obtain ⟨x, hx, hsite⟩ := SendGraph.emit_sites hemit hs₀
        obtain ⟨q, hq, rfl⟩ := Option.map_eq_some_iff.1 hsite
        have hsender' : k.sender = some (x.scope, x.bci) := by
          rw [hsender, ← hbci, ← hscope, ← hbci₀]
        refine not_uninlinable_of_sender hw hgraph hk hsender' hx hq ?_
        rcases hlookup : q.lookupClass with _ | d <;>
          simpa [InlineCache.withFlags, CacheFlags.withCompiled, InlineCache.freshAt,
            InlineCache.fresh, InlineCache.freshSuper, hlookup] using hflag₀

/-! ## The second compilation -/

/-- Feedback that names a class gives an estimate with all that it names. -/
theorem estimate_of_mem_classes {s : CompileScope} {site : SendSite} {f : ScopeId} {d : ClassId}
    (hfeedback : c.settings.feedback.enabled) (hs : s.feedback = some f)
    (hd : d ∈ t.classes f site.bci) :
    (c.estimate t s site).classes = t.classes f site.bci := by
  obtain ⟨others, hseen⟩ :
      ∃ others, Estimate.ofFeedback t f site.bci = some ⟨t.classes f site.bci, others⟩ := by
    -- Feedback with a class is no reason to ask anything else.
    rw [Estimate.ofFeedback]
    split
    · exact ⟨_, rfl⟩
    · split
      · next hempty =>
        rw [List.isEmpty_iff.1 hempty] at hd
        cases hd
      · exact ⟨_, rfl⟩
  rw [estimate, hs]
  simp only [Option.bind_some, if_pos hfeedback, hseen]
  rfl

/-- Callers that are alike have the same kinds of sends. -/
theorem Decided.alike {a a' : Caller} {site : SendSite} {r r' : Resolution}
    (h : c.Decided t a.scope site r) (h' : c'.Decided t' a'.scope site r') (ha : a.Alike a')
    {y : ClassId × Offset} {o' : Offset} (hy : y ∈ r.arms) (ho' : (y.1, o') ∈ r'.arms) :
    (r = .inlined y.1 y.2 → r' = .inlined y.1 o') ∧ (r.isTypeCase → r'.isTypeCase) := by
  rcases hclass : staticClass? a.scope site with _ | d
  · have hcase : r.isTypeCase := h.dynamic hclass y hy
    refine ⟨fun hinlined => ?_, fun _ => h'.dynamic (ha.staticClass?_eq ▸ hclass) _ ho'⟩
    rw [hinlined] at hcase
    cases hcase
  · have hinlined : r = .inlined d y.2 := h.static d hclass y hy
    refine ⟨fun hinlined' => ?_, fun hcase => ?_⟩
    · obtain ⟨rfl, -⟩ := Resolution.inlined.inj (hinlined.symm.trans hinlined')
      exact h'.static _ (ha.staticClass?_eq ▸ hclass) _ ho'
    · rw [hinlined] at hcase
      cases hcase

section Retrace

variable (hremembers : t'.Remembers g) (hfeedback : c'.settings.feedback.enabled)
include hremembers hfeedback

/-- With the feedback that stands for a scope, all classes are expected for which
    something was inlined into it. -/
theorem mem_receivers_of_remembers {a a' b : Caller} {site : SendSite} {d : ClassId}
    (ha : a.Alike a') (hscope : a'.scope.feedback = some ⟨a.scope.id⟩)
    (hb : g.scopes[b.scope.id]? = some b.scope) (henter : c.Enters t a site d b) :
    d ∈ c'.receivers t' a'.scope site := by
  have hreceiver := henter.receiver
  rw [receivers] at hreceiver ⊢
  rw [← ha.staticClass?_eq]
  rcases hclass : staticClass? a.scope site with _ | d'
  · -- The key of the callee has the class for which it was tried.
    have hkey : b.scope.key.cls = d := by
      obtain ⟨e, m, builtin, he, -, -, heq⟩ := henter.callee
      rw [calleeAt?_of_dynamic hclass] at he
      obtain ⟨m', -, rfl⟩ := Option.map_eq_some_iff.1 he
      rw [heq]
      rfl
    have hmem : d ∈ t'.classes ⟨a.scope.id⟩ site.bci :=
      hkey ▸ hremembers.classes _ _ _ _ hb henter.sender
    have hinlinable : c'.isUninlinable t' a'.scope site = false := by
      simp [isUninlinable, hscope, hremembers.inlinable _ _ _ _ hb henter.sender]
    have hestimate := estimate_of_mem_classes hfeedback hscope hmem
    simpa [hinlinable, hestimate] using hmem
  · rwa [hclass] at hreceiver

variable (hclasses : c.classes = c'.classes)
  (hinlining : c.settings.inlining = c'.settings.inlining)
include hclasses hinlining

/-- What was inlined into a scope is inlined again, with the feedback that stands for
    it. -/
theorem Grown.retrace {k : Nat} {a a' : Caller} {site : SendSite} {m : Method} (ha : a.Alike a')
    (hscope : a'.scope.feedback = some ⟨a.scope.id⟩) (hgrown : c'.Grown t' g' k a')
    (hm : c.classes.method? a.scope.method = some m) (hsite : site ∈ m.sends) :
    ∃ r, ⟨a'.scope.id, site.bci, site.selector, r⟩ ∈ g'.sends ∧ c'.Decided t' a'.scope site r ∧
      ∀ d b j, c.Enters t a site d b → g.scopes[b.scope.id]? = some b.scope → k = j + 1 →
        ∃ b', c'.Enters t' a' site d b' ∧ c'.Grown t' g' j b' ∧
          (d, b'.scope.id) ∈ r.arms ∧ b.Alike b' ∧ b'.scope.feedback = some ⟨b.scope.id⟩ := by
  have htighter : c.Tighter c' := ⟨hclasses, hinlining ▸ .refl _⟩
  obtain ⟨r, hmem, hdecided, hfollow⟩ := hgrown.follow (t := t) htighter ha hm hsite
  refine ⟨r, hmem, hdecided, fun d b j henter hb hk => ?_⟩
  have hclass := mem_receivers_of_remembers hremembers hfeedback ha hscope hb henter
  obtain ⟨b', henter', hgrown', harm, halike⟩ := hfollow d b j henter hclass hk
  refine ⟨b', henter', hgrown', harm, halike, ?_⟩
  rw [henter'.feedback, hscope, Option.bind_some, ← halike.key]
  exact hremembers.find? _ _ _ _ hb henter.sender

/-- Every scope is reached again, along its path. -/
theorem Reached.retrace {levels k : Nat} {r r' a : Caller} {p : List (Bci × LookupKey)}
    (hr : r.Alike r') (hroot : r'.scope.feedback = some ⟨r.scope.id⟩)
    (hgrown : c'.Grown t' g' levels r') (h : c.Reached t g levels r p k a) :
    ∃ a', c'.Reached t' g' levels r' p k a' ∧ a.Alike a' ∧
      a'.scope.feedback = some ⟨a.scope.id⟩ := by
  induction h with
  | root _ => exact ⟨r', .root hgrown, hr, hroot⟩
  -- The second compilation enters the callee from the scope that stands for the first caller.
  | @enter p k a site d b _ henter hb ih =>
    obtain ⟨a', hreached', halike, hscope⟩ := ih
    obtain ⟨m, hm, hsite⟩ := henter.sends
    obtain ⟨_, -, -, hretrace⟩ :=
      Grown.retrace (t := t) hremembers hfeedback hclasses hinlining halike hscope
        hreached'.grown hm hsite
    obtain ⟨b', henter', hgrown', -, halike', hscope'⟩ := hretrace d b k henter hb.scope rfl
    refine ⟨b', ?_, halike', hscope'⟩
    rw [halike'.key]
    exact hreached'.enter henter' hgrown'

/-- Every send of a scope that is reached again is there again, with the callees that
    were inlined at it. -/
theorem Answers.retrace {levels k : Nat} {r r' a a' : Caller} {site : SendSite} {x : SendNode}
    (hg : Ordered g.scopes) (hg' : Ordered g'.scopes) (hr' : r'.scope.sender = none)
    (hscopes : ∀ (o : Offset) s, g.scopes[o]? = some s → ∃ j trail,
      c.Reached t g levels r (g.path o) j ⟨s, trail⟩)
    (hreached : c.Reached t g levels r (g.path x.scope) k a)
    (hreached' : c'.Reached t' g' levels r' (g.path x.scope) k a') (ha : a.Alike a')
    (hscope : a'.scope.feedback = some ⟨a.scope.id⟩) (h : c.Answers t g a site x) :
    ∃ x' ∈ g'.sends, g'.path x'.scope = g.path x.scope ∧ x'.bci = x.bci ∧ x'.selector = x.selector ∧
      ∀ y ∈ x.resolution.arms, ∃ o', (y.1, o') ∈ x'.resolution.arms ∧ g'.path o' = g.path y.2 ∧
        (x.resolution = .inlined y.1 y.2 → x'.resolution = .inlined y.1 o') ∧
        (x.resolution.isTypeCase → x'.resolution.isTypeCase) := by
  obtain ⟨m, hm, hsite⟩ := h.sends
  obtain ⟨_, hmem, hdecided, hretrace⟩ :=
    Grown.retrace (t := t) hremembers hfeedback hclasses hinlining ha hscope
      hreached'.grown hm hsite
  refine ⟨_, hmem, hreached'.path_eq hg' hr', h.bci.symm, h.selector.symm, fun y hy => ?_⟩
  obtain ⟨b, hb, henter⟩ := h.arms y hy
  have hpath : g.path y.2 = g.path x.scope ++ [(site.bci, b.scope.key)] := by
    rw [hg.path_sender hb henter.sender, h.scope]
  -- The path of the callee is longer by one step, so a level was left for it.
  obtain ⟨j, trail, hreachedb⟩ := hscopes y.2 b.scope hb
  obtain rfl : k = j + 1 := by
    have hlevels := hreachedb.levels_eq
    rw [hpath, List.length_append, List.length_singleton, ← hreached.levels_eq] at hlevels
    omega
  have hid : b.scope.id = y.2 := hg.id_eq y.2 _ hb
  obtain ⟨b', henter', hgrown', harm, halike', -⟩ := hretrace y.1 b j henter (hid ▸ hb) rfl
  refine ⟨b'.scope.id, harm, ?_, h.settled.decided.alike hdecided ha hy harm⟩
  rw [(hreached'.enter henter' hgrown').path_eq hg' hr', hpath, halike'.key]

/-- A graph that is compiled from a tree which remembers another one retains it. -/
theorem retainedIn_of_remembers {level' : Nat} {stats' : InliningStats}
    (h : c.graph t key method level = .ok (g, stats))
    (h' : c'.graph t' key method level' = .ok (g', stats')) :
    g.RetainedIn g' := by
  obtain ⟨m, hm, -, hscopes, hsends⟩ := graph_reached h
  obtain ⟨m', hm', hgrown, -, -⟩ := graph_reached h'
  rw [hclasses, hm'] at hm
  obtain rfl := Option.some.inj hm
  rw [hinlining] at hscopes hsends
  have hg' := graph_ordered h'
  -- Both walks start at the same root, the second with the first as its feedback.
  have halike : (rootCaller t key m').Alike (rootCaller t' key m') := ⟨rfl, rfl, rfl, rfl, rfl⟩
  have hroot : (rootCaller t' key m').scope.feedback = some ⟨(rootCaller t key m').scope.id⟩ := by
    simp only [rootCaller, rootScope, hremembers.isNull]
    rfl
  constructor
  · intro o s hs
    obtain ⟨k, trail, hreached⟩ := hscopes o s hs
    obtain ⟨a', hreached', ha, -⟩ :=
      hreached.retrace hremembers hfeedback hclasses hinlining halike hroot hgrown
    exact ⟨_, _, hreached'.grown.scope, hreached'.path_eq hg' rfl, ha.method.symm, ha.receiver.symm⟩
  · intro x hx
    obtain ⟨k, a, site, hreached, hanswers⟩ := hsends x hx
    obtain ⟨a', hreached', ha, hscope⟩ :=
      hreached.retrace hremembers hfeedback hclasses hinlining halike hroot hgrown
    exact hanswers.retrace hremembers hfeedback hclasses hinlining (graph_ordered h) hg' rfl
      hscopes hreached hreached' ha hscope

end Retrace

/-- Code is compiled again from the feedback of its own code, for the same classes and
    under the same settings. Unless one of its caches has gone megamorphic, all that
    was inlined is inlined again. -/
theorem retainedIn_recompile (hbuilt : c.classes.Built) (hfeedback : c.settings.feedback.enabled)
    (h : c.compile t key method level = .ok comp) (hn : comp.native.UsedAs n)
    (hmegamorphic : ∀ s ∈ n.sites, ¬s.cache.isMegamorphic) {e : Evidence}
    (he : e.settings = c.settings.feedback) (trusted : Bool) {code : CodeTable}
    {traps : TrapHistory} {level' : Nat} {comp' : Compilation}
    (h' : { c with code := code, traps := traps }.compile (e.treeOfNative n trusted) key
      method level' = .ok comp') :
    comp.graph.RetainedIn comp'.graph := by
  have hremembers : (e.treeOfNative n trusted).Remembers comp.graph :=
    remembers_treeOfNative hbuilt.wellFormed h hn hmegamorphic (he ▸ hfeedback) trusted
  refine retainedIn_of_remembers hremembers ?_ ?_ ?_ (compile_ok h).1 (compile_ok h').1
  · exact hfeedback
  · rfl
  · rfl

/-- The classes of the example are built by definitions. -/
theorem built_conditional : conditional.classes.Built := by
  have h := ((ClassTable.Built.initial.intern "run").intern "ifTrue:").intern "value"
  have h := ClassTable.Built.addMethod h (c := ⟨0⟩)
    (b := { selector := ⟨0⟩, steps := [.send ⟨1⟩ .unknown [.block ⟨3⟩], .send ⟨0⟩ .unknown []] })
    rfl
  have h := ClassTable.Built.addMethod h (c := ⟨5⟩)
    (b := { selector := ⟨1⟩, argCount := 1, steps := [.send ⟨2⟩ (.arg 0) []] }) rfl
  have h := ClassTable.Built.addMethod h (c := ⟨6⟩) (b := { selector := ⟨1⟩, argCount := 1 }) rfl
  exact @ClassTable.Built.addBlock _ _ ⟨0⟩ _ { selector := ⟨2⟩, steps := [.work 3] } h rfl

/-- The tree of the code in which the second send of the method has run: the scopes,
    and the callee from the cache. -/
def conditionalTree : FeedbackTree := .ofScopes [
  { what := .inlined (.send ⟨0⟩ ⟨0⟩) ⟨0⟩ ⟨5⟩ 0 false, sender := none, level := 0, complete := [1] },
  { what := .inlined (.send ⟨5⟩ ⟨1⟩) ⟨1⟩ ⟨5⟩ 1 false, sender := some (⟨0⟩, 0), level := 0 },
  { what := .inlined (.given .blockClosure ⟨3⟩) ⟨3⟩ ⟨5⟩ 2 false,
    sender := some (⟨1⟩, 0), level := 0 },
  { what := .inlined (.send ⟨6⟩ ⟨1⟩) ⟨2⟩ ⟨5⟩ 3 false, sender := some (⟨0⟩, 0), level := 0 },
  { what := .callee (.send .array ⟨0⟩) ⟨0⟩ (.interpreted ⟨0⟩),
    sender := some (⟨0⟩, 1), level := 1 }]

theorem treeOfNative_conditionalCode :
    codeOnly.treeOfNative conditionalCode true = conditionalTree := by
  have hsorted :
      conditionalScopes.mergeSort (fun a b => decide (a.offset ≤ b.offset)) = conditionalScopes :=
    List.mergeSort_of_pairwise (by decide)
  have henabled : codeOnly.settings.enabled := rfl
  rw [Evidence.treeOfNative, if_pos henabled, Evidence.walkNative, Evidence.placeScopes]
  simp only [conditionalCode, hsorted, List.mergeSort_nil, List.mergeSort_singleton]
  rfl

/-- The method is inlined into itself for arrays the second time, with all that is
    inlined there; and what was inlined the first time is inlined again. -/
theorem retainedIn_conditional : ∃ comp comp', conditional.classes.Built ∧
    conditional.compile .null (.send ⟨0⟩ ⟨0⟩) ⟨0⟩ 1 = .ok comp ∧
      comp.native.UsedAs conditionalCode ∧
    conditional.compile (codeOnly.treeOfNative conditionalCode true)
      (.send ⟨0⟩ ⟨0⟩) ⟨0⟩ 2 = .ok comp' ∧
    comp.graph.scopes.length = 4 ∧ comp'.graph.scopes.length = 8 ∧
      comp.graph.RetainedIn comp'.graph := by
  obtain ⟨comp, h, hscopes, hlength⟩ :
      ∃ comp, conditional.compile .null (.send ⟨0⟩ ⟨0⟩) ⟨0⟩ 1 = .ok comp ∧
      conditionalCode.scopes = comp.native.scopes ∧ comp.graph.scopes.length = 4 :=
        ⟨_, rfl, rfl, rfl⟩
  obtain ⟨comp', h', hlength'⟩ :
      ∃ comp', conditional.compile (codeOnly.treeOfNative conditionalCode true)
      (.send ⟨0⟩ ⟨0⟩) ⟨0⟩ 2 = .ok comp' ∧ comp'.graph.scopes.length = 8 := by
    rw [treeOfNative_conditionalCode]
    exact ⟨_, rfl, rfl⟩
  have hused : comp.native.UsedAs conditionalCode := ⟨hscopes, by simp [conditionalCode]⟩
  exact ⟨comp, comp', built_conditional, h, hused, h', hlength, hlength',
    retainedIn_recompile built_conditional rfl h hused (by decide) (e := codeOnly) rfl true h'⟩

end Compiler

end Warmup
