import Warmup.Deoptimization
import Warmup.Proofs.Run

/-!
# Scope chains

A compiled activation in some scope of its code stands for one activation per
scope from the root of the code down to that scope, the *chain* of the scope
(`NativeMethod.ChainTo`). It is found by going from sender to sender.

* `scopeChain_eq_ok_iff`: a chain has no scope twice, so the search that goes
  through no more scopes than there are finds every chain;
* `unfolds_of_unfoldActivation`: the activations that take the place of a
  compiled one, and what each of them has of it (`Unfolds`);
* `NativeMethod.Compiled.exists_chainTo`, `NativeMethod.Compiled.head_chainTo`:
  in code that was compiled every scope has a chain, and it starts at the root;
* `Engine.compiled_step`: compilations add such code.
-/

namespace Warmup

namespace NativeMethod

/-- The scopes from the root down to the one at `o`, each with its position. In
    the scope at `o` this is `bci`; a scope that another one is inlined into is
    at the send that it was inlined at. -/
inductive ChainTo (n : NativeMethod) : Offset → Bci → List (ScopeDesc × Bci) → Prop
  | root {o : Offset} {bci : Bci} {d : ScopeDesc} :
    n.scope? o = some d → d.sender = none → ChainTo n o bci [(d, bci)]
  | inlined {o o' : Offset} {bci bci' : Bci} {d : ScopeDesc} {l : List (ScopeDesc × Bci)} :
    n.scope? o = some d → d.sender = some (o', bci') → ChainTo n o' bci' l →
      ChainTo n o bci (l ++ [(d, bci)])

variable {n : NativeMethod} {o o' : Offset} {bci bci' : Bci} {d : ScopeDesc}
  {l l' : List (ScopeDesc × Bci)}

theorem mem_of_scope? (h : n.scope? o = some d) : d ∈ n.scopes := List.mem_of_find?_eq_some h

theorem offset_of_scope? (h : n.scope? o = some d) : d.offset = o := by
  simpa using List.find?_some h

namespace ChainTo

/-- The position in the last scope is all that chains of one scope differ in. -/
theorem eq_append (h : n.ChainTo o bci l) (h' : n.ChainTo o bci' l') :
    ∃ init d, n.scope? o = some d ∧ l = init ++ [(d, bci)] ∧ l' = init ++ [(d, bci')] := by
  -- A scope has one descriptor, so both chains have the same rule.
  induction h generalizing bci' l' with
  | root hd hs =>
    refine ⟨[], _, hd, rfl, ?_⟩
    rcases h' with ⟨hd', hs'⟩ | ⟨hd', hs', -⟩
    · rw [hd] at hd'
      cases hd'
      rfl
    · rw [hd] at hd'
      cases hd'
      rw [hs] at hs'
      cases hs'
  | @inlined o o₁ bci bci₁ d l hd hs _ ih =>
    refine ⟨l, d, hd, rfl, ?_⟩
    rcases h' with ⟨hd', hs'⟩ | ⟨hd', hs', hl'⟩
    · rw [hd] at hd'
      cases hd'
      rw [hs] at hs'
      cases hs'
    · rw [hd] at hd'
      cases hd'
      rw [hs] at hs'
      cases hs'
      obtain ⟨init, d', -, rfl, rfl⟩ := ih hl'
      rfl

/-- A scope has at most one chain. -/
theorem unique (h : n.ChainTo o bci l) (h' : n.ChainTo o bci l') : l = l' := by
  obtain ⟨init, d, -, rfl, rfl⟩ := h.eq_append h'
  rfl

/-- The length of a chain does not depend on the position in its last scope. -/
theorem length_eq (h : n.ChainTo o bci l) (h' : n.ChainTo o bci' l') : l.length = l'.length := by
  obtain ⟨init, d, -, rfl, rfl⟩ := h.eq_append h'
  simp

theorem ne_nil (h : n.ChainTo o bci l) : l ≠ [] := by
  cases h <;> simp

/-- Every scope of a chain has the chain up to it. -/
theorem take (h : n.ChainTo o bci l) {k : Nat} {e : ScopeDesc × Bci} (hk : l[k]? = some e) :
    n.scope? e.1.offset = some e.1 ∧ n.ChainTo e.1.offset e.2 (l.take (k + 1)) := by
  induction h with
  | root hd hs =>
    obtain ⟨rfl, rfl⟩ : k = 0 ∧ _ = e := by simpa [List.getElem?_singleton] using hk
    rw [offset_of_scope? hd]
    exact ⟨hd, .root hd hs⟩
  -- A prefix of the chain is a prefix of the sender's, or the chain itself.
  | @inlined o o₁ bci bci₁ d l hd hs hl ih =>
    rcases Nat.lt_or_ge k l.length with hlt | hge
    · rw [List.getElem?_append_left hlt] at hk
      rw [List.take_append_of_le_length hlt]
      exact ih hk
    · obtain ⟨hk', rfl⟩ : k - l.length = 0 ∧ (d, bci) = e := by
        simpa [List.getElem?_append_right hge, List.getElem?_singleton] using hk
      rw [offset_of_scope? hd, List.take_of_length_le (by simp; omega)]
      exact ⟨hd, .inlined hd hs hl⟩

/-- A chain has no scope twice. -/
theorem nodup (h : n.ChainTo o bci l) : (l.map (·.1)).Nodup := by
  rw [List.nodup_iff_getElem?_ne_getElem?]
  intro i j hij hj heq
  simp only [List.length_map] at hj
  obtain ⟨e, he⟩ : ∃ e, l[j]? = some e := ⟨_, List.getElem?_eq_getElem hj⟩
  obtain ⟨e', he'⟩ : ∃ e', l[i]? = some e' := ⟨_, List.getElem?_eq_getElem (hij.trans hj)⟩
  have hsame : e'.1 = e.1 := by simpa [he, he'] using heq
  -- The chains up to the two places are chains of one scope.
  have hlen := (h.take he').2.length_eq (hsame ▸ (h.take he).2)
  simp only [List.length_take] at hlen
  omega

/-- A chain has no scope twice, so it is no longer than there are scopes. -/
theorem length_le (h : n.ChainTo o bci l) : l.length ≤ n.scopes.length := by
  have hsub : l.map (·.1) ⊆ n.scopes := by
    intro d hd
    obtain ⟨e, he, rfl⟩ := List.mem_map.1 hd
    obtain ⟨k, hk⟩ := List.mem_iff_getElem?.1 he
    exact mem_of_scope? (h.take hk).1
  simpa using (h.nodup.subperm hsub).length_le

end ChainTo

/-- The search finds the chains that are not longer than it goes. -/
theorem scopeChain_ok_iff_length (steps : Nat) :
    scopeChain n steps o bci = .ok l ↔ n.ChainTo o bci l ∧ l.length ≤ steps := by
  induction steps generalizing o bci l with
  | zero =>
    constructor
    · rintro ⟨⟩
    · rintro ⟨h, hlen⟩
      exact absurd (List.length_eq_zero_iff.1 (Nat.le_zero.1 hlen)) h.ne_nil
  | succ steps ih =>
    rw [scopeChain]
    constructor
    · intro h
      split at h
      · cases h
      · next d hd =>
        split at h
        · next hs =>
          cases h
          exact ⟨.root hd hs, by simp⟩
        · next o' bci' hs =>
          obtain ⟨l', hl', h⟩ := exists_ok_of_bind h
          cases h
          obtain ⟨hchain, hlen⟩ := ih.1 hl'
          exact ⟨.inlined hd hs hchain, by simpa using hlen⟩
    · rintro ⟨h, hlen⟩
      rcases h with ⟨hd, hs⟩ | ⟨hd, hs, hl⟩
      · simp only [hd, hs]
      · simp only [List.length_append, List.length_singleton, Nat.add_le_add_iff_right] at hlen
        simp only [hd, hs, ih.2 ⟨hl, hlen⟩]
        rfl

/-- The search finds every chain. -/
theorem scopeChain_eq_ok_iff :
    scopeChain n (n.scopes.length + 1) o bci = .ok l ↔ n.ChainTo o bci l := by
  rw [scopeChain_ok_iff_length]
  exact ⟨fun h => h.1, fun h => ⟨h, Nat.le_succ_of_le h.length_le⟩⟩

end NativeMethod

/-! ## The activations of a chain -/

/-- What an activation is of and where it is. -/
def Activation.place (a : Activation) : LookupKey × MethodId × Bci := (a.key, a.method, a.bci)

/-- The activations `l` do together what `a` does, which runs `n` in the scope at
    `o`: one for each scope of the chain. The oldest one has entered the code and
    has its context; the newest one has the home of the code, and is taken for a
    block if the code was one. -/
structure Unfolds (n : NativeMethod) (a : Activation) (o : Offset) (l : List Activation) :
    Prop where
  chain : ∃ chain, n.ChainTo o a.bci chain ∧ l.map (·.place) = chain.map fun e =>
    (e.1.key, e.1.method, e.2)
  interpreted : ∀ b ∈ l, b.execution = .interpreted
  oldest : ∀ k b, l[k]? = some b → b.own = (if k = 0 then a.own else none) ∧
    b.superSend = (k = 0 && a.superSend)
  newest : ∀ k b, l[k]? = some b →
    b.home = (if k + 1 = l.length then a.home else none) ∧
    b.isBlock = (k + 1 = l.length && a.isBlock)

section Unfold

variable {n : NativeMethod} {a : Activation} {o : Offset} {l : List Activation}

theorem Unfolds.ne_nil (h : Unfolds n a o l) : l ≠ [] := by
  rintro rfl
  obtain ⟨chain, hchain, hl⟩ := h.chain
  exact hchain.ne_nil (List.map_eq_nil_iff.1 hl.symm)

/-- The activations are those of the scopes, in order. -/
theorem Unfolds.place_of_getElem? (h : Unfolds n a o l) {chain : List (ScopeDesc × Bci)}
    (hchain : n.ChainTo o a.bci chain) (k : Nat) :
    (l[k]?).map (·.place) = (chain[k]?).map fun e => (e.1.key, e.1.method, e.2) := by
  obtain ⟨chain', hchain', hl⟩ := h.chain
  rw [← List.getElem?_map, hl, hchain.unique hchain', List.getElem?_map]

/-- There is one activation per scope of the chain. -/
theorem Unfolds.length_eq (h : Unfolds n a o l) {chain : List (ScopeDesc × Bci)}
    (hchain : n.ChainTo o a.bci chain) :
    l.length = chain.length := by
  obtain ⟨chain', hchain', hl⟩ := h.chain
  rw [hchain.unique hchain']
  simpa using congrArg List.length hl

/-- They refer to the contexts that the compiled activation refers to. -/
theorem Unfolds.exists_references_iff (h : Unfolds n a o l) {c : ContextId} :
    (∃ b ∈ l, b.references c) ↔ a.references c := by
  simp only [Activation.references, Bool.or_eq_true, decide_eq_true_eq]
  constructor
  · rintro ⟨b, hb, hc⟩
    obtain ⟨k, hk⟩ := List.mem_iff_getElem?.1 hb
    rw [(h.oldest k b hk).1, (h.newest k b hk).1] at hc
    rcases hc with hc | hc
    · exact .inl (by split at hc <;> [exact hc; cases hc])
    · exact .inr (by split at hc <;> [exact hc; cases hc])
  · -- The oldest has the context of the activation, and the newest its home.
    have hpos := List.length_pos_of_ne_nil h.ne_nil
    rintro (hc | hc)
    · have hfirst := List.getElem?_eq_getElem hpos
      refine ⟨_, List.mem_of_getElem? hfirst, .inl ?_⟩
      rw [(h.oldest _ _ hfirst).1, if_pos rfl, hc]
    · have hlast := List.getElem?_eq_getElem (Nat.sub_one_lt_of_lt hpos)
      refine ⟨_, List.mem_of_getElem? hlast, .inr ?_⟩
      rw [(h.newest _ _ hlast).1, if_pos (Nat.sub_add_cancel hpos), hc]

/-- The activations that take the place of a compiled one. -/
theorem unfolds_of_unfoldActivation (h : unfoldActivation n a o = .ok l) : Unfolds n a o l := by
  rw [unfoldActivation] at h
  obtain ⟨chain, hchain, h⟩ := exists_ok_of_bind h
  cases h
  have hget {k : Nat} {b : Activation} {f : Nat → ScopeDesc × Bci → Activation}
      (hb : (chain.mapIdx f)[k]? = some b) : ∃ e, b = f k e := by
    rw [List.getElem?_mapIdx] at hb
    obtain ⟨e, -, rfl⟩ := Option.map_eq_some_iff.1 hb
    exact ⟨e, rfl⟩
  refine ⟨⟨chain, NativeMethod.scopeChain_eq_ok_iff.1 hchain, ?_⟩, fun b hb => ?_,
    fun k b hb => ?_, fun k b hb => ?_⟩
  · refine List.ext_getElem? fun k => ?_
    simp only [List.getElem?_map, List.getElem?_mapIdx, Option.map_map]
    rfl
  · obtain ⟨k, hk⟩ := List.mem_iff_getElem?.1 hb
    obtain ⟨e, rfl⟩ := hget hk
    rfl
  · obtain ⟨e, rfl⟩ := hget hb
    exact ⟨rfl, rfl⟩
  · obtain ⟨e, rfl⟩ := hget hb
    rw [List.length_mapIdx]
    exact ⟨rfl, rfl⟩

/-- An activation is replaced if its scope has a chain. -/
theorem exists_unfoldActivation_iff :
    (∃ l, unfoldActivation n a o = .ok l) ↔ ∃ chain, n.ChainTo o a.bci chain := by
  simp only [← NativeMethod.scopeChain_eq_ok_iff]
  constructor
  · rintro ⟨l, h⟩
    obtain ⟨chain, hchain, -⟩ := exists_ok_of_bind h
    exact ⟨chain, hchain⟩
  · rintro ⟨chain, hchain⟩
    rw [unfoldActivation, hchain]
    exact ⟨_, rfl⟩

end Unfold

/-! ## Code that was compiled -/

theorem Compiler.Inlines.depth {c : Compiler} {t : FeedbackTree} {s k : CompileScope}
    {site : SendSite} {d : ClassId} (h : c.Inlines t s site d k) : k.depth = s.depth + 1 := by
  obtain ⟨e, m, builtin, -, -, hk⟩ := h
  rw [hk]
  rfl

namespace NativeMethod

/-- It was compiled for its key and its method, whatever has become of its
    counters, caches and traps since. -/
def Compiled (n : NativeMethod) : Prop :=
  ∃ (c : Compiler) (t : FeedbackTree) (level : Nat) (comp : Compilation),
    c.classes.Built ∧ c.compile t n.key n.method level = .ok comp ∧ n.scopes = comp.native.scopes

variable {n : NativeMethod} {o : Offset} {bci : Bci} {d : ScopeDesc} {l : List (ScopeDesc × Bci)}

/-- The scopes of code hang together: the scope at offset 0 is the root, and all
    others have a sender that is nearer to it. -/
structure Rooted (n : NativeMethod) (depth : Offset → Nat) : Prop where
  root : ∃ lite, n.scope? 0 = some ⟨0, none, n.key, n.method, lite⟩
  sender : ∀ o d, n.scope? o = some d → o ≠ 0 →
    ∃ o' bci d', d.sender = some (o', bci) ∧ n.scope? o' = some d' ∧ depth o' < depth o

/-- Compiled code is rooted, with the depths of its scopes in the graph. -/
theorem Compiled.rooted (h : n.Compiled) : ∃ depth, n.Rooted depth := by
  obtain ⟨c, t, level, comp, hb, hcompile, hn⟩ := h
  rw [Compiler.compile] at hcompile
  obtain ⟨⟨g, stats⟩, hgraph, hcompile⟩ := exists_ok_of_bind hcompile
  obtain ⟨native, hemit, hcompile⟩ := exists_ok_of_bind hcompile
  cases hcompile
  obtain ⟨-, -, hscopes, -⟩ := SendGraph.emit_ok hemit
  obtain ⟨-, -, -, m, hm, hexp⟩ := Compiler.graph_expanded hgraph
  have hnumbered : ∀ (i : Nat) k, g.scopes[i]? = some k → k.id = i :=
    fun i k hk => (hexp.numbered i k hk).trans (Nat.zero_add i)
  obtain ⟨l, hl⟩ : ∃ l, g.scopes = Compiler.rootScope t n.key m :: l :=
    List.head?_eq_some_iff.1 hexp.head
  have hscope {k : CompileScope} (hk : g.scopes[k.id]? = some k) : n.scope? k.id = some k.desc := by
    rw [scope?, hn, hscopes]
    exact SendGraph.find?_desc hnumbered hk
  refine ⟨fun o => (g.scopes[o]?.map (·.depth)).getD 0, ⟨false, ?_⟩, fun o d hd ho => ?_⟩
  · have hroot := hscope (k := Compiler.rootScope t n.key m) (by rw [hl]; rfl)
    rw [← hb.wellFormed.id_eq _ m hm]
    exact hroot
  · -- A scope that is not the first one is inlined at a send of another one.
    have hmem : d ∈ g.scopes.map (·.desc) := hscopes ▸ hn ▸ mem_of_scope? hd
    obtain ⟨k, hk, rfl⟩ := List.mem_map.1 hmem
    obtain ⟨i, hi⟩ := List.mem_iff_getElem?.1 hk
    obtain rfl : i = o := (hnumbered i k hi).symm.trans (offset_of_scope? hd)
    obtain ⟨i, rfl⟩ := Nat.exists_eq_succ_of_ne_zero ho
    have htail : k ∈ l := by
      rw [hl] at hi
      exact List.mem_of_getElem? hi
    obtain ⟨s, -, site, cls, hs, -, -, hin⟩ :=
      hexp.hangs g.scopes (Within.self g.scopes) k (by simp only [hl]; exact htail)
    refine ⟨s.id, site.bci, s.desc, hin.sender, hscope hs, ?_⟩
    simp only [hi, hs, Option.map_some, Option.getD_some, hin.depth]
    omega

/-- Every scope has a chain. -/
theorem Compiled.exists_chainTo (h : n.Compiled) (hd : n.scope? o = some d) (bci : Bci) :
    ∃ l, n.ChainTo o bci l := by
  obtain ⟨depth, hrooted⟩ := h.rooted
  induction hdepth : depth o using Nat.strongRecOn generalizing o d bci with
  | ind k ih =>
    by_cases ho : o = 0
    · obtain ⟨lite, hroot⟩ := hrooted.root
      exact ⟨_, .root (ho ▸ hroot) rfl⟩
    · obtain ⟨o', bci', d', hs, hd', hlt⟩ := hrooted.sender o d hd ho
      obtain ⟨l, hl⟩ := ih _ (hdepth ▸ hlt) hd' bci' rfl
      exact ⟨_, .inlined hd hs hl⟩

/-- The chain of a scope starts at the root. -/
theorem Compiled.head_chainTo (h : n.Compiled) (hl : n.ChainTo o bci l) :
    ∃ lite bci', l.head? = some (⟨0, none, n.key, n.method, lite⟩, bci') := by
  obtain ⟨depth, hrooted⟩ := h.rooted
  obtain ⟨lite, hroot⟩ := hrooted.root
  refine ⟨lite, ?_⟩
  induction hl with
  | @root o bci d hd hs =>
    -- Only the root has no sender.
    have ho : o = 0 := by
      by_contra ho
      obtain ⟨o', bci', d', hs', -⟩ := hrooted.sender o d hd ho
      rw [hs] at hs'
      cases hs'
    rw [ho, hroot] at hd
    cases hd
    exact ⟨bci, rfl⟩
  | inlined _ _ hl ih =>
    rw [List.head?_append_of_ne_nil _ hl.ne_nil]
    exact ih

/-- The root alone has a chain without senders. -/
theorem Compiled.length_chainTo_eq_one_iff (h : n.Compiled) (hl : n.ChainTo o bci l) :
    l.length = 1 ↔ o = 0 := by
  obtain ⟨depth, hrooted⟩ := h.rooted
  -- A chain of one scope has no sender.
  rcases hl with ⟨hd, hs⟩ | ⟨hd, hs, hl⟩
  · refine ⟨fun _ => ?_, fun _ => rfl⟩
    by_contra ho
    obtain ⟨o', bci', d', hs', -⟩ := hrooted.sender o _ hd ho
    rw [hs] at hs'
    cases hs'
  · have hpos := List.length_pos_of_ne_nil hl.ne_nil
    refine ⟨fun hlen => ?_, fun ho => ?_⟩
    · simp only [List.length_append, List.length_singleton] at hlen
      omega
    · obtain ⟨lite, hroot⟩ := hrooted.root
      rw [ho, hroot] at hd
      cases hd
      cases hs

/-- Code stays compiled. -/
theorem Became.compiled {n' : NativeMethod} (h : n.Became n') (hn : n.Compiled) : n'.Compiled := by
  obtain ⟨c, t, level, comp, hb, hcompile, hscopes⟩ := hn
  refine ⟨c, t, level, comp, hb, ?_, h.scopes.trans hscopes⟩
  rw [h.key, h.method]
  exact hcompile

end NativeMethod

/-- What is compiled is `NativeMethod.Compiled`. -/
theorem Compiler.compiled_of_compile {c : Compiler} {t : FeedbackTree} {key : LookupKey}
    {method : MethodId} {level : Nat} {comp : Compilation} (hb : c.classes.Built)
    (h : c.compile t key method level = .ok comp) :
    comp.native.Compiled := by
  refine ⟨c, t, level, comp, hb, ?_, rfl⟩
  have hcompile := h
  rw [compile] at h
  obtain ⟨⟨g, stats⟩, hgraph, h⟩ := exists_ok_of_bind h
  obtain ⟨native, hemit, h⟩ := exists_ok_of_bind h
  cases h
  obtain ⟨hkey, hmethod, -⟩ := SendGraph.emit_ok hemit
  obtain ⟨rfl, rfl, -⟩ := graph_expanded hgraph
  simp only [hkey, hmethod]
  exact hcompile

/-- All code of the table was compiled. -/
def CodeTable.Compiled (t : CodeTable) : Prop := ∀ i n, t.get? i = some n → n.Compiled

/-- Installing compiled code keeps all code compiled. -/
theorem CodeTable.Compiled.install {t t' : CodeTable} {n : NativeMethod} {i : NativeId}
    (h : t.Compiled) (hn : n.Compiled) (hinstall : t.install n = .ok (t', i)) : t'.Compiled := by
  intro j m hm
  by_cases hj : j = i
  · obtain ⟨version, hself⟩ := get?_install_self hinstall
    rw [hj, hself] at hm
    cases hm
    exact hn
  · have hm' := hm
    rw [get?_install hinstall hj] at hm'
    obtain ⟨old, hold, -⟩ := Option.map_eq_some_iff.1 hm'
    obtain ⟨m', hm', hbecame⟩ := keeps_install hinstall j old hold
    obtain rfl : m = m' := Option.some.inj (hm.symm.trans hm')
    exact hbecame.compiled (h j old hold)

/-- A compilation adds compiled code. -/
theorem Engine.compiled_compileAt {e e' : Engine} {k : LookupKey} {level : Nat} {i : NativeId}
    (hb : e.classes.Built) (h : e.code.Compiled) (hcompile : e.compileAt k level = .ok (e', i)) :
    e'.code.Compiled := by
  rw [compileAt] at hcompile
  obtain ⟨comp, hprepare, hcompile⟩ := exists_ok_of_bind hcompile
  obtain ⟨⟨code, id⟩, hinstall, hcompile⟩ := exists_ok_of_bind hcompile
  cases hcompile
  rw [prepare] at hprepare
  obtain ⟨m, -, hprepare⟩ := exists_ok_of_bind hprepare
  exact h.install (e.compiler.compiled_of_compile hb hprepare) hinstall

theorem Engine.compiled_step {e : Engine} (hb : e.classes.Built) (h : e.code.Compiled)
    (k : LookupKey) :
    (e.step (.compile k)).code.Compiled := by
  simp only [step, orElse]
  split
  · next hcompile =>
    rw [compile] at hcompile
    split at hcompile
    · exact compiled_compileAt hb h hcompile
    · obtain ⟨level, -, hcompile⟩ := exists_ok_of_bind hcompile
      exact compiled_compileAt hb h hcompile
  · exact h

end Warmup
