import Warmup.Proofs.Deoptimization

/-!
# What stands in for a compiled activation

The activations that a deoptimization puts in the place of a compiled one have
its contexts and its block flag, and neither is always right for the
interpreter.

* `optimized_left_iff`: a context that the compiled activation has laid out is
  replaced, the context of its home is not. So the interpreter is left with an
  optimized context if the activation is that of a block whose home is compiled
  and not affected itself;
* `recognizable_iff`: the flag belongs to the root of the code and goes to the
  newest activation. So activations are still recognized as blocks only if no
  block with a callee inlined into it, or inlined itself, is on a chain.
-/

namespace Warmup

namespace ProcessTable

variable {t t' : ProcessTable} {code : CodeTable} {p : ProcessId} {i : Nat} {d : Deoptimized}

/-! ## Contexts -/

/-- After a deoptimization, what stands in for a compiled activation refers to an
    optimized context exactly if this is the context of its home, and no activation
    that is affected has laid it out. -/
theorem optimized_left_iff (h : t.deoptimize code p i = .done t' d) :
    ∃ fresh new, t.Rewrites t' code (t.Affected p i) fresh new ∧
      ∀ r a c, t.Affected p i r → t.frame? r = some a → a.isCompiled →
        ((∃ b ∈ new r, b.references c) ∧ t'.IsOptimized c ↔
          a.home = some c ∧ t.IsOptimized c ∧ ¬∃ r', t.Affected p i r' ∧ t.Spoils r' c) := by
  obtain ⟨fresh, new, hd⟩ := deoptimizes_of_done h
  refine ⟨fresh, new, hd.rewrites, fun r a c hr ha hcompiled => ?_⟩
  rw [hd.renews.isOptimized_iff hd.exists_context?_of_mem_invalidated,
    hd.rewrites.exists_references_iff ha hr, ← hd.mem_invalidated]
  constructor
  · rintro ⟨⟨c', href, rfl⟩, hoptimized, hleft⟩
    -- A fresh context is not optimized, so this is an old one.
    have hc' : c' ∉ d.invalidated := by
      intro hmem
      obtain ⟨e, he⟩ := hd.exists_context?_of_mem_invalidated c' hmem
      obtain ⟨e', he', -⟩ := hoptimized
      rw [(hd.renews.renewed c' hmem e he).1] at he'
      cases he'
    rw [(hd.renews.kept c' hc').1] at hoptimized ⊢
    refine ⟨?_, hoptimized, hc'⟩
    rw [Activation.references, Bool.or_eq_true, decide_eq_true_eq, decide_eq_true_eq] at href
    refine href.resolve_left fun hown => hc' ?_
    exact hd.mem_invalidated.2 ⟨r, hr, a, ha, hcompiled, hown, hoptimized⟩
  · rintro ⟨hhome, hoptimized, hc⟩
    exact ⟨⟨c, by simp [Activation.references, hhome], (hd.renews.kept c hc).1⟩, hoptimized, hc⟩

/-- The context of the home of the compiled block is replaced together with the
    home. -/
theorem optimized_left_sharedContexts :
    ∃ t' d fresh new, sharedContexts.deoptimize inlinedCalls.code ⟨0⟩ 1 = .done t' d ∧
      sharedContexts.Rewrites t' inlinedCalls.code (sharedContexts.Affected ⟨0⟩ 1) fresh new ∧
      (⟨1⟩, 1) ∈ d.converted ∧ ∀ c, ¬((∃ b ∈ new (⟨1⟩, 1), b.references c) ∧ t'.IsOptimized c) := by
  obtain ⟨t', hdone, -⟩ := deoptimize_sharedContexts
  obtain ⟨fresh, new, hrewrites, hleft⟩ := optimized_left_iff hdone
  refine ⟨t', _, fresh, new, hdone, hrewrites, by decide, fun c hc => ?_⟩
  have hspoils : sharedContexts.Spoils (⟨0⟩, 1) ⟨0⟩ := ⟨_, rfl, rfl, rfl, _, rfl, rfl, rfl⟩
  have hnewer : sharedContexts.Affected ⟨0⟩ 1 (⟨0⟩, 1) := .newer rfl (Nat.le_refl 1)
  have haffected : sharedContexts.Affected ⟨0⟩ 1 (⟨1⟩, 1) := .refers hnewer hspoils rfl (by decide)
  obtain ⟨hhome, -, hnot⟩ := (hleft _ _ c haffected rfl rfl).1 hc
  cases hhome
  exact hnot ⟨_, hnewer, hspoils⟩

/-- A compiled method that has laid out a context, and a compiled block in it. -/
def capturedHome : ProcessTable where
  callStacks := [[
    { key := .send ⟨0⟩ ⟨2⟩, method := ⟨2⟩, execution := .compiled ⟨0⟩ 0, own := some ⟨0⟩ },
    { key := .given ⟨0⟩ ⟨3⟩, method := ⟨3⟩, execution := .compiled ⟨1⟩ 0,
      isBlock := true, home := some ⟨0⟩ }]]
  contexts := [⟨⟨2⟩, true, true⟩]

/-- If the block alone is deoptimized, it is interpreted on the optimized context of
    its home. -/
theorem interpreted_on_optimized_capturedHome :
    ∃ t' d b, capturedHome.deoptimize inlinedCalls.code ⟨0⟩ 1 = .done t' d ∧
      d.converted = [(⟨0⟩, 1)] ∧
      t'.frame? (⟨0⟩, 1) = some b ∧ b.execution = .interpreted ∧ b.home = some ⟨0⟩ ∧
        t'.IsOptimized ⟨0⟩ := by
  have hdone : capturedHome.deoptimize inlinedCalls.code ⟨0⟩ 1 = .done _ ⟨[(⟨0⟩, 1)], [], [], 1⟩ :=
    Outcome.eq_done_of_toOption (by decide +kernel)
  refine ⟨_, _, { key := .given ⟨0⟩ ⟨3⟩, method := ⟨3⟩, isBlock := true, home := some ⟨0⟩ }, hdone,
    rfl, by decide +kernel, rfl, rfl, ⟨⟨2⟩, true, true⟩, by decide +kernel, rfl, rfl⟩

end ProcessTable

/-! ## Blocks -/

/-- Whether a method is a block. -/
def ClassTable.isBlock (t : ClassTable) (m : MethodId) : Bool := (t.method? m).any (·.isBlock)

section Flags

variable {n : NativeMethod} {a : Activation} {o : Offset} {l : List Activation}
  {chain : List (ScopeDesc × Bci)} {f : MethodId → Bool}

/-- The flags scope by scope: only the newest activation can have one. -/
theorem Unfolds.forall_isBlock_iff (h : Unfolds n a o l) (hchain : n.ChainTo o a.bci chain) :
    (∀ b ∈ l, b.isBlock = f b.method) ↔
      ∀ k e, chain[k]? = some e → (decide (k + 1 = chain.length) && a.isBlock) = f e.1.method := by
  constructor
  · -- Activations and scopes of the chain correspond one to one.
    intro hall k e he
    have hplace := h.place_of_getElem? hchain k
    rw [he, Option.map_some, Option.map_eq_some_iff] at hplace
    obtain ⟨b, hb, hplace⟩ := hplace
    have hmethod : b.method = e.1.method := congrArg (·.2.1) hplace
    rw [← hmethod, ← hall b (List.mem_of_getElem? hb), (h.newest k b hb).2, h.length_eq hchain]
  · intro hall b hb
    obtain ⟨k, hk⟩ := List.mem_iff_getElem?.1 hb
    have hplace := h.place_of_getElem? hchain k
    rw [hk, Option.map_some, eq_comm, Option.map_eq_some_iff] at hplace
    obtain ⟨e, he, hplace⟩ := hplace
    have hmethod : e.1.method = b.method := congrArg (·.2.1) hplace
    rw [← hmethod, ← hall k e he, (h.newest k b hk).2, h.length_eq hchain]

/-- The flag of the root is right for all if there is nothing but the root, or no
    block. -/
theorem Unfolds.isBlock_of_chain_iff (h : Unfolds n a o l) (hn : n.Compiled)
    (hchain : n.ChainTo o a.bci chain) (ha : a.isBlock = f n.method) :
    (∀ b ∈ l, b.isBlock = f b.method) ↔ o = 0 ∨ ∀ e ∈ chain, ¬f e.1.method := by
  obtain ⟨lite, bci, hhead⟩ := hn.head_chainTo hchain
  have hroot : chain[0]? = some (⟨0, none, n.key, n.method, lite⟩, bci) := by
    rw [← hhead, List.head?_eq_getElem?]
  rw [h.forall_isBlock_iff hchain, ha]
  by_cases ho : o = 0
  · have hlen := (hn.length_chainTo_eq_one_iff hchain).2 ho
    refine ⟨fun _ => .inl ho, fun _ k e he => ?_⟩
    obtain rfl : k = 0 := by
      have hk := (List.getElem?_eq_some_iff.1 he).1
      omega
    rw [hroot] at he
    cases he
    simp [hlen]
  · have hlen : chain.length ≠ 1 := fun hlen => ho ((hn.length_chainTo_eq_one_iff hchain).1 hlen)
    simp only [ho, false_or]
    constructor
    · -- The root is not the newest one, so it has no flag and gives none.
      intro hall e he
      have hfalse : f n.method = false := by
        rw [← hall 0 _ hroot]
        simp [Ne.symm hlen]
      obtain ⟨k, hk⟩ := List.mem_iff_getElem?.1 he
      rw [← hall k e hk, hfalse]
      simp
    · intro hall k e he
      have hfalse : f n.method = false := by simpa using hall _ (List.mem_of_getElem? hroot)
      have hself : f e.1.method = false := by simpa using hall e (List.mem_of_getElem? he)
      rw [hfalse, hself, Bool.and_false]

end Flags

namespace ProcessTable

variable {t t' : ProcessTable} {code : CodeTable} {p : ProcessId} {i : Nat} {d : Deoptimized}
  {classes : ClassTable}

/-- Every activation is flagged as a block exactly if its method is one. -/
def Recognizable (t : ProcessTable) (classes : ClassTable) : Prop :=
  ∀ r a, t.frame? r = some a → a.isBlock = classes.isBlock a.method

theorem mem_flatten_of_frame? {r : FrameRef} {a : Activation} (h : t.frame? r = some a) :
    a ∈ t.callStacks.flatten := by
  obtain ⟨s, hs, ha⟩ := frame?_eq_some_iff.1 h
  exact List.mem_flatten.2 ⟨s, List.mem_of_getElem? hs, List.mem_of_getElem? ha⟩

/-- Whether all activations are recognized can be read off the stacks. -/
theorem recognizable_iff_flatten :
    t.Recognizable classes ↔ ∀ a ∈ t.callStacks.flatten, a.isBlock = classes.isBlock a.method := by
  constructor
  · intro h a ha
    obtain ⟨s, hs, ha⟩ := List.mem_flatten.1 ha
    obtain ⟨q, hq⟩ := List.mem_iff_getElem?.1 hs
    obtain ⟨j, hj⟩ := List.mem_iff_getElem?.1 ha
    exact h (⟨q⟩, j) a (frame?_eq_some_iff.2 ⟨s, hq, hj⟩)
  · intro h r a ha
    exact h a (mem_flatten_of_frame? ha)

instance : Decidable (t.Recognizable classes) := decidable_of_iff _ recognizable_iff_flatten.symm

/-- A deoptimization keeps blocks recognizable exactly if every compiled activation
    that it replaces is at the root of its code, or has no block on its chain. -/
theorem recognizable_iff (hflags : t.Recognizable classes)
    (hcode : t.Runs code fun a m => m.Compiled ∧ m.method = a.method)
    (h : t.deoptimize code p i = .done t' d) :
    t'.Recognizable classes ↔ ∀ r a n o m chain, t.Affected p i r → t.frame? r = some a →
      a.execution = .compiled n o → code.get? n = some m → m.ChainTo o a.bci chain →
        o = 0 ∨ ∀ e ∈ chain, ¬classes.isBlock e.1.method := by
  obtain ⟨fresh, new, hd⟩ := deoptimizes_of_done h
  have hcompiled {r : FrameRef} {a : Activation} {n : NativeId} {o : Offset} (hr : t.Affected p i r)
      (ha : t.frame? r = some a) (hexec : a.execution = .compiled n o) :
      ∃ m chain, code.get? n = some m ∧ m.ChainTo o a.bci chain ∧
        ((∀ b ∈ new r, b.isBlock = classes.isBlock b.method) ↔ o = 0 ∨ ∀ e ∈ chain,
          ¬classes.isBlock e.1.method) := by
    obtain ⟨m, hm, hunfolds⟩ := hd.rewrites.converted r a n o ha hr hexec
    obtain ⟨hn, hmethod⟩ := hcode r a n o m ha hexec hm
    obtain ⟨chain, hchain, -⟩ := hunfolds.chain
    exact ⟨m, chain, hm, hchain, hunfolds.isBlock_of_chain_iff hn hchain (hmethod ▸ hflags r a ha)⟩
  constructor
  · intro ht' r a n o m chain hr ha hexec hm hchain
    obtain ⟨m', chain', hm', hchain', hiff⟩ := hcompiled hr ha hexec
    obtain rfl : m = m' := Option.some.inj (hm.symm.trans hm')
    obtain rfl : chain = chain' := hchain.unique hchain'
    refine hiff.1 fun b hb => ?_
    obtain ⟨r', hr'⟩ := hd.rewrites.exists_frame?_iff.2 ⟨r, a, ha, hb⟩
    exact ht' r' b hr'
  · -- Affected and compiled, affected and interpreted, or not affected at all.
    intro hchains r b hb
    obtain ⟨r', a, ha, hmem⟩ := hd.rewrites.exists_frame?_iff.1 ⟨r, hb⟩
    by_cases hr' : t.Affected p i r'
    · rcases hexec : a.execution with _ | ⟨n, o⟩
      · rw [hd.rewrites.rewired r' a ha hr' hexec, List.mem_singleton] at hmem
        rw [hmem]
        exact hflags r' a ha
      · obtain ⟨m, chain, hm, hchain, hiff⟩ := hcompiled hr' ha hexec
        exact hiff.2 (hchains r' a n o m chain hr' ha hexec hm hchain) b hmem
    · rw [hd.rewrites.kept r' a ha hr', List.mem_singleton] at hmem
      rw [hmem]
      exact hflags r' a ha

theorem runs_inlinedCalls
    (h : ∀ a ∈ t.callStacks.flatten, ∀ n ∈ a.native?, ∀ m ∈ inlinedCalls.code.get? n,
      m.method = a.method) :
    t.Runs inlinedCalls.code fun a m => m.Compiled ∧ m.method = a.method := by
  intro r a n o m ha hexec hm
  have hnative : a.native? = some n := by rw [Activation.native?, hexec]
  exact ⟨compiled_inlinedCalls n m hm, h a (mem_flatten_of_frame? ha) n hnative m hm⟩

/-- A compiled block, and a compiled method in a scope without blocks. -/
def blockAtRoot : ProcessTable where
  callStacks := [[
    { key := .given ⟨0⟩ ⟨3⟩, method := ⟨3⟩, execution := .compiled ⟨1⟩ 0, isBlock := true },
    { key := .send ⟨0⟩ ⟨2⟩, method := ⟨2⟩, execution := .compiled ⟨0⟩ 2 }]]

/-- They become four activations, and the block is still recognized. -/
theorem recognizable_blockAtRoot :
    blockAtRoot.Recognizable inlinedCalls.classes ∧
      blockAtRoot.Runs inlinedCalls.code (fun a m => m.Compiled ∧ m.method = a.method) ∧
      ∃ t' d, blockAtRoot.deoptimize inlinedCalls.code ⟨0⟩ 0 = .done t' d ∧ d.synthesized = 4 ∧
        t'.Recognizable inlinedCalls.classes ∧
        ∀ r a n o m chain, blockAtRoot.Affected ⟨0⟩ 0 r → blockAtRoot.frame? r = some a →
          a.execution = .compiled n o → inlinedCalls.code.get? n = some m →
            m.ChainTo o a.bci chain →
            o = 0 ∨ ∀ e ∈ chain, ¬inlinedCalls.classes.isBlock e.1.method := by
  have hflags : blockAtRoot.Recognizable inlinedCalls.classes := by decide +kernel
  have hcode := runs_inlinedCalls (t := blockAtRoot) (by decide +kernel)
  have hdone :
      blockAtRoot.deoptimize inlinedCalls.code ⟨0⟩ 0 = .done _ ⟨[(⟨0⟩, 0), (⟨0⟩, 1)], [], [], 4⟩ :=
    Outcome.eq_done_of_toOption (by decide +kernel)
  have hkept :
      (blockAtRoot.deoptimize inlinedCalls.code ⟨0⟩ 0).state.Recognizable inlinedCalls.classes := by
    decide +kernel
  exact ⟨hflags, hcode, _, _, hdone, rfl, hkept, (recognizable_iff hflags hcode hdone).1 hkept⟩

/-- A compiled block, in the scope of a method that it calls. -/
def calleeOfBlock : ProcessTable where
  callStacks :=
    [[{ key := .given ⟨0⟩ ⟨3⟩, method := ⟨3⟩, execution := .compiled ⟨1⟩ 1, isBlock := true }]]

/-- The flag goes from the block to the method. -/
theorem not_recognizable_calleeOfBlock :
    calleeOfBlock.Recognizable inlinedCalls.classes ∧
      calleeOfBlock.Runs inlinedCalls.code (fun a m => m.Compiled ∧ m.method = a.method) ∧
      ∃ t' d, calleeOfBlock.deoptimize inlinedCalls.code ⟨0⟩ 0 = .done t' d ∧
        t'.callStacks.map (·.map fun a => (a.method, a.isBlock)) = [[(⟨3⟩, false), (⟨1⟩, true)]] ∧
        ¬t'.Recognizable inlinedCalls.classes :=
  have hdone : calleeOfBlock.deoptimize inlinedCalls.code ⟨0⟩ 0 = .done _ ⟨[(⟨0⟩, 0)], [], [], 2⟩ :=
    Outcome.eq_done_of_toOption (by decide +kernel)
  ⟨by decide +kernel, runs_inlinedCalls (by decide +kernel), _, _, hdone,
    by decide +kernel, by decide +kernel⟩

end ProcessTable

end Warmup
