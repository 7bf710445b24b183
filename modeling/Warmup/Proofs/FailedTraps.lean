import Warmup.Proofs.TrapLog

/-!
# Traps that fail

All that is asked of a trap itself is asked first: that it is not in the scheduler, that its
activation is compiled, that the code has it. Then it is marked and counted, code that has trapped
often enough is given up, and only then the activation is deoptimized, with all others that must be.
One of these may be in a scope that its code does not have (`ProcessTable.IsStuck`).

* `ProcessTable.deoptimize_of_error`: the deoptimization stops there. All contexts are replaced by
  then, and the activations that come later in the stacks;
* `Engine.fire_unchanged_iff`: a trap that fails leaves everything as it was, unless it gets to that
  point.
-/

namespace Warmup

/-- The chains of code depend on its scopes only. -/
theorem NativeMethod.ChainTo.congr {n n' : NativeMethod} {o : Offset} {bci : Bci}
    {l : List (ScopeDesc × Bci)} (hscopes : n'.scopes = n.scopes) (h : n.ChainTo o bci l) :
    n'.ChainTo o bci l := by
  have hscope (o : Offset) : n'.scope? o = n.scope? o := by rw [scope?, hscopes, scope?]
  induction h with
  | root hd hs => exact .root (by rwa [hscope]) hs
  | inlined hd hs _ ih => exact .inlined (by rwa [hscope]) hs ih

namespace ProcessTable

variable {t : ProcessTable} {code : CodeTable} {p : ProcessId} {i : Nat} {r : FrameRef}
  {a : Activation}

/-- A compiled activation that no others can take the place of: its code is not there, or has no
    chain of its scope. -/
def IsStuck (t : ProcessTable) (code : CodeTable) (r : FrameRef) : Prop :=
  ∃ a n o, t.frame? r = some a ∧ a.execution = .compiled n o ∧
    ∀ m chain, code.get? n = some m → ¬m.ChainTo o a.bci chain

/-- An activation is stuck exactly if it has no replacement. -/
theorem isStuck_iff {replaced : List (ContextId × ContextId)} (ha : t.frame? r = some a) :
    t.IsStuck code r ↔ ∃ f, a.replacement code replaced = .error f := by
  have hreplacement : (∃ l, a.replacement code replaced = .ok l) ↔ _ :=
    exists_replacement_iff replaced
  rcases hnew : a.replacement code replaced with f | new
  · rw [hnew] at hreplacement
    simp only [reduceCtorEq, exists_false, false_iff] at hreplacement
    push Not at hreplacement
    obtain ⟨n, o, hexec, hchain⟩ := hreplacement
    exact iff_of_true ⟨a, n, o, ha, hexec, hchain⟩ ⟨f, rfl⟩
  · refine iff_of_false ?_ (by simp)
    rintro ⟨b, n, o, hb, hexec, hchain⟩
    obtain rfl : a = b := Option.some.inj (ha.symm.trans hb)
    obtain ⟨m, chain, hm, hchain'⟩ := hreplacement.1 ⟨new, hnew⟩ n o hexec
    exact hchain m chain hm hchain'

/-- A deoptimization that fails has replaced all contexts, and the activations after the stuck one
    that it met first. -/
theorem deoptimize_of_error (ha : t.frame? (p, i) = some a) {f : Fault}
    (h : (t.deoptimize code p i).result = .error f) :
    ∃ r fresh new, t.Affected p i r ∧ t.IsStuck code r ∧
      t.Renews (t.deoptimize code p i).state (t.spoiled (t.marked p i)) fresh ∧
      t.Rewrites (t.deoptimize code p i).state code
        (fun r' => t.Affected p i r' ∧ r.Before r') fresh new := by
  have hdeoptimize : t.deoptimize code p i =
      replaceFrames code (t.replaceContexts (t.spoiled (t.marked p i))).2 (t.marked p i).reverse
        (t.replaceContexts (t.spoiled (t.marked p i))).1
        { invalidated := t.spoiled (t.marked p i) } := by
    rw [deoptimize, frame_eq_ok_iff.2 ha]
    rfl
  have hrenews := t.renews_spoiled p i
  rw [hdeoptimize] at h ⊢
  have hl : (t.marked p i).reverse.Pairwise fun r r' => r'.Before r :=
    List.pairwise_reverse.2 (t.pairwise_marked p i)
  have hmem (r : FrameRef) : r ∈ (t.marked p i).reverse ↔ t.Affected p i r := by
    rw [List.mem_reverse, mem_marked_iff]
  obtain ⟨l₁, r, l₂, b, hsplit, hb, herror, hreplaceable, hstate⟩ := replaceFrames_of_error hl
    (fun r hr => by simpa [replaceContexts_frame?] using ((hmem r).1 hr).exists_frame) h
  rw [replaceContexts_frame?] at hb
  rw [hstate]
  -- The list is in order, so what stands before the stuck activation in it comes after it in the
  -- stacks.
  have hl₁ (r' : FrameRef) : r' ∈ l₁ ↔ t.Affected p i r' ∧ r.Before r' := by
    rw [← hmem, hsplit]
    rw [hsplit, List.pairwise_append, List.pairwise_cons] at hl
    obtain ⟨-, ⟨hr, -⟩, hbefore⟩ := hl
    constructor
    · exact fun h => ⟨List.mem_append_left _ h, hbefore r' h r List.mem_cons_self⟩
    · rintro ⟨h, hafter⟩
      rcases List.mem_append.1 h with h | h
      · exact h
      · rcases List.mem_cons.1 h with rfl | h
        · exact absurd rfl hafter.ne
        · exact absurd hafter (hr r' h).asymm
  refine ⟨r, _, _, (hmem r).1 ?_, (isStuck_iff hb).2 ⟨f, herror⟩, ?_,
    rewrites_spread (t.replaceContexts_frame _) hl₁ hreplaceable⟩
  · rw [hsplit]
    exact List.mem_append_right _ List.mem_cons_self
  · exact ⟨hrenews.invalid, hrenews.renewed, hrenews.injective, hrenews.kept, hrenews.added⟩

end ProcessTable

namespace Engine

variable {e : Engine} {n : NativeMethod} {p : ProcessId} {i trap : Nat}

/-- A trap that is marked, while an activation that must be deoptimized with it is stuck. -/
def Strands (e : Engine) (p : ProcessId) (i trap : Nat) : Prop :=
  ∃ n site r, e.firing p i trap = .ok (n, site) ∧ n.trapCount + 1 < Word.size 32 ∧
    e.processes.Affected p i r ∧ e.processes.IsStuck e.code r

/-- To mark a trap leaves the scopes of all code as they are. -/
theorem isStuck_mark_iff (hn : e.code.get? n.id = some n) {r : FrameRef} :
    e.processes.IsStuck (e.mark n trap).1.code r ↔ e.processes.IsStuck e.code r := by
  -- Marking changes no scopes, so chains are the same before and after.
  have hkeeps := keeps_mark hn trap
  constructor
  · rintro ⟨a, j, o, ha, hexec, hchain⟩
    refine ⟨a, j, o, ha, hexec, fun m chain hm hm' => ?_⟩
    obtain ⟨m', hget, hbecame⟩ := hkeeps j m hm
    exact hchain m' chain hget (hm'.congr hbecame.scopes)
  · rintro ⟨a, j, o, ha, hexec, hchain⟩
    refine ⟨a, j, o, ha, hexec, fun m' chain hget hm' => ?_⟩
    obtain ⟨m, hm⟩ : ∃ m, e.code.get? j = some m := by
      rw [get?_mark] at hget
      obtain ⟨m, hm, -⟩ := Option.map_eq_some_iff.1 hget
      exact ⟨m, hm⟩
    obtain ⟨m'', hget', hbecame⟩ := hkeeps j m hm
    obtain rfl : m' = m'' := Option.some.inj (hget.symm.trans hget')
    exact hchain m chain hm (hm'.congr hbecame.scopes.symm)

/-- The count of the code tells that a trap was marked. -/
theorem code_mark_ne (hn : e.code.get? n.id = some n) : (e.mark n trap).1.code ≠ e.code := by
  intro h
  have hself : (e.mark n trap).1.code.get? n.id = _ := get?_mark n.id
  rw [h, hn, Option.map_some, if_pos rfl, Option.some.injEq] at hself
  have hcount := congrArg (·.trapCount) hself
  simp [NativeMethod.struck, NativeMethod.patch] at hcount

/-- Where all compiled activations are in scopes of compiled code, no trap gets stuck. -/
theorem not_strands_of_isGrounded (hcompiled : e.code.Compiled) (hg : e.isGrounded) :
    ¬e.Strands p i trap := by
  rintro ⟨-, -, r, -, -, -, a, j, o, ha, hexec, hchain⟩
  obtain ⟨m, d, hm, hd⟩ := isGrounded_iff.1 hg r a j o ha hexec
  obtain ⟨chain, hchain'⟩ := (hcompiled j m hm).exists_chainTo hd a.bci
  exact hchain m chain hm hchain'

section Fire

variable {site : TrapSite} (hid : ∀ j m, e.code.get? j = some m → m.id = j)
include hid

/-- A trap that changes nothing was not marked. -/
theorem not_strands_of_fire {f : Fault} (hfire : e.fire p i trap = .fail e f) :
    ¬e.Strands p i trap := by
  rintro ⟨n, site, r, hfiring, hfit, -⟩
  have hmarked := congrArg Outcome.state (hfire.symm.trans (fire_eq hfiring hfit))
  exact code_mark_ne (get?_of_firing hid hfiring) (congrArg Engine.code hmarked).symm

/-- A trap that fails after it was marked has met a stuck activation. -/
theorem fire_of_stuck (hfiring : e.firing p i trap = .ok (n, site))
    (hfit : n.trapCount + 1 < Word.size 32) {f : Fault} (h : (e.fire p i trap).result = .error f) :
    let e' := (e.fire p i trap).state
    ∃ r fresh new, e.processes.Affected p i r ∧ e.processes.IsStuck e.code r ∧
      e' = { (e.mark n trap).1 with processes := e'.processes } ∧
      e.processes.Renews e'.processes (e.processes.spoiled (e.processes.marked p i)) fresh ∧
      e.processes.Rewrites e'.processes e'.code
        (fun r' => e.processes.Affected p i r' ∧ r.Before r') fresh new := by
  obtain ⟨-, a, -, -, ha, -⟩ := firing_eq_ok_iff.1 hfiring
  rw [fire_eq hfiring hfit] at h ⊢
  -- The only part that can still fail is the deoptimization.
  obtain ⟨f', herror⟩ :
      ∃ f, (e.processes.deoptimize (e.mark n trap).1.code p i).result = .error f := by
    rcases hresult : (e.processes.deoptimize (e.mark n trap).1.code p i).result with f' | d
    · exact ⟨f', rfl⟩
    · rw [hresult] at h
      cases h
  obtain ⟨r, fresh, new, hr, hstuck, hrenews, hrewrites⟩ :=
    ProcessTable.deoptimize_of_error ha herror
  exact ⟨r, fresh, new, hr, (isStuck_mark_iff (get?_of_firing hid hfiring)).1 hstuck,
    rfl, hrenews, hrewrites⟩

end Fire

/-! ## Main result -/

/-- A trap that fails has left no trace exactly if no activation that must be deoptimized with it is
    stuck, or the trap was not marked at all. Otherwise the trap is used and counted, the code may
    be given up, the contexts of all these activations are replaced, and of the activations
    themselves those that come after a stuck one; the others go on with what was replaced. Where all
    compiled activations are in scopes of compiled code this does not happen. -/
theorem fire_unchanged_iff (hid : ∀ j m, e.code.get? j = some m → m.id = j) {f : Fault}
    (h : (e.fire p i trap).result = .error f) :
    let e' := (e.fire p i trap).state
    (e'.processes = e.processes ∧ e'.code = e.code ∧ e'.traps = e.traps ↔ ¬e.Strands p i trap) ∧
    (¬e.Strands p i trap → e' = e) ∧
    (e.Strands p i trap → ∃ n site r fresh new, e.firing p i trap = .ok (n, site) ∧
      e' = { (e.mark n trap).1 with processes := e'.processes } ∧
      e.processes.Affected p i r ∧ e.processes.IsStuck e.code r ∧
      e.processes.Renews e'.processes (e.processes.spoiled (e.processes.marked p i)) fresh ∧
      e.processes.Rewrites e'.processes e'.code
        (fun r' => e.processes.Affected p i r' ∧ r.Before r') fresh new) ∧
    (e.code.Compiled → e.isGrounded → ¬e.Strands p i trap) := by
  intro e'
  -- The trap fails before anything is marked, or at an activation that is stuck.
  rcases e.fire_cases p i trap with ⟨f', hfire⟩ | ⟨n, site, hfiring, hfit⟩
  · have he' : e' = e := congrArg Outcome.state hfire
    have hnot := not_strands_of_fire hid hfire
    exact ⟨by simp [he', hnot], fun _ => he', fun h => absurd h hnot, fun _ _ => hnot⟩
  · have hn := get?_of_firing hid hfiring
    obtain ⟨r, fresh, new, hr, hstuck, hstate, hrenews, hrewrites⟩ :=
      fire_of_stuck hid hfiring hfit h
    have hstrands : e.Strands p i trap := ⟨n, site, r, hfiring, hfit, hr, hstuck⟩
    refine ⟨iff_of_false ?_ (not_not_intro hstrands), fun hnot => absurd hstrands hnot, fun _ => ?_,
      not_strands_of_isGrounded⟩
    · rintro ⟨-, hcode, -⟩
      exact code_mark_ne hn ((congrArg Engine.code hstate).symm.trans hcode)
    · exact ⟨n, site, r, fresh, new, hfiring, hstate, hr, hstuck, hrenews, hrewrites⟩

/-- A method is compiled with a trap. One process runs its code, and has laid out a context that a
    compiled block of another process refers to. The block is in a scope that its code does not
    have. -/
def strandedBlock : Engine := (startWith { traps := { threshold := 1 } } .initial).run [
  .replace ⟨0⟩ { selector := ⟨0⟩, steps := [.work 1] },
  .replace ⟨0⟩ { selector := ⟨1⟩, argCount := 1, steps := [.send ⟨0⟩ (.arg 0) []] },
  .link ⟨1⟩, .compile (.send ⟨0⟩ ⟨1⟩),
  .setProcesses {
    callStacks := [
      [{ key := .send ⟨0⟩ ⟨1⟩, method := ⟨1⟩, execution := .compiled ⟨0⟩ 7,
         isBlock := true, home := some ⟨0⟩ }],
      [{ key := .send ⟨0⟩ ⟨1⟩, method := ⟨1⟩, execution := .compiled ⟨0⟩ 0, own := some ⟨0⟩ }]]
    contexts := [⟨⟨1⟩, true, true⟩] }]

/-- The trap of the other process cannot be carried out to its end, but it leaves the code
    marked. -/
theorem fire_unchanged_iff_strandedBlock :
    (∀ j m, strandedBlock.code.get? j = some m → m.id = j) ∧
    (strandedBlock.fire ⟨1⟩ 0 0).result = .error (.unknown .frame 7) ∧
      strandedBlock.Strands ⟨1⟩ 0 0 ∧
    ∃ n site, strandedBlock.firing ⟨1⟩ 0 0 = .ok (n, site) ∧
      (strandedBlock.fire ⟨1⟩ 0 0).state.code = (strandedBlock.mark n 0).1.code ∧
      ∃ r, strandedBlock.processes.Affected ⟨1⟩ 0 r ∧
        strandedBlock.processes.IsStuck strandedBlock.code r := by
  have hid : ∀ j m, strandedBlock.code.get? j = some m → m.id = j :=
    (Sound.run (.start _ .initial) _).code.id_eq
  have hresult : (strandedBlock.fire ⟨1⟩ 0 0).result = .error (.unknown .frame 7) := by
    decide +kernel
  obtain ⟨hiff, -, hstranded, -⟩ := fire_unchanged_iff hid hresult
  have hstrands : strandedBlock.Strands ⟨1⟩ 0 0 := by
    by_contra hnot
    have hsame := congrArg (fun c => (c.get? ⟨0⟩).map (·.trapCount)) (hiff.2 hnot).2.1
    revert hsame
    decide +kernel
  obtain ⟨n, site, r, fresh, new, hfiring, hstate, hr, hstuck, -⟩ := hstranded hstrands
  have hcode := congrArg Engine.code hstate
  exact ⟨hid, hresult, hstrands, n, site, hfiring, hcode, r, hr, hstuck⟩

/-- The trap fails for the scope of the block. By then it is used and counted, the code is invalid
    and its key waits longer, no trap may stand at the send again, and the block refers to a context
    that is not valid. -/
theorem fire_fails_strandedBlock :
    let e := strandedBlock
    let e' := (e.fire ⟨1⟩ 0 0).state
    (e.fire ⟨1⟩ 0 0).result = .error (.unknown .frame 7) ∧
    ((e.code.get? ⟨0⟩).map fun n => (n.trapCount, n.traps.map (·.used), n.isValid)) =
      some (0, [false], true) ∧
    ((e'.code.get? ⟨0⟩).map fun n => (n.trapCount, n.traps.map (·.used), n.isValid)) =
      some (1, [true], false) ∧
    (e.traps.backoff (.send ⟨0⟩ ⟨1⟩) = 0 ∧ e'.traps.backoff (.send ⟨0⟩ ⟨1⟩) = 1) ∧
    (e.traps.disabled = [] ∧ e'.traps.disabled = [(⟨1⟩, 0)]) ∧
    (e.processes.contexts = [⟨⟨1⟩, true, true⟩] ∧
      e'.processes.contexts = [⟨⟨1⟩, true, false⟩, ⟨⟨1⟩, false, true⟩]) ∧
    (e'.processes.frame? (⟨0⟩, 0)).map (·.home) = some (some ⟨0⟩) ∧
    (e'.processes.frame? (⟨1⟩, 0)).map (fun a => (a.execution, a.own)) =
      some (.interpreted, some ⟨1⟩) := by
  decide +kernel

end Engine

end Warmup
