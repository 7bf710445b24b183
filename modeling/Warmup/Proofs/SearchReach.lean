import Warmup.Proofs.CandidateSearch
import Warmup.Proofs.OptimizationLevels
import Warmup.Proofs.PolicyFaults

/-!
# How far a search goes

On a stack without blocks and super sends the search for a candidate goes from caller to caller.
How far it may go is said without the search (`Compiler.MayReach`): all activations that are left
behind would be inlined, there are not too many of them, and the search may go through every
activation on the way (`Compiler.Admits`).

An activation that may be reached can be reached over all those above it (`MayReach.mono`), so one
step of the search decides whether the next activation may be reached (`mayReach_iff_succ`). The
search therefore ends at the oldest activation that it may reach (`Stands.least`), and this is the
one that is decided on (`candidate_least`). -/

namespace Warmup

namespace Compiler

section Reach

variable (c : Compiler)

/-- A search may go on to an activation, as far as this depends on the activation itself: what is
    interpreted could not run code of its key, and code that runs is known, not optimized fully, and
    no older than the current code of its key. -/
def Admits (a : Activation) : Prop :=
  match a.execution with
  | .interpreted => c.code.current? a.key = none
  | .compiled n _ => ∃ e, c.code.get? n = some e ∧ e.level < c.settings.recompile.maxLevel.toNat ∧
      ∀ n' e', c.code.current? a.key = some n' → c.code.get? n' = some e' → n' ≠ n →
      e'.compiledAt ≤ e.compiledAt

/-- The number of interpreted activations from `j` on that are below `start`. -/
def interpretedFrom (stack : List Activation) (start j : Nat) : Nat :=
  ((stack.take start).drop j).countP (!·.isCompiled)

/-- A search from `start` may go as far as `j`. -/
structure MayReach (stack : List Activation) (start j : Nat) : Prop where
  le : j ≤ start
  /-- All that is left behind would be inlined. -/
  inlines : ∀ i a, j < i → i ≤ start → stack[i]? = some a → c.inlinesActivation a = .ok true
  crossed : start - j ≤ c.settings.recompile.maxCrossed.toNat
  interpreted : interpretedFrom stack start j ≤ c.settings.recompile.maxInterpretedCrossed.toNat
  admits : ∀ i a, j ≤ i → i < start → stack[i]? = some a → c.Admits a

end Reach

variable {c : Compiler} {stack : List Activation} {start i j : Nat} {a b : Activation}
  {p q : Position} {r : Except Fault Ascent}

/-! ## One step -/

/-- There is no newer code exactly if the current version is no younger. -/
theorem isNewerThan_eq_false_iff {t : CodeTable} {k : LookupKey} {n : NativeId} {e : NativeMethod}
    (hn : t.get? n = some e) : t.isNewerThan k n = false ↔
      ∀ n' e', t.current? k = some n' → t.get? n' = some e' → n' ≠ n →
        e'.compiledAt ≤ e.compiledAt := by
  rw [CodeTable.isNewerThan]
  rcases t.current? k with _ | n'
  · simp
  · rcases hn' : t.get? n' with _ | e'
    · constructor
      · rintro - _ _ ⟨⟩ he'
        cases hn'.symm.trans he'
      · exact fun _ => by simp [hn']
    · constructor
      · rintro hold _ _ ⟨⟩ he' hne
        obtain rfl := Option.some.inj (hn'.symm.trans he')
        simpa [hn, hn', hne] using hold
      · intro hold
        simpa [hn, hn'] using hold n' e' rfl hn'

/-- The search goes on to a caller that it may go through, if that is not one interpreted activation
    too many. -/
theorem maySearch_iff {interpreted : Nat} : c.maySearch a interpreted ↔
    c.Admits a ∧
      (¬a.isCompiled → interpreted + 1 ≤ c.settings.recompile.maxInterpretedCrossed.toNat) := by
  rcases hx : a.execution with _ | ⟨n, scope⟩
  · simp [maySearch, Admits, Activation.isCompiled, hx, and_comm]
  · rcases hn : c.code.get? n with _ | e
    · simp [maySearch, Admits, hx, hn]
    · simp [maySearch, Admits, Activation.isCompiled, hx, hn, isNewerThan_eq_false_iff hn]

theorem interpretedFrom_self : interpretedFrom stack start start = 0 := by
  simp [interpretedFrom]

/-- One activation more counts if it is interpreted. -/
theorem interpretedFrom_eq_succ (hb : stack[j]? = some b) (hj : j < start) :
    interpretedFrom stack start j = interpretedFrom stack start (j + 1) + if b.isCompiled then
      0 else 1 := by
  obtain ⟨hlt, rfl⟩ := List.getElem?_eq_some_iff.1 hb
  have hlt' : j < (stack.take start).length := by
    rw [List.length_take]
    omega
  rw [interpretedFrom, interpretedFrom, List.drop_eq_getElem_cons hlt',
    List.countP_cons, List.getElem_take]
  rcases stack[j].isCompiled <;> rfl

/-- What may be reached may be reached as far as any activation on the way. -/
theorem MayReach.mono (h : c.MayReach stack start j) (hji : j ≤ i) (hi : i ≤ start) :
    c.MayReach stack start i where
  le := hi
  inlines k a hk := h.inlines k a (Nat.lt_of_le_of_lt hji hk)
  crossed := Nat.le_trans (Nat.sub_le_sub_left hji start) h.crossed
  interpreted := by
    refine Nat.le_trans (List.Sublist.countP_le ?_) h.interpreted
    rw [← Nat.add_sub_of_le hji, ← List.drop_drop]
    exact List.drop_sublist _ _
  admits k a hk := h.admits k a (Nat.le_trans hji hk)

theorem mayReach_self : c.MayReach stack start start where
  le := Nat.le_refl start
  inlines i a hlt hle := absurd hlt (Nat.not_lt.2 hle)
  crossed := by simp
  interpreted := by simp [interpretedFrom_self]
  admits i a hle hlt := absurd hlt (Nat.not_lt.2 hle)

/-- Whether a search may go one activation further depends on that activation and the one that it
    leaves behind. -/
theorem mayReach_iff_succ (ha : stack[j + 1]? = some a) (hb : stack[j]? = some b)
    (h : c.MayReach stack start (j + 1)) : c.MayReach stack start j ↔
      c.inlinesActivation a = .ok true ∧
        start - (j + 1) + 1 ≤ c.settings.recompile.maxCrossed.toNat ∧
        c.maySearch b (interpretedFrom stack start (j + 1)) := by
  have hj : j < start := h.le
  have hcrossed : start - (j + 1) + 1 = start - j := by omega
  have hcount := interpretedFrom_eq_succ hb hj
  rw [maySearch_iff, hcrossed]
  constructor
  · intro h'
    refine ⟨h'.inlines _ a (Nat.lt_succ_self j) hj ha, h'.crossed, h'.admits j b (Nat.le_refl j) hj
      hb, fun hcompiled => ?_⟩
    have hle := h'.interpreted
    rwa [hcount, if_neg hcompiled] at hle
  · -- The new activation has the conditions of this step, all others have those of the step before.
    rintro ⟨hinlines, hcross, hadmits, hinterpreted⟩
    refine ⟨Nat.le_of_lt hj, fun i x hlt hle hx => ?_, hcross, ?_, fun i x hle hlt hx => ?_⟩
    · rcases Nat.eq_or_lt_of_le hlt with rfl | hlt
      · obtain rfl := Option.some.inj (ha.symm.trans hx)
        exact hinlines
      · exact h.inlines i x hlt hle hx
    · rw [hcount]
      split
      · exact h.interpreted
      · next hcompiled => exact hinterpreted hcompiled
    · rcases Nat.eq_or_lt_of_le hle with rfl | hle
      · obtain rfl := Option.some.inj (hb.symm.trans hx)
        exact hadmits
      · exact h.admits i x hle hlt hx

/-! ## The whole search -/

/-- A search from `start` stands at a position that it may reach, and has counted right. -/
structure Stands (c : Compiler) (stack : List Activation) (start : Nat) (p : Position) : Prop where
  reach : c.MayReach stack start p.frame
  crossed : p.crossed = start - p.frame
  interpreted : p.interpreted = interpretedFrom stack start p.frame

theorem stands_start (c : Compiler) (stack : List Activation) (start : Nat) :
    c.Stands stack start ⟨start, 0, 0⟩ :=
  ⟨mayReach_self, (Nat.sub_self start).symm, interpretedFrom_self.symm⟩

section Plain

variable (hplain : ∀ a ∈ stack, ¬a.isBlock)
include hplain

/-- A step of the search stands again, with the counts of the activations behind it. -/
theorem Stands.climb (h : c.Stands stack start p) (hclimbs : c.Climbs stack p q) :
    c.Stands stack start q := by
  obtain ⟨hreach, hcrossed, hinterpreted⟩ := h
  cases hclimbs with
  | home ha hblock => exact absurd hblock (hplain _ (List.mem_of_getElem? ha))
  | @caller j crossed interpreted a b ha _ hinlines hlimit hb hmay =>
    have hj : j < start := hreach.le
    change crossed = start - (j + 1) at hcrossed
    change interpreted = interpretedFrom stack start (j + 1) at hinterpreted
    refine ⟨(mayReach_iff_succ ha hb hreach).2 ⟨hinlines, hcrossed ▸ hlimit, hinterpreted ▸ hmay⟩,
      ?_, ?_⟩
    · change crossed + 1 = start - j
      omega
    · rw [interpretedFrom_eq_succ hb hj, ← hinterpreted]
      split
      · rfl
      · rfl

/-- Where a search ends, it may not go any further. -/
theorem Stands.least (h : c.Stands stack start p) (hrests : c.Rests stack p r)
    (hi : c.MayReach stack start i) :
    p.frame ≤ i := by
  obtain ⟨hreach, hcrossed, hinterpreted⟩ := h
  by_contra hlt
  -- The next activation could then be reached as well.
  obtain ⟨j, hj⟩ : ∃ j, p.frame = j + 1 := Nat.exists_eq_succ_of_ne_zero (by omega)
  have hnext : c.MayReach stack start j := hi.mono (by omega) (by have := hreach.le; omega)
  cases hrests with
  | orphan ha hblock => exact hplain _ (List.mem_of_getElem? ha) hblock
  | oldest => cases hj
  | @stays j' crossed interpreted a b inlines ha _ hinlines hb hstays =>
    obtain rfl : j' = j := Nat.succ.inj hj
    change crossed = start - (j' + 1) at hcrossed
    change interpreted = interpretedFrom stack start (j' + 1) at hinterpreted
    obtain ⟨hinlines', hlimit, hmay⟩ := (mayReach_iff_succ ha hb hreach).1 hnext
    obtain rfl := Except.ok.inj (hinlines.symm.trans hinlines')
    exact hstays ⟨rfl, hcrossed ▸ hlimit, hinterpreted ▸ hmay⟩
  | @fault j' crossed interpreted a f ha _ hinlines =>
    obtain rfl : j' = j := Nat.succ.inj hj
    cases hinlines.symm.trans (hnext.inlines _ a (Nat.lt_succ_self _) hreach.le ha)

theorem Stands.path (hpath : Relation.ReflTransGen (c.Climbs stack) ⟨start, 0, 0⟩ p) :
    c.Stands stack start p := by
  induction hpath with
  | refl => exact stands_start c stack start
  | tail _ hclimbs ih => exact ih.climb hplain hclimbs

end Plain

/-! ## The verdict -/

variable (c a) in
/-- It cannot be said whether an activation would be inlined: the cost of its method's home does not
    fit its word, or that of the method itself, where this is what counts. -/
def CostOverflows : Prop :=
  ∃ m, c.classes.method? a.method = some m ∧
    (c.HomeOverflows m ∨
      c.settings.inlining.enabled ∧ m.hint = .unspecified ∧ Word.size 32 ≤ m.exactCost)

/-- Nothing else goes wrong: without blocks among its arguments a callee has the limit of the
    settings, which fits. -/
theorem inlinesActivation_eq_error_iff {f : Fault} :
    c.inlinesActivation a = .error f ↔ f = .overflow ∧ c.CostOverflows a := by
  rw [inlinesActivation, CostOverflows]
  rcases hm : c.classes.method? a.method with _ | m
  · simp [pure, Except.pure]
  · simp only [Option.some.injEq, exists_eq_left']
    rcases homeCost_cases c m with ⟨hcost, hhome⟩ | ⟨hcost, hhome⟩
    · rw [hcost]
      let k : Candidate := {
        method := m, receiver := a.key.cls,
        homeCost := (m.home.bind c.classes.method?).map Method.exactCost }
      -- Without arguments that are blocks the limit is a setting, which fits.
      have hlimit : ¬Word.size 32 ≤ c.exactLimit k := by
        rw [exactLimit, show k.blockArgs = 0 from rfl, Nat.zero_mod, Nat.zero_mul, Nat.add_zero]
        exact Nat.not_le.2 (UInt32.toNat_lt _)
      have hwould : c.wouldInline k a.key = .error f ↔ f = .overflow ∧ (c.HomeOverflows m ∨
          c.settings.inlining.enabled ∧ m.hint = .unspecified ∧ Word.size 32 ≤ m.exactCost) := by
        rw [wouldInline_eq_error_iff, shouldInline_eq_error_iff, decideByCost_eq_error_iff]
        constructor
        · rintro ⟨hon, hhint, rfl, hcause⟩
          exact ⟨rfl, .inr ⟨hon, hhint, hcause.resolve_right fun h => hlimit h.2⟩⟩
        · rintro ⟨rfl, hcause⟩
          obtain ⟨hon, hhint, hlarge⟩ := hcause.resolve_left hhome
          exact ⟨hon, hhint, rfl, .inl hlarge⟩
      rw [← hwould]
      change (c.wouldInline k a.key >>= _) = _ ↔ _
      rcases c.wouldInline k a.key with f' | builtin | why
      · simp [bind, Except.bind]
      · simp [bind, Except.bind, pure, Except.pure]
      · simp [bind, Except.bind, pure, Except.pure]
    · simp only [hcost, bind, Except.bind, Except.error.injEq]
      exact ⟨fun h => ⟨h.symm, .inl hhome⟩, fun h => h.1.symm⟩

/-- Where a search has ended, there is an activation to be decided on, unless it has ended because
    of the cost of that activation, which does not matter for the oldest one. -/
theorem Rests.result (h : c.Rests stack p r) (ha : stack[p.frame]? = some a) (hblock : ¬a.isBlock) :
    (0 < p.frame ∧ c.CostOverflows a → r = .error .overflow) ∧
      (¬(0 < p.frame ∧ c.CostOverflows a) → r = .ok (.frame p.frame)) := by
  cases h with
  | orphan hb hb' =>
    obtain rfl := Option.some.inj (ha.symm.trans hb)
    exact absurd hb' hblock
  | oldest => exact ⟨fun h => absurd h.1 (Nat.lt_irrefl 0), fun _ => rfl⟩
  -- An activation that stays has been decided on, so its cost fits.
  | stays hb _ hinlines =>
    obtain rfl := Option.some.inj (ha.symm.trans hb)
    refine ⟨fun hover => ?_, fun _ => rfl⟩
    cases hinlines.symm.trans (inlinesActivation_eq_error_iff.2 ⟨rfl, hover.2⟩)
  | fault hb _ hinlines =>
    obtain rfl := Option.some.inj (ha.symm.trans hb)
    obtain ⟨rfl, hover⟩ := inlinesActivation_eq_error_iff.1 hinlines
    exact ⟨fun _ => rfl, fun hfits => absurd ⟨Nat.succ_pos _, hover⟩ hfits⟩

variable {t : ProcessTable} {pid : ProcessId} {trigger : Trigger}

/-- A search that ends at an activation decides on it by its next level. -/
theorem candidate_of_ends (hstack : t.stack pid = .ok stack)
    (hends : c.Ends stack start (.ok (.frame i))) (hbelow : BelowSupers stack i j)
    (ha : stack[j]? = some a) :
    c.candidate t pid start trigger = (c.nextLevel a.key trigger).map (c.verdictOn j a) := by
  have hstart : start < stack.length := hends.lt_length
  have hfirst := (frame_eq_ok_iff_getElem? hstack).2 (List.getElem?_eq_getElem hstart)
  obtain rfl := belowSupers_iff.1 hbelow
  rw [candidate, hstack]
  simp only [hfirst, (ascend_eq_iff hstart (Nat.lt_succ_self start)).2 hends,
    (frame_eq_ok_iff_getElem? hstack).2 ha, bind, Except.bind]
  rcases c.nextLevel a.key trigger with f | why | level
  · rfl
  · rfl
  · rfl

/-- A search that fails is the failure of the candidate. -/
theorem candidate_of_fault {f : Fault} (hstack : t.stack pid = .ok stack)
    (hends : c.Ends stack start (.error f)) :
    c.candidate t pid start trigger = .error f := by
  have hstart : start < stack.length := hends.lt_length
  have hfirst := (frame_eq_ok_iff_getElem? hstack).2 (List.getElem?_eq_getElem hstart)
  rw [candidate, hstack]
  simp only [hfirst, (ascend_eq_iff hstart (Nat.lt_succ_self start)).2 hends, bind, Except.bind]

/-- On a stack without blocks and super sends, the activation that is decided on is the oldest one
    that the search may reach. The verdict is to compile its method under its key, at the level that
    the key is compiled at next, or the reason why it is not. There is a verdict unless the search
    stops there because a cost does not fit its word, or the level of the current code is the last
    one of a byte. -/
theorem candidate_least (c : Compiler) (hstack : t.stack pid = .ok stack)
    (hplain : ∀ a ∈ stack, ¬a.isBlock ∧ ¬a.superSend) (hstart : start < stack.length)
    (trigger : Trigger) :
    ∃ j a, c.MayReach stack start j ∧ (∀ i, c.MayReach stack start i → j ≤ i) ∧ stack[j]? = some a ∧
      (0 < j ∧ c.CostOverflows a → c.candidate t pid start trigger = .error .overflow) ∧
      (¬(0 < j ∧ c.CostOverflows a) →
        c.candidate t pid start trigger = (c.nextLevel a.key trigger).map (c.verdictOn j a)) ∧
      ∀ f, c.nextLevel a.key trigger = .error f ↔
        f = .overflow ∧ c.code.versionCount a.key < c.settings.recompile.maxVersions.toNat ∧
          ∃ n, c.code.currentMethod? a.key = some n ∧
            (trigger = .counter → n.level < c.settings.recompile.maxLevel.toNat) ∧
            c.settings.recompile.minInvocations.toNat ≤ n.invocations ∧ 255 ≤ n.level := by
  obtain ⟨q, r, hpath, hrests⟩ := exists_rests (p := ⟨start, 0, 0⟩) c hstart
  have hstands : c.Stands stack start q := .path (fun a ha => (hplain a ha).1) hpath
  have hleast i (hi : c.MayReach stack start i) :
      q.frame ≤ i := hstands.least (fun a ha => (hplain a ha).1) hrests hi
  have hends : c.Ends stack start r := ⟨q, hpath, hrests⟩
  obtain ⟨a, ha⟩ : ∃ a, stack[q.frame]? = some a :=
    ⟨_, List.getElem?_eq_getElem (Nat.lt_of_le_of_lt hstands.reach.le hstart)⟩
  obtain ⟨hfault, hframe⟩ := hrests.result ha (hplain a (List.mem_of_getElem? ha)).1
  refine ⟨q.frame, a, hstands.reach, hleast, ha, fun hover => ?_, fun hfits => ?_,
    fun f => nextLevel_eq_error_iff⟩
  · exact candidate_of_fault hstack (hfault hover ▸ hends)
  · -- An activation at which the search has ended is decided on: a plain send entered it.
    refine candidate_of_ends hstack (hframe hfits ▸ hends)
      ⟨Nat.le_refl _, fun k hk hk' => absurd hk (Nat.not_lt.2 hk'), ?_⟩ ha
    rintro ⟨b, hb, hsuper⟩
    exact absurd hsuper (hplain b (List.mem_of_getElem? hb)).2

/-- Two methods that call each other, of which the second one is compiled. A search may cross two
    interpreted activations. -/
def callingEachOther : Compiler where
  settings := { recompile := { maxInterpretedCrossed := 2 } }
  classes := { ClassTable.initial with
    classes := ClassTable.initial.classes.set 0 ⟨"Object", none, [(⟨1⟩, ⟨1⟩), (⟨0⟩, ⟨0⟩)]⟩
    methods := [
      Draft.finish { selector := ⟨0⟩, steps := [.send ⟨1⟩ .self []] } ⟨0⟩ ⟨0⟩ none,
      Draft.finish { selector := ⟨1⟩, steps := [.send ⟨0⟩ .self []] } ⟨1⟩ ⟨0⟩ none]
    selectors := ["even", "odd"] }
  code := {
    methods := [
      { id := ⟨0⟩, key := .send ⟨0⟩ ⟨1⟩, method := ⟨1⟩, version := 1, level := 1,
        invocations := 200, compiledAt := 1 }]
    current := [(.send ⟨0⟩ ⟨1⟩, ⟨0⟩)]
    versions := [(.send ⟨0⟩ ⟨1⟩, 1)]
    epoch := 1 }
  traps := {}

/-- The activations of their calls, the oldest and the newest one of them interpreted. -/
def eachOtherStack : List Activation :=
  let even : Activation := { key := .send ⟨0⟩ ⟨0⟩, method := ⟨0⟩ }
  let odd : Activation := { key := .send ⟨0⟩ ⟨1⟩, method := ⟨1⟩, execution := .compiled ⟨0⟩ 0 }
  [even, odd, even, odd, even, odd, even]

/-- The search crosses two interpreted activations, and does not reach the third one. -/
theorem candidate_least_callingEachOther : (∀ a ∈ eachOtherStack, ¬a.isBlock ∧ ¬a.superSend) ∧
    callingEachOther.candidate { callStacks := [eachOtherStack] } ⟨0⟩ 6 .counter =
      .ok (.recompile ⟨1, .send ⟨0⟩ ⟨1⟩, ⟨1⟩, some ⟨0⟩, 2⟩) ∧
    callingEachOther.MayReach eachOtherStack 6 1 ∧ ∀ i,
      callingEachOther.MayReach eachOtherStack 6 i → 1 ≤ i := by
  have hplain : ∀ a ∈ eachOtherStack, ¬a.isBlock ∧ ¬a.superSend := by decide
  have hcandidate : callingEachOther.candidate { callStacks := [eachOtherStack] } ⟨0⟩ 6 .counter =
      .ok (.recompile ⟨1, .send ⟨0⟩ ⟨1⟩, ⟨1⟩, some ⟨0⟩, 2⟩) := rfl
  have hstack : ProcessTable.stack { callStacks := [eachOtherStack] } ⟨0⟩ = .ok eachOtherStack :=
    rfl
  have hstart : 6 < eachOtherStack.length := by decide
  obtain ⟨j, a, hreach, hleast, -, hfault, hdecided, -⟩ :=
    candidate_least callingEachOther hstack hplain hstart .counter
  by_cases hover : 0 < j ∧ callingEachOther.CostOverflows a
  · cases hcandidate.symm.trans (hfault hover)
  · rw [hdecided hover] at hcandidate
    rcases hlevel : callingEachOther.nextLevel a.key .counter with f | why | level
    · rw [hlevel] at hcandidate
      cases hcandidate
    · rw [hlevel] at hcandidate
      cases hcandidate
    · rw [hlevel] at hcandidate
      have hchoice := Verdict.recompile.inj (Except.ok.inj hcandidate)
      obtain rfl : j = 1 := congrArg Choice.frame hchoice
      exact ⟨hplain, rfl, hreach, hleast⟩

/-- A method that costs more than fits a word. -/
def costlyCallee : Compiler where
  settings := {}
  classes := { ClassTable.initial with
    classes := ClassTable.initial.classes.set 0 ⟨"Object", none, [(⟨0⟩, ⟨0⟩)]⟩
    methods :=
      [Draft.finish { selector := ⟨0⟩, steps := [.work 3000000000, .work 3000000000] } ⟨0⟩ ⟨0⟩ none]
    selectors := ["run"] }
  code := {}
  traps := {}

/-- It has called itself. It would not be inlined, at that cost, and could be compiled, but there is
    no verdict. -/
theorem candidate_fails_costlyCallee :
    let a : Activation := { key := .send ⟨0⟩ ⟨0⟩, method := ⟨0⟩ }
    (∀ a' ∈ [a, a], ¬a'.isBlock ∧ ¬a'.superSend) ∧
      costlyCallee.candidate { callStacks := [[a, a]] } ⟨0⟩ 1 .counter = .error .overflow ∧
      costlyCallee.nextLevel a.key .counter = .ok (.ok 1) :=
  ⟨by decide, rfl, rfl⟩

end Compiler

end Warmup
