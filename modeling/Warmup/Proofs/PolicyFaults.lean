import Warmup.Proofs.Basic
import Warmup.SendGraph.Inline

/-!
# Decisions that fail

Costs and limits are numbers that must fit a word. Whether a callee is inlined can be said unless
one of them does not, and each part of the decision fails exactly for that reason:

* `sizeLimit_eq_error_iff`, `decideByCost_eq_error_iff`, `shouldInline_eq_error_iff`: the policy;
* `decideAt_eq_error_iff`: the decision at a send, which also needs the cost of the home of a block
  (`DecisionOverflows`).
-/

namespace Warmup

/-- The cost of a body, whether or not it fits a word. -/
def Method.exactCost (m : Method) : Nat := (m.body.map Instr.cost).foldr (· + ·) 0

theorem Method.cost_eq (m : Method) :
    m.cost = if m.exactCost < Word.size 32 then .ok m.exactCost else .error .overflow := rfl

/-- A home has a cost unless it has one that does not fit; no home is no obstacle. -/
theorem Method.mapM_cost (home : Option Method) : home.mapM Method.cost =
    if home.all (·.exactCost < Word.size 32) then .ok (home.map Method.exactCost)
      else .error .overflow := by
  rcases home with _ | m
  · rfl
  · by_cases hfits : m.exactCost < Word.size 32
    · simp [cost_eq, hfits]
    · simp [cost_eq, hfits]

namespace Compiler

variable {c : Compiler} {k : Candidate} {f : Fault}

/-- The limit on the cost of a callee, whether or not it fits a word. -/
def exactLimit (c : Compiler) (k : Candidate) : Nat :=
  (if k.method.isBlock then c.settings.inlining.maxBlockCost
    else c.settings.inlining.maxMethodCost).toNat +
    k.blockArgs % Word.size 32 * c.settings.inlining.blockArgBonus.toNat

theorem sizeLimit_eq (c : Compiler) (k : Candidate) :
    c.sizeLimit k = if c.exactLimit k < Word.size 32 then .ok (c.exactLimit k)
      else .error .overflow :=
  rfl

/-- There is no limit exactly if it does not fit its word. -/
theorem sizeLimit_eq_error_iff :
    c.sizeLimit k = .error f ↔ f = .overflow ∧ Word.size 32 ≤ c.exactLimit k := by
  rw [sizeLimit_eq]
  by_cases hfits : c.exactLimit k < Word.size 32
  · simp [hfits]
  · simp [hfits, Nat.not_lt.1 hfits, eq_comm]

/-- A decision by cost fails if the cost does not fit its word; or if the limit does not, and is
    needed, because the callee is no negligible part of its home. -/
theorem decideByCost_eq_error_iff : c.decideByCost k = .error f ↔ f = .overflow ∧
    (Word.size 32 ≤ k.method.exactCost ∨
      (∀ home, k.homeCost = some home →
        ¬k.isNegligible c.settings.inlining.minBlockPercent.toNat k.method.exactCost home) ∧
        Word.size 32 ≤ c.exactLimit k) := by
  rw [decideByCost, Method.cost_eq]
  -- The limit is asked for only if the block is not negligible for its home.
  by_cases hcost : k.method.exactCost < Word.size 32
  · rw [if_pos hcost, ← Option.filter_eq_none_iff]
    simp only [bind, Except.bind]
    rcases k.homeCost.filter
        (k.isNegligible c.settings.inlining.minBlockPercent.toNat k.method.exactCost) with
      _ | home
    · have hlimit := sizeLimit_eq_error_iff (c := c) (k := k) (f := f)
      rcases hsize : c.sizeLimit k with f' | limit
      · simpa [hsize, Nat.not_le.2 hcost] using hlimit
      · simpa [hsize, Nat.not_le.2 hcost, pure, Except.pure] using hlimit
    · simp [pure, Except.pure, Nat.not_le.2 hcost]
  · rw [if_neg hcost]
    refine ⟨fun h => ⟨(Except.error.inj h).symm, .inl (Nat.not_lt.1 hcost)⟩, ?_⟩
    rintro ⟨rfl, -⟩
    rfl

/-- Hints and settings come before the cost. -/
theorem shouldInline_eq_error_iff : c.shouldInline k = .error f ↔
    c.settings.inlining.enabled ∧ k.method.hint = .unspecified ∧ c.decideByCost k = .error f := by
  rw [shouldInline]
  split
  · next hon => rcases hhint : k.method.hint with _ | _ | _ <;> simp [hon]
  · next hoff => simp [hoff]

/-- The size of the callee's own code is no cause of failure. -/
theorem wouldInline_eq_error_iff {key : LookupKey} :
    c.wouldInline k key = .error f ↔ c.shouldInline k = .error f := by
  rw [wouldInline]
  rcases hdecision : c.shouldInline k with f' | builtin | why
  · rfl
  · simp only [bind, Except.bind]
    split <;> simp [pure, Except.pure]
  · simp [bind, Except.bind, pure, Except.pure]

/-- Only a block has a home, and so a share of it. -/
theorem not_negligible_iff
    (hhome : k.homeCost = (k.method.home.bind c.classes.method?).map Method.exactCost)
    {p cost : Nat} :
    (∀ home, k.homeCost = some home → ¬k.isNegligible p cost home) ↔
      ∀ id home, k.method.home = some id → c.classes.method? id = some home →
        p * home.exactCost ≤ cost * 100 := by
  rw [hhome]
  constructor
  · intro h id home hid hm
    simpa [Candidate.isNegligible, Method.isBlock, hid] using h home.exactCost (by simp [hid, hm])
  · intro h homeCost hcost
    obtain ⟨home, hfound, rfl⟩ := Option.map_eq_some_iff.1 hcost
    obtain ⟨id, hid, hm⟩ := Option.bind_eq_some_iff.1 hfound
    simpa [Candidate.isNegligible, Method.isBlock, hid] using h id home hid hm

/-! ## Homes -/

variable {m : Method}

variable (c m) in
/-- The cost of the home of a block does not fit its word. -/
def HomeOverflows : Prop :=
  ∃ id home, m.home = some id ∧ c.classes.method? id = some home ∧ Word.size 32 ≤ home.exactCost

/-- The cost of the home of a block is found, unless it does not fit its word. -/
theorem homeCost_cases (c : Compiler) (m : Method) :
    (m.home.bind c.classes.method?).mapM Method.cost =
      .ok ((m.home.bind c.classes.method?).map Method.exactCost) ∧
        ¬c.HomeOverflows m ∨
      (m.home.bind c.classes.method?).mapM Method.cost = .error .overflow ∧ c.HomeOverflows m := by
  rw [Method.mapM_cost]
  -- A home that does not exist has no cost, and is no reason to fail.
  rcases hhome : m.home.bind c.classes.method? with _ | home
  · refine .inl ⟨rfl, ?_⟩
    rintro ⟨id, home, hid, hm, -⟩
    rw [hid, Option.bind_some, hm] at hhome
    cases hhome
  · obtain ⟨id, hid, hm⟩ := Option.bind_eq_some_iff.1 hhome
    have hiff : c.HomeOverflows m ↔ Word.size 32 ≤ home.exactCost := by
      constructor
      · rintro ⟨id', home', hid', hm', hlarge⟩
        obtain rfl := Option.some.inj (hid.symm.trans hid')
        obtain rfl := Option.some.inj (hm.symm.trans hm')
        exact hlarge
      · exact fun hlarge => ⟨id, home, hid, hm, hlarge⟩
    rw [hiff]
    by_cases hfits : home.exactCost < Word.size 32
    · exact .inl ⟨by simp [hfits], Nat.not_le.2 hfits⟩
    · exact .inr ⟨by simp [hfits], Nat.not_lt.1 hfits⟩

/-! ## Decisions at sends -/

/-- What goes wrong in the decision on a callee that is not met too often: the cost of the home of a
    block does not fit its word; or the callee is decided on by its cost, and the cost or the limit
    does not. -/
structure DecisionOverflows (c : Compiler) (a : Caller) (site : SendSite) (e : Callee)
    (m : Method) : Prop where
  unrolled : a.trail.count (e.method, e.key.cls) ≤ c.settings.inlining.maxUnroll.toNat
  cause : c.HomeOverflows m ∨ c.settings.inlining.enabled ∧ m.hint = .unspecified ∧
    (Word.size 32 ≤ m.exactCost ∨
      (∀ id home, m.home = some id → c.classes.method? id = some home →
        c.settings.inlining.minBlockPercent.toNat * home.exactCost ≤ m.exactCost * 100) ∧
      Word.size 32 ≤
        (if m.isBlock then c.settings.inlining.maxBlockCost
          else c.settings.inlining.maxMethodCost).toNat +
          (site.args.countP fun x => (a.scope.value x).isBlock) % Word.size 32 *
            c.settings.inlining.blockArgBonus.toNat)

/-- The decision at a send fails exactly if `DecisionOverflows` says so. -/
theorem decideAt_eq_error_iff {a : Caller} {site : SendSite} {e : Callee} :
    c.decideAt a site e m = .error f ↔ f = .overflow ∧ c.DecisionOverflows a site e m := by
  rw [decideAt]
  split
  · -- A recursion that was unrolled too often is refused before any cost is asked for.
    next hmet =>
    refine iff_of_false (by rintro ⟨⟩) ?_
    rintro ⟨-, hover⟩
    exact Nat.not_lt.2 hover.unrolled hmet
  · next hmet =>
    rcases homeCost_cases c m with ⟨hcost, hhome⟩ | ⟨hcost, hhome⟩
    · rw [hcost]
      simp only [bind, Except.bind]
      rw [shouldInline_eq_error_iff, decideByCost_eq_error_iff, not_negligible_iff (c := c) rfl]
      constructor
      · rintro ⟨hon, hhint, rfl, hcause⟩
        exact ⟨rfl, Nat.not_lt.1 hmet, .inr ⟨hon, hhint, hcause⟩⟩
      · rintro ⟨rfl, -, hcause⟩
        obtain ⟨hon, hhint, hcause⟩ := hcause.resolve_left hhome
        exact ⟨hon, hhint, rfl, hcause⟩
    · rw [hcost]
      simp only [bind, Except.bind, Except.error.injEq]
      exact ⟨fun h => ⟨h.symm, Nat.not_lt.1 hmet, .inl hhome⟩, fun h => h.1.symm⟩

end Compiler

end Warmup
