import Warmup.Proofs.CallSites
import Warmup.Proofs.InliningTree
import Warmup.Proofs.PolicyFaults

/-!
# The code of a graph

Code is a record of the graph that it is emitted from (`SendGraph.EmittedAs`): its scopes, a cache
for each send that is left, and a trap site for each trap, in the order of their positions. Its size
is the cost of all methods, changed by what became of their sends (`SendGraph.exactSize`). There is
code as long as what is computed in words fits them (`SendGraph.Emittable`).

A send becomes smaller by its own cost at most (`Resolution.neg_sendCost_le_exactGrowth`), and a
method costs more than its sends (`ClassTable.Built.sends_lt_exactCost`). The sends of a graph are
those of its methods, so each scope adds something to the size
(`Compiler.graph_scopes_le_exactSize`). -/

namespace Warmup

/-! ## Costs -/

/-- The cost of a method of the table. -/
def ClassTable.exactCost (t : ClassTable) (m : MethodId) : Nat :=
  ((t.method? m).map Method.exactCost).getD 0

theorem ClassTable.exactCost_lt (t : ClassTable) (h : ∀ m ∈ t.methods, m.exactCost < Word.size 32)
    (m : MethodId) :
    t.exactCost m < Word.size 32 := by
  rw [exactCost]
  rcases hm : t.method? m with _ | e
  · decide
  · exact h e (List.mem_of_getElem? hm)

/-- A body that ends with a return costs more than its sends. -/
theorem sends_lt_bodyCost (l : List Instr) :
    4 * ((l ++ [Instr.ret]).filterMap Instr.send?).length + 1 ≤
      ((l ++ [Instr.ret]).map Instr.cost).foldr (· + ·) 0 := by
  induction l with
  | nil => decide
  | cons i l ih =>
    rw [List.cons_append, List.map_cons, List.foldr_cons]
    cases i with
    | work cost =>
      rw [List.filterMap_cons_none rfl]
      exact Nat.le_add_left_of_le ih
    -- A send costs four, and nothing else adds a send.
    | send site =>
      rw [List.filterMap_cons_some (show (Instr.send site).send? = some site from rfl),
        List.length_cons,
        show (Instr.send site).cost = 4 from rfl]
      omega
    | ret =>
      rw [List.filterMap_cons_none rfl]
      exact Nat.le_add_left_of_le ih

theorem ClassTable.Built.sends_lt_exactCost {t : ClassTable} (h : t.Built) {m : MethodId}
    {e : Method} (he : t.method? m = some e) : 4 * e.sends.length + 1 ≤ e.exactCost := by
  obtain ⟨d, hbody⟩ := h.exists_draft he
  rw [Method.sends_eq, Method.exactCost, hbody]
  exact sends_lt_bodyCost (d.steps.mapIdx Draft.Step.place)

namespace Resolution

/-- The size of the tests of a type case, as it is computed in words. -/
def testSize (r : Resolution) : Nat :=
  if r.isTypeCase then typeTestSize * (r.arms.length % Word.size 32) else 0

/-- By how much a send that is inlined or becomes a trap is smaller. -/
def shift : Resolution → Int
  | inlined _ _ => -4
  | trap _ | typeCase _ (.trap _) => -2
  | send _ | typeCase _ (.send _) => 0

/-- By how much the size of a send changes, whether or not it fits a word. -/
def exactGrowth (r : Resolution) : Int :=
  (if r.isTypeCase then 2 * (r.arms.length : Int) else 0) + r.shift

/-- The growth of a send can be computed if the size of its tests fits. -/
theorem growth_of_fits {r : Resolution} (h : r.testSize < Word.size 32) :
    r.growth = .ok (r.testSize + r.shift) := by
  rcases r with _ | ⟨arms, residual⟩ | _ | _
  · rfl
  · rw [growth, Word.fit,
      if_pos (show typeTestSize * (arms.length % Word.size 32) < Word.size 32 from h)]
    rcases residual with _ | _
    · exact congrArg Except.ok (Int.add_zero _).symm
    · rfl
  · rfl
  · rfl

/-- Tests whose size does not fit make the computation fail. -/
theorem growth_of_not_fits {r : Resolution} (h : ¬r.testSize < Word.size 32) :
    r.growth = .error .overflow := by
  have hpos : 0 < Word.size 32 := by decide
  rcases r with _ | ⟨arms, residual⟩ | _ | _
  · exact absurd hpos h
  · rw [growth, Word.fit,
      if_neg (show ¬typeTestSize * (arms.length % Word.size 32) < Word.size 32 from h)]
    rfl
  · exact absurd hpos h
  · exact absurd hpos h

/-- A send never shrinks by more than its own cost. -/
theorem neg_sendCost_le_exactGrowth (r : Resolution) : -4 ≤ r.exactGrowth := by
  rcases r with _ | ⟨arms, _ | _⟩ | _ | _ <;>
    simp [exactGrowth, isTypeCase, Resolution.arms, shift] <;> omega

/-- Tests that are not too many are computed exactly. -/
theorem exactGrowth_eq {r : Resolution} (h : r.exactGrowth < Word.size 32 - 2) :
    r.testSize < Word.size 32 ∧ r.testSize + r.shift = r.exactGrowth := by
  have hsize : Word.size 32 = 4294967296 := by decide
  rw [hsize] at h ⊢
  rcases r with _ | ⟨arms, _ | _⟩ | _ | _ <;>
    simp [exactGrowth, testSize, typeTestSize, isTypeCase, Resolution.arms, shift, hsize]
      at h ⊢ <;> omega

end Resolution

namespace SendGraph

/-- The number of receiver classes that type cases test for. -/
def typeTests (g : SendGraph) : Nat :=
  ((g.sends.filter (·.resolution.isTypeCase)).map (·.resolution.arms.length)).foldr (· + ·) 0

/-- The size of the code of a graph: the cost of all its methods, without that of the sends that are
    inlined, with the tests of type cases, and with traps, which are smaller than sends. -/
def exactSize (g : SendGraph) (t : ClassTable) : Int :=
  ((g.scopes.map fun s => t.exactCost s.method).foldr (· + ·) 0 : Nat) - 4 *
    (g.count .inlined : Int)
    - 2 * (g.count .trap : Int) + 2 * (g.typeTests : Int) - 2 *
    (g.residuals.countP (!·.isSend) : Int)

/-- How much all sends grow is a matter of what becomes of them. -/
theorem exactSize_eq (g : SendGraph) (t : ClassTable) :
    g.exactSize t = ((g.scopes.map fun s => t.exactCost s.method).foldr (· + ·) 0 : Nat) +
      (g.sends.map (·.resolution.exactGrowth)).foldr (· + ·) 0 := by
  rw [exactSize, count, count, typeTests, residuals]
  generalize (g.scopes.map fun s => t.exactCost s.method).foldr (· + ·) 0 = cost
  induction g.sends with
  | nil => simp
  | cons x sends ih =>
    rw [List.map_cons, List.foldr_cons]
    rcases hr : x.resolution with _ | ⟨arms, _ | _⟩ | _ | _ <;>
      simp [hr, Resolution.kind, Resolution.residual?, Resolution.isTypeCase,
        Resolution.arms, Residual.isSend,
        Resolution.exactGrowth, Resolution.shift] at ih ⊢ <;> omega

/-- If each of some scopes costs more than its sends, all of them together do. -/
theorem sends_lt_cost {g : SendGraph} {t : ClassTable} {l : List CompileScope} {o : Offset}
    (h : ∀ (i : Nat) k, l[i]? = some k → 4 * (g.sendsIn (o + i)).length + 1 ≤ t.exactCost k.method) :
    4 * g.sends.countP (fun x => o ≤ x.scope ∧ x.scope < o + l.length) + l.length ≤
      (l.map fun s => t.exactCost s.method).foldr (· + ·) 0 := by
  induction l generalizing o with
  | nil =>
    have hnone : g.sends.countP (fun x => o ≤ x.scope ∧ x.scope < o + 0) = 0 := by
      refine List.countP_eq_zero.2 fun x _ => ?_
      rw [decide_eq_true_eq]
      lia
    rw [List.length_nil, hnone]
    exact Nat.le_refl 0
  | cons k l ih =>
    have hfirst : 4 * (g.sendsIn o).length + 1 ≤ t.exactCost k.method := h 0 k rfl
    have hrest := ih (o := o + 1) fun i k hk => by
      rw [Nat.add_right_comm]
      exact h (i + 1) k hk
    -- The sends from scope `o` on are those in it and those from the next one on.
    have hcount : g.sends.countP (fun x => o ≤ x.scope ∧ x.scope < o + (l.length + 1)) =
        (g.sendsIn o).length + g.sends.countP fun x => o + 1 ≤ x.scope ∧
        x.scope < o + 1 + l.length := by
      rw [sendsIn, ← List.countP_eq_length_filter]
      refine countP_eq_add (fun x => ?_) _
      by_cases hx : x.scope = o
      · simp [hx]
      · have hiff : o ≤ x.scope ∧ x.scope < o + (l.length + 1) ↔ o + 1 ≤ x.scope ∧
            x.scope < o + 1 + l.length := by
          lia
        simp [hx, hiff]
    rw [List.length_cons, List.map_cons, List.foldr_cons, hcount]
    omega

/-- No send shrinks by more than what it costs. -/
theorem neg_sends_le_growth (sends : List SendNode) :
    -4 * (sends.length : Int) ≤ (sends.map (·.resolution.exactGrowth)).foldr (· + ·) 0 := by
  induction sends with
  | nil => simp
  | cons x sends ih =>
    have hx := x.resolution.neg_sendCost_le_exactGrowth
    rw [List.map_cons, List.foldr_cons, List.length_cons]
    omega

/-- What one send grows by is not made up for by the others, beyond their own cost. -/
theorem growth_le_of_mem {sends : List SendNode} {x : SendNode} (hx : x ∈ sends) :
    x.resolution.exactGrowth + 4 - 4 * (sends.length : Int) ≤
      (sends.map (·.resolution.exactGrowth)).foldr (· + ·) 0 := by
  induction sends with
  | nil => cases hx
  | cons y sends ih =>
    rw [List.map_cons, List.foldr_cons, List.length_cons]
    rcases List.mem_cons.1 hx with rfl | hx
    · have hrest := neg_sends_le_growth sends
      omega
    · have hrest := ih hx
      have hy := y.resolution.neg_sendCost_le_exactGrowth
      omega

/-- All that is computed in words for the code of a graph fits them: the costs of its methods, and
    the size of the tests of each type case. -/
structure Emittable (g : SendGraph) (t : ClassTable) : Prop where
  costs : ∀ s ∈ g.scopes, t.exactCost s.method < Word.size 32
  tests : ∀ x ∈ g.sends, x.resolution.testSize < Word.size 32

variable {g : SendGraph} {t : ClassTable}

/-- The cost of a scope is that of its method, if it fits. -/
theorem cost_of_method {s : CompileScope} {m : Method} (hm : t.method? s.method = some m) :
    (do (← t.method s.method).cost : Except Fault Nat) =
      if t.exactCost s.method < Word.size 32 then .ok (t.exactCost s.method)
        else .error .overflow := by
  rw [ClassTable.method, ClassTable.exactCost, hm]
  rfl

/-- The cost of a graph is that of its methods together. -/
theorem cost_eq (h : ∀ s ∈ g.scopes, ∃ m, t.method? s.method = some m)
    (hfits : ∀ s ∈ g.scopes, t.exactCost s.method < Word.size 32) :
    g.cost t = .ok ((g.scopes.map fun s => t.exactCost s.method).foldr (· + ·) 0) := by
  have hcosts : (g.scopes.mapM fun s => do (← t.method s.method).cost : Except Fault (List Nat)) =
      .ok (g.scopes.map fun s => t.exactCost s.method) := by
    refine mapM_of_forall fun s hs => ?_
    obtain ⟨m, hm⟩ := h s hs
    rw [cost_of_method hm, if_pos (hfits s hs)]
  rw [cost, hcosts]
  rfl

/-- The size of the code of a graph as it is computed. -/
def computedSize (g : SendGraph) (t : ClassTable) : Int :=
  ((g.scopes.map fun s => t.exactCost s.method).foldr (· + ·) 0 : Nat) +
    (g.sends.map fun x => (x.resolution.testSize + x.resolution.shift : Int)).foldr (· + ·) 0

/-- There is code if all that is computed on the way fits. Its size is cut to the word. -/
theorem emit_of_emittable (h : ∀ s ∈ g.scopes, ∃ m, t.method? s.method = some m)
    (hfits : g.Emittable t) :
    g.emit t = .ok (g.code ((g.computedSize t).toNat % Word.size 32)) := by
  have hgrowth : g.sends.mapM (·.resolution.growth) =
      .ok (g.sends.map fun x => (x.resolution.testSize + x.resolution.shift : Int)) :=
    mapM_of_forall fun x hx => Resolution.growth_of_fits (hfits.tests x hx)
  rw [emit, cost_eq h hfits.costs, hgrowth]
  rfl

/-- There is no code if something does not fit. -/
theorem emit_of_not_emittable (h : ∀ s ∈ g.scopes, ∃ m, t.method? s.method = some m)
    (hfails : ¬g.Emittable t) :
    g.emit t = .error .overflow := by
  by_cases hcosts : ∀ s ∈ g.scopes, t.exactCost s.method < Word.size 32
  · -- All costs fit, so it is the tests of a send that do not.
    have hgrowth : g.sends.mapM (·.resolution.growth) = .error .overflow := by
      refine mapM_of_exists (fun x _ => ?_) ?_
      · by_cases hx : x.resolution.testSize < Word.size 32
        · exact .inl ⟨_, Resolution.growth_of_fits hx⟩
        · exact .inr (Resolution.growth_of_not_fits hx)
      · obtain ⟨x, hx, htests⟩ : ∃ x ∈ g.sends, ¬x.resolution.testSize < Word.size 32 := by
          by_contra hnone
          exact hfails ⟨hcosts, fun x hx => by_contra fun htests => hnone ⟨x, hx, htests⟩⟩
        exact ⟨x, hx, Resolution.growth_of_not_fits htests⟩
    rw [emit, cost_eq h hcosts, hgrowth]
    rfl
  · -- Costs are computed first, and one of them does not fit.
    have hcost : (g.scopes.mapM fun s => do (← t.method s.method).cost : Except Fault (List Nat)) =
        .error .overflow := by
      refine mapM_of_exists (fun s hs => ?_) ?_
      · obtain ⟨m, hm⟩ := h s hs
        rw [cost_of_method hm]
        split
        · exact .inl ⟨_, rfl⟩
        · exact .inr rfl
      · obtain ⟨s, hs, hlarge⟩ : ∃ s ∈ g.scopes, ¬t.exactCost s.method < Word.size 32 := by
          by_contra hnone
          exact hcosts fun s hs => by_contra fun hlarge => hnone ⟨s, hs, hlarge⟩
        obtain ⟨m, hm⟩ := h s hs
        exact ⟨s, hs, by rw [cost_of_method hm, if_neg hlarge]⟩
    rw [emit, cost, hcost]
    rfl

/-! ## Order -/

/-- Sends are sorted by their scopes, and in a scope by their positions. -/
theorem sorted_sends (g : SendGraph) : (g.sends.mergeSort SendNode.le).Pairwise fun a b =>
    a.scope < b.scope ∨ a.scope = b.scope ∧ a.bci ≤ b.bci := by
  have hle (a b : SendNode) :
      a.le b = true ↔ a.scope < b.scope ∨ a.scope = b.scope ∧ a.bci ≤ b.bci := by
    rw [SendNode.le]
    split_ifs <;> simp <;> lia
  refine (List.pairwise_mergeSort (fun a b c hab hbc => ?_) (fun a b => ?_) _).imp
    fun {a b} h => (hle a b).1 h
  · rw [hle] at hab hbc ⊢
    lia
  · rw [Bool.or_eq_true, hle, hle]
    lia

/-- What stands at different positions is in strictly increasing order. -/
theorem increasing_sends {g : SendGraph} (h : (g.sends.map fun x => (x.scope, x.bci)).Nodup) :
    (g.sends.mergeSort SendNode.le).Pairwise fun a b => a.scope < b.scope ∨
      a.scope = b.scope ∧ a.bci < b.bci := by
  have hnodup :=
    List.pairwise_map.1 (((List.mergeSort_perm g.sends SendNode.le).map _).nodup_iff.2 h)
  refine (g.sorted_sends.and hnodup).imp fun {a b} ⟨hle, hne⟩ => ?_
  have hbci : a.scope = b.scope → a.bci ≠ b.bci := fun hscope hbci => hne (Prod.ext hscope hbci)
  lia

end SendGraph

/-! ## Code -/

/-- The cache of a send that is left: nothing was sent through it, and it has the flags of the
    send. -/
def RealSend.cache (q : RealSend) (s : Selector) : InlineCache where
  selector := s
  superClass := q.lookupClass
  flags := q.flags

/-- Code is a record of its graph. -/
structure SendGraph.EmittedAs (g : SendGraph) (n : NativeMethod) : Prop where
  key : n.key = g.key
  method : n.method = g.method
  level : n.level = g.level
  scopes : n.scopes = g.scopes.map (·.desc)
  /-- There is a call site for each send that is left, as a whole or behind a type case. -/
  sites : ∀ s, s ∈ n.sites ↔ ∃ x ∈ g.sends, ∃ q,
    (x.resolution = .send q ∨ ∃ arms, x.resolution = .typeCase arms (.send q)) ∧
      s = ⟨x.scope, x.bci, q.cache x.selector⟩
  /-- There is a trap site for each trap, as a whole or behind a type case. -/
  traps : ∀ s, s ∈ n.traps ↔ ∃ x ∈ g.sends, ∃ p,
    (x.resolution = .trap p ∨ ∃ arms, x.resolution = .typeCase arms (.trap p)) ∧
    s = { scope := x.scope, bci := x.bci }
  fresh : ∀ s ∈ n.sites, s.cache.isEmpty ∧ s.cache.neverExecuted
  sitesIncreasing : n.sites.Pairwise fun a b => a.scope < b.scope ∨
    a.scope = b.scope ∧ a.bci < b.bci
  trapsIncreasing : n.traps.Pairwise fun a b => a.scope < b.scope ∨
    a.scope = b.scope ∧ a.bci < b.bci
  /-- No send has both. -/
  apart : ∀ s ∈ n.sites, ∀ p ∈ n.traps, ¬(p.scope = s.scope ∧ p.bci = s.bci)

/-- A send is left as such, or for the classes that a type case has no arm for. -/
theorem Resolution.send?_eq_some_iff {r : Resolution} {q : RealSend} :
    r.send? = some q ↔ r = .send q ∨ ∃ arms, r = .typeCase arms (.send q) := by
  rcases r with _ | ⟨arms, _ | _⟩ | _ | _ <;> simp [send?]

/-- A trap is left as such, or for the classes that a type case has no arm for. -/
theorem Resolution.trap?_eq_some_iff {r : Resolution} {p : TrapNode} :
    r.trap? = some p ↔ r = .trap p ∨ ∃ arms, r = .typeCase arms (.trap p) := by
  rcases r with _ | ⟨arms, _ | _⟩ | _ | _ <;> simp [trap?]

/-- A call site stands for a send that is left, with a cache of its own. -/
theorem SendNode.site?_eq_some_iff {x : SendNode}
    (h : ∀ q, x.resolution.send? = some q →
      (InlineCache.freshAt x.selector q.lookupClass).withFlags q.flags = q.cache x.selector)
    {s : CallSite} :
    x.site? = some s ↔ ∃ q,
      (x.resolution = .send q ∨ ∃ arms, x.resolution = .typeCase arms (.send q)) ∧
      s = ⟨x.scope, x.bci, q.cache x.selector⟩ := by
  rw [site?, Option.map_eq_some_iff]
  refine exists_congr fun q => ?_
  rw [← Resolution.send?_eq_some_iff]
  exact and_congr_right fun hq => by rw [h q hq, eq_comm]

/-- A trap site stands for a trap. -/
theorem SendNode.trap?_eq_some_iff {x : SendNode} {s : TrapSite} :
    x.trap? = some s ↔ ∃ p,
      (x.resolution = .trap p ∨ ∃ arms, x.resolution = .typeCase arms (.trap p)) ∧
      s = { scope := x.scope, bci := x.bci } := by
  rw [trap?, Option.map_eq_some_iff]
  refine exists_congr fun p => ?_
  rw [← Resolution.trap?_eq_some_iff, eq_comm (a := s)]

namespace SendGraph

variable {g : SendGraph} {t : ClassTable}

/-- The caches and the traps of code are in the order of their positions. -/
theorem code_increasing (hpositions : (g.sends.map fun x => (x.scope, x.bci)).Nodup) (size : Nat) :
    ((g.code size).sites.Pairwise fun a b => a.scope < b.scope ∨
      a.scope = b.scope ∧ a.bci < b.bci) ∧
      (g.code size).traps.Pairwise fun a b => a.scope < b.scope ∨
        a.scope = b.scope ∧ a.bci < b.bci := by
  constructor
  · refine List.pairwise_filterMap.2
      ((increasing_sends hpositions).imp fun {a b} hab s hs s' hs' => ?_)
    obtain ⟨q, -, rfl⟩ := Option.map_eq_some_iff.1 hs
    obtain ⟨q', -, rfl⟩ := Option.map_eq_some_iff.1 hs'
    exact hab
  · refine List.pairwise_filterMap.2
      ((increasing_sends hpositions).imp fun {a b} hab s hs s' hs' => ?_)
    obtain ⟨p, -, rfl⟩ := Option.map_eq_some_iff.1 hs
    obtain ⟨p', -, rfl⟩ := Option.map_eq_some_iff.1 hs'
    exact hab

/-- If sends stand at different positions, and the caches of those that are left get their flags,
    code is a record of its graph. -/
theorem emittedAs_code (hpositions : (g.sends.map fun x => (x.scope, x.bci)).Nodup)
    (hcache : ∀ x ∈ g.sends, ∀ q, x.resolution.send? = some q → q.flags.dirty = false ∧
      (InlineCache.freshAt x.selector q.lookupClass).withFlags q.flags = q.cache x.selector)
    (size : Nat) :
    g.EmittedAs (g.code size) := by
  have hsites (s : CallSite) :
      s ∈ (g.sends.mergeSort SendNode.le).filterMap (·.site?) ↔ ∃ x ∈ g.sends, ∃ q,
      (x.resolution = .send q ∨ ∃ arms, x.resolution = .typeCase arms (.send q)) ∧
        s = ⟨x.scope, x.bci, q.cache x.selector⟩ := by
    simp only [List.mem_filterMap, List.mem_mergeSort]
    exact exists_congr fun x => and_congr_right fun hx =>
      SendNode.site?_eq_some_iff fun q hq => (hcache x hx q hq).2
  constructor
  case key | method | level | scopes => rfl
  case sites => exact hsites
  case traps =>
    intro s
    simp only [code, List.mem_filterMap, List.mem_mergeSort, SendNode.trap?_eq_some_iff]
  -- A cache that was not dirty when it was made counts as never executed.
  case fresh =>
    intro s hs
    obtain ⟨x, hx, q, hq, rfl⟩ := (hsites s).1 hs
    have hdirty := (hcache x hx q (Resolution.send?_eq_some_iff.2 hq)).1
    exact ⟨rfl, by simp [InlineCache.neverExecuted, InlineCache.isEmpty, RealSend.cache, hdirty]⟩
  case sitesIncreasing => exact (code_increasing hpositions size).1
  case trapsIncreasing => exact (code_increasing hpositions size).2
  case apart => exact fun s hs p hp => code_apart hpositions size hs hp

end SendGraph

namespace Compiler

variable {c : Compiler} {t : FeedbackTree} {key : LookupKey} {method : MethodId} {level : Nat}
  {g : SendGraph} {stats : InliningStats}

/-- The cache of a send that is left starts with its flags. -/
theorem graph_cache (h : c.graph t key method level = .ok (g, stats)) {x : SendNode}
    (hx : x ∈ g.sends) {q : RealSend} (hq : x.resolution.send? = some q) :
    q.flags.dirty = false ∧
      (InlineCache.freshAt x.selector q.lookupClass).withFlags q.flags = q.cache x.selector := by
  obtain ⟨k, m, site, -, -, -, -, -, hsettled⟩ := graph_settled h hx
  rw [hsettled.eq_settle] at hq
  rcases settle_send_cases hq with ⟨-, rfl⟩ | ⟨-, uninlinable, static, counting, rfl⟩
  · refine ⟨rfl, ?_⟩
    rcases hstart : c.superClass? k with _ | d <;> rfl
  · exact ⟨rfl, rfl⟩

/-- The methods of a graph cost more than its sends. -/
theorem graph_sends_lt_cost (hbuilt : c.classes.Built)
    (h : c.graph t key method level = .ok (g, stats)) :
    4 * g.sends.length + g.scopes.length ≤
      (g.scopes.map fun s => c.classes.exactCost s.method).foldr (· + ·) 0 := by
  have htree := graph_isTree hbuilt.wellFormed h
  have hcost := SendGraph.sends_lt_cost (g := g) (t := c.classes) (l := g.scopes)
      (o := 0) fun i k hk => by
    obtain ⟨m, hm, -, hsends⟩ := htree.sends i k hk
    have hlength : (g.sendsIn i).length = m.sends.length := by simpa using hsends.length_eq
    rw [Nat.zero_add, hlength, ClassTable.exactCost, hm]
    exact hbuilt.sends_lt_exactCost hm
  -- All sends are those of the scopes.
  have hall :
      g.sends.countP (fun x => 0 ≤ x.scope ∧ x.scope < 0 + g.scopes.length) = g.sends.length := by
    refine List.countP_eq_length.2 fun x hx => ?_
    have hx := htree.within x hx
    rw [decide_eq_true_eq]
    lia
  rwa [hall] at hcost

/-- Each scope adds something to the size of the code. -/
theorem graph_scopes_le_exactSize (hbuilt : c.classes.Built)
    (h : c.graph t key method level = .ok (g, stats)) :
    (g.scopes.length : Int) ≤ g.exactSize c.classes := by
  have hcost := graph_sends_lt_cost hbuilt h
  have hgrowth := SendGraph.neg_sends_le_growth g.sends
  rw [SendGraph.exactSize_eq]
  omega

/-- A size that fits a word is computed exactly, because no send outweighs the cost of the
    others. -/
theorem graph_exactGrowth_lt (hbuilt : c.classes.Built)
    (h : c.graph t key method level = .ok (g, stats)) (hsize : g.exactSize c.classes < Word.size 32)
    {x : SendNode} (hx : x ∈ g.sends) :
    x.resolution.exactGrowth < Word.size 32 - 2 := by
  have hcost := graph_sends_lt_cost hbuilt h
  have hgrowth := SendGraph.growth_le_of_mem hx
  rw [SendGraph.exactSize_eq] at hsize
  omega

/-- The code of a graph is a record of it, and its size is exact if it fits a word. Each scope adds
    something to it. Code is emitted exactly if the costs of the methods and the tests of each type
    case fit a word. This is so if the costs of the methods fit, and the size of the code. -/
theorem emit_lossless (hbuilt : c.classes.Built) (h : c.graph t key method level = .ok (g, stats)) :
    (g.scopes.length : Int) ≤ g.exactSize c.classes ∧
      (g.Emittable c.classes → ∃ n, g.emit c.classes = .ok n ∧ g.EmittedAs n ∧
        (g.exactSize c.classes < Word.size 32 → (n.size : Int) = g.exactSize c.classes)) ∧
      (¬g.Emittable c.classes → g.emit c.classes = .error .overflow) ∧
      ((∀ s ∈ g.scopes, c.classes.exactCost s.method < Word.size 32) →
        g.exactSize c.classes < Word.size 32 → g.Emittable c.classes) := by
  have hsize := graph_scopes_le_exactSize hbuilt h
  have hmethods : ∀ s ∈ g.scopes, ∃ m, c.classes.method? s.method = some m := by
    intro s hs
    obtain ⟨o, ho⟩ := List.mem_iff_getElem?.1 hs
    exact graph_scope_method h hbuilt.wellFormed ho
  have hexact (hfits : g.exactSize c.classes < Word.size 32) (x : SendNode) (hx : x ∈ g.sends) :=
    Resolution.exactGrowth_eq (graph_exactGrowth_lt hbuilt h hfits hx)
  refine ⟨hsize, fun hemittable => ?_, SendGraph.emit_of_not_emittable hmethods,
    fun hcosts hfits => ?_⟩
  · refine ⟨_, SendGraph.emit_of_emittable hmethods hemittable, ?_, fun hfits => ?_⟩
    · exact SendGraph.emittedAs_code (graph_positions hbuilt.wellFormed h)
        (fun x hx q hq => graph_cache h hx hq) _
    · -- The size is the exact one where the exact one fits.
      have hcomputed : g.computedSize c.classes = g.exactSize c.classes := by
        rw [SendGraph.exactSize_eq, SendGraph.computedSize,
          List.map_congr_left fun x hx => (hexact hfits x hx).2]
      have hsame : (g.code ((g.computedSize c.classes).toNat % Word.size 32)).size =
          (g.exactSize c.classes).toNat := by
        rw [SendGraph.code, hcomputed, Nat.mod_eq_of_lt (by omega)]
      rw [hsame]
      omega
  · exact ⟨hcosts, fun x hx => (hexact hfits x hx).1⟩

/-- The receiver of the first send was true or false; nothing is known about the second one. -/
def bothSeen : FeedbackTree := .ofScopes [
  { what := .interpreted (.send ⟨0⟩ ⟨0⟩) ⟨0⟩ true, sender := none, level := 0, complete := [0] },
  { what := .callee (.send ⟨5⟩ ⟨1⟩) ⟨1⟩ (.interpreted ⟨1⟩), sender := some (⟨0⟩, 0), level := 1 },
  { what := .callee (.send ⟨6⟩ ⟨1⟩) ⟨2⟩ (.interpreted ⟨2⟩), sender := some (⟨0⟩, 0), level := 1 },
  { what := .untaken .uncommonBranch, sender := some (⟨0⟩, 0), level := 1 }]

/-- The methods cost 19. The block is inlined without a test, and the type case has two tests and a
    trap. -/
theorem emit_lossless_conditional : ∃ g stats n, conditional.classes.Built ∧
    conditional.graph bothSeen (.send ⟨0⟩ ⟨0⟩) ⟨0⟩ 1 = .ok (g, stats) ∧ g.scopes.length = 4 ∧
    g.count .inlined = 1 ∧ g.typeTests = 2 ∧ g.trapCount = 1 ∧ g.realSendCount = 1 ∧
    g.emit conditional.classes = .ok n ∧ g.EmittedAs n ∧ n.size = 17 := by
  obtain ⟨g, stats, h, hlength, hinlined, htests, htraps, hsends, hsize⟩ : ∃ g stats,
      conditional.graph bothSeen (.send ⟨0⟩ ⟨0⟩) ⟨0⟩ 1 = .ok (g, stats) ∧ g.scopes.length = 4 ∧
      g.count .inlined = 1 ∧ g.typeTests = 2 ∧ g.trapCount = 1 ∧ g.realSendCount = 1 ∧
      g.exactSize conditional.classes = 17 := ⟨_, _, rfl, rfl, rfl, rfl, rfl, rfl, rfl⟩
  have hcosts : ∀ s ∈ g.scopes, conditional.classes.exactCost s.method < Word.size 32 :=
    fun s _ => conditional.classes.exactCost_lt (by decide) s.method
  obtain ⟨-, hemit, -, hemittable⟩ := emit_lossless built_conditional h
  rw [hsize] at hemit hemittable
  obtain ⟨n, hn, hemitted, hexact⟩ := hemit (hemittable hcosts (by decide))
  exact ⟨g, stats, n, built_conditional, h, hlength, hinlined, htests, htraps, hsends, hn, hemitted,
    Int.ofNat.inj (hexact (by decide))⟩

/-- A method that is too expensive. -/
def costly : Compiler where
  settings := {}
  classes := { ClassTable.initial with
    classes := ClassTable.initial.classes.set 0 ⟨"Object", none, [(⟨0⟩, ⟨0⟩)]⟩
    methods :=
      [Draft.finish { selector := ⟨0⟩, steps := [.work 3000000000, .work 3000000000] } ⟨0⟩ ⟨0⟩ none]
    selectors := ["run"] }
  code := {}
  traps := {}

/-- There is a graph of the method, but no code. -/
theorem not_emitted_costly : ∃ g stats, costly.classes.Built ∧
    costly.graph .null (.send ⟨0⟩ ⟨0⟩) ⟨0⟩ 1 = .ok (g, stats) ∧
      g.emit costly.classes = .error .overflow := by
  have hbuilt : costly.classes.Built := ClassTable.Built.addMethod
    (ClassTable.Built.initial.intern "run") (c := ⟨0⟩)
    (b := { selector := ⟨0⟩, steps := [.work 3000000000, .work 3000000000] }) rfl
  exact ⟨_, _, hbuilt, rfl, rfl⟩

end Compiler

end Warmup
