import Warmup.Proofs.Decisions
import Warmup.Proofs.PolicyFaults

/-!
# How far inlining goes

Methods may call themselves and each other, and ask to be inlined wherever they are called. Still
a graph is finite: no scope lies deeper than the settings allow, and no method is met too often,
for the same class of receivers, on the way from the root to a scope.

* `Reached.trail_eq`: the trail that the decision on a callee looks at is what the scopes
  around it say;
* `Reached.levels_depth`: the levels that are left and the depth of a scope add up to the limit;
* `Compiler.Settles`: a computation has a result, unless a number does not fit its word;
* `graph_bounded`: every method that exists has a graph, and the graph is bounded.
-/

namespace Warmup

/-- What a trail says of a scope: its method, and the class under which it is filed. -/
def CompileScope.mark (k : CompileScope) : MethodId × ClassId := (k.method, k.key.cls)

namespace Compiler

variable {c : Compiler} {t : FeedbackTree} {g : SendGraph} {levels n : Nat} {r a b : Caller}
  {p : List (Bci × LookupKey)} {site : SendSite} {d : ClassId} {m : Method} {e : Callee}

/-! ## The scopes around a scope -/

/-- Going into a callee adds it to the trail. -/
theorem Enters.trail_eq (h : c.Enters t a site d b) : b.trail = b.scope.mark :: a.trail := by
  obtain ⟨e, m, builtin, -, -, -, hb⟩ := h.callee
  rw [hb]
  rfl

theorem Enters.depth_eq (h : c.Enters t a site d b) : b.scope.depth = a.scope.depth + 1 := by
  obtain ⟨e, m, builtin, -, -, -, hb⟩ := h.callee
  rw [hb]
  rfl

/-- A callee that is allowed was not met too often. -/
theorem Enters.count_trail_le (h : c.Enters t a site d b) :
    a.trail.count (b.scope.mark) ≤ c.settings.inlining.maxUnroll.toNat := by
  obtain ⟨e, m, builtin, -, -, hallowed, hb⟩ := h.callee
  rw [decideAt] at hallowed
  split at hallowed
  · cases hallowed
  · next hle =>
    rw [hb]
    exact Nat.le_of_not_lt hle

/-- The trail of a caller is its lineage in the graph. -/
theorem Reached.trail_eq (hg : Ordered g.scopes) (hroot : r.scope.sender = none)
    (htrail : r.trail = [r.scope.mark]) (h : c.Reached t g levels r p n a) :
    a.trail = (lineage g.scopes a.scope.id).map CompileScope.mark := by
  induction h with
  | root hr =>
    rw [hg.lineage_eq hr.scope, hroot]
    exact htrail
  | enter _ henter hb ih =>
    rw [hg.lineage_eq hb.scope, henter.sender, henter.trail_eq, ih]
    rfl

/-- A trail is as long as its caller is deep. -/
theorem Reached.length_trail (hroot : r.scope.depth = 0) (htrail : r.trail = [r.scope.mark])
    (h : c.Reached t g levels r p n a) : a.trail.length = a.scope.depth + 1 := by
  induction h with
  | root _ => rw [htrail, hroot, List.length_singleton]
  | enter _ henter _ ih => rw [henter.trail_eq, henter.depth_eq, List.length_cons, ih]

/-- The levels that are left and the depth of a caller add up to the limit. -/
theorem Reached.levels_depth (hroot : r.scope.depth = 0) (h : c.Reached t g levels r p n a) :
    n + a.scope.depth = levels := by
  induction h with
  | root _ => rw [hroot, Nat.add_zero]
  | enter _ henter _ ih =>
    rw [henter.depth_eq]
    omega

/-- On a trail no method occurs more often, for one class of receivers, than recursion is
    unrolled. -/
theorem Reached.count_trail_le (htrail : r.trail = [r.scope.mark])
    (h : c.Reached t g levels r p n a) (x : MethodId × ClassId) :
    a.trail.count x ≤ c.settings.inlining.maxUnroll.toNat + 1 := by
  induction h with
  | root _ =>
    rw [htrail]
    exact Nat.le_trans List.count_le_length (Nat.le_add_left 1 _)
  | @enter p n a site d b _ henter _ ih =>
    rw [henter.trail_eq, List.count_cons]
    -- Only the mark of the callee is met once more, and before that it was not met too often.
    split
    · next heq =>
      obtain rfl : b.scope.mark = x := by simpa using heq
      exact Nat.succ_le_succ henter.count_trail_le
    · exact ih

/-! ## Results -/

/-- All costs and all limits fit their words. -/
structure WithinWords (c : Compiler) : Prop where
  cost : ∀ id m, c.classes.method? id = some m → ∃ cost, m.cost = .ok cost
  limit : ∀ id m site, c.classes.method? id = some m → site ∈ m.sends →
    max c.settings.inlining.maxMethodCost.toNat c.settings.inlining.maxBlockCost.toNat +
      site.args.length * c.settings.inlining.blockArgBonus.toNat < Word.size 32

/-- A computation has a result, or it meets a number that does not fit its word. -/
def Settles {α : Type} (c : Compiler) (x : Except Fault α) : Prop :=
  (∃ a, x = .ok a) ∨ x = .error .overflow ∧ ¬c.WithinWords

/-- A decision on a callee at a send can be made, unless one of these numbers does not fit. -/
theorem settles_decideAt {id : MethodId} {caller : Method}
    (hcaller : c.classes.method? id = some caller) (hsite : site ∈ caller.sends)
    (hm : c.classes.method? e.method = some m) : c.Settles (c.decideAt a site e m) := by
  have hcost {id : MethodId} {m : Method} (hm : c.classes.method? id = some m)
      (hlarge : Word.size 32 ≤ m.exactCost) : ¬c.WithinWords := by
    intro hwords
    obtain ⟨cost, hcost⟩ := hwords.cost id m hm
    rw [Method.cost_eq, if_neg (Nat.not_lt.2 hlarge)] at hcost
    cases hcost
  rcases hdecide : c.decideAt a site e m with f | decision
  · obtain ⟨rfl, hover⟩ := decideAt_eq_error_iff.1 hdecide
    refine .inr ⟨rfl, ?_⟩
    rcases hover.cause with ⟨id', home, -, hhome, hlarge⟩ | ⟨-, -, hlarge | ⟨-, hlarge⟩⟩
    · exact hcost hhome hlarge
    · exact hcost hm hlarge
    · intro hwords
      -- As many arguments as the send has can be blocks, and either limit may be the larger one.
      have hlimit := hwords.limit id caller site hcaller hsite
      have hblocks :
          (site.args.countP fun x => (a.scope.value x).isBlock) % Word.size 32 ≤ site.args.length :=
        Nat.le_trans (Nat.mod_le _ _) List.countP_le_length
      have hbonus := Nat.mul_le_mul_right c.settings.inlining.blockArgBonus.toNat hblocks
      split at hlarge <;> omega
  · exact .inl ⟨decision, rfl⟩

/-- A method that exists has a graph, unless a number does not fit. -/
theorem settles_graph (t : FeedbackTree) (key : LookupKey) {method : MethodId}
    (hm : c.classes.method? method = some m) (level : Nat) :
    c.Settles (c.graph t key method level) := by
  refine yields_graph t key hm level fun k b site d e m' _ htries => ?_
  obtain ⟨caller, hcaller, hsite⟩ := htries.sends
  exact settles_decideAt hcaller hsite htries.method

/-- If superclass chains end, compiling a method ends, whatever calls what and whatever is to be
    inlined. Each lookup ends with its answer, and there is a graph, unless a cost or a limit does
    not fit its word. No scope of the graph lies deeper than the settings allow; as many scopes as
    its depth says are around it; and among these and itself no method occurs more often, for a
    class of receivers, than it may be unrolled. -/
theorem graph_bounded (c : Compiler) (t : FeedbackTree) (key : LookupKey) {method : MethodId}
    {m : Method} (hends : c.classes.ChainsEnd) (hm : c.classes.method? method = some m)
    (level : Nat) :
    (∀ d s, c.classes.Searches s d (c.classes.lookup d s)) ∧
    ((∃ g stats, c.graph t key method level = .ok (g, stats) ∧
      ∀ (o : Offset) k, g.scopes[o]? = some k → k.depth ≤ c.settings.inlining.maxDepth.toNat ∧
        (lineage g.scopes o).length = k.depth + 1 ∧
        ∀ x, ((lineage g.scopes o).map CompileScope.mark).count x ≤
          c.settings.inlining.maxUnroll.toNat + 1) ∨
      c.graph t key method level = .error .overflow ∧ ¬c.WithinWords) := by
  refine ⟨hends.searches, (settles_graph t key hm level).imp_left ?_⟩
  rintro ⟨⟨g, stats⟩, h⟩
  refine ⟨g, stats, h, fun o k hk => ?_⟩
  have hg := graph_ordered h
  obtain ⟨m', -, -, hscopes, -⟩ := graph_reached h
  obtain ⟨n, trail, hreached⟩ := hscopes o k hk
  obtain rfl : k.id = o := hg.id_eq o k hk
  have hdepth := hreached.levels_depth rfl
  have htrail := hreached.trail_eq hg rfl rfl
  refine ⟨Nat.le.intro ((Nat.add_comm _ _).trans hdepth), ?_, fun x => ?_⟩
  · have hlength := hreached.length_trail rfl rfl
    rwa [htrail, List.length_map] at hlength
  · rw [← htrail]
    exact hreached.count_trail_le rfl x

/-- A method that calls an expensive one with a block, which calls the method again. All three
    are to be inlined wherever they are called. -/
def ring : Compiler where
  settings := {}
  classes := { ClassTable.initial with
    classes := ClassTable.initial.classes.set 0 ⟨"Object", none, [(⟨1⟩, ⟨1⟩), (⟨0⟩, ⟨0⟩)]⟩
    methods := [
      Draft.finish { selector := ⟨0⟩, hint := .always, steps := [.send ⟨1⟩ .self [.block ⟨2⟩]] } ⟨0⟩
      ⟨0⟩ none,
      Draft.finish { selector := ⟨1⟩, argCount := 1, hint := .always,
                     steps := [.send ⟨2⟩ (.arg 0) [], .work 1000] }
        ⟨1⟩ ⟨0⟩ none,
      Draft.finish { selector := ⟨2⟩, hint := .always, steps := [.send ⟨0⟩ .self []] } ⟨2⟩
      ⟨0⟩ (some ⟨0⟩)]
    selectors := ["run", "each:", "value"] }
  code := {}
  traps := {}

/-- The ring is gone through twice. -/
theorem graph_bounded_ring :
    ring.classes.ChainsEnd ∧ ∃ m g stats, ring.classes.method? ⟨0⟩ = some m ∧
    ring.graph .null (.send ⟨0⟩ ⟨0⟩) ⟨0⟩ 1 = .ok (g, stats) ∧ g.scopes.length = 6 ∧
      stats.rejected = [.recursive 2] ∧
    (lineage g.scopes 5).length = 6 ∧
      ((lineage g.scopes 5).map CompileScope.mark).count (⟨0⟩, ⟨0⟩) = 2 ∧
    ∀ x, ((lineage g.scopes 5).map CompileScope.mark).count x ≤ 2 := by
  obtain ⟨m, g, stats, k, hm, h, hscopes, hrejected, hcount, hk, hdepth⟩ : ∃ m g stats k,
      ring.classes.method? ⟨0⟩ = some m ∧ ring.graph .null (.send ⟨0⟩ ⟨0⟩) ⟨0⟩ 1 = .ok (g, stats) ∧
      g.scopes.length = 6 ∧ stats.rejected = [.recursive 2] ∧
      ((lineage g.scopes 5).map CompileScope.mark).count (⟨0⟩, ⟨0⟩) = 2 ∧ g.scopes[5]? = some k ∧
      k.depth = 5 :=
    ⟨_, _, _, _, rfl, rfl, rfl, rfl, rfl, rfl, rfl⟩
  have hends : ring.classes.ChainsEnd := ClassTable.Founded.chainsEnd (by decide)
  rcases (graph_bounded ring .null (.send ⟨0⟩ ⟨0⟩) hends hm 1).2
    with ⟨g', stats', h', hbounded⟩ | ⟨herror, -⟩
  · obtain ⟨rfl, rfl⟩ := Prod.mk.inj (Except.ok.inj (h.symm.trans h'))
    obtain ⟨-, hlength, hcounts⟩ := hbounded 5 k hk
    exact ⟨hends, m, g, stats, hm, h, hscopes, hrejected, by rw [hlength, hdepth], hcount, hcounts⟩
  · cases h.symm.trans herror

end Compiler

end Warmup
