import Mathlib.Algebra.GroupWithZero.Nat
import Mathlib.Data.List.Perm.Basic
import Warmup.Proofs.InliningBounds
import Warmup.Proofs.Retention
import Warmup.Proofs.SendPositions

/-!
# The tree of a graph

A graph is the tree of all that is inlined into a method: its scopes are numbered in preorder,
each of them but the root takes the place of one send, and what becomes of a send of a scope is
decided once.

* `SendGraph.subtree`: a scope and all below it. They stand together (`Preordered.subtree_eq`);
* `SendGraph.calls`: what is inlined where. These are the scopes, each once (`graph_calls_perm`);
* `graph_sendsIn_perm`: in a scope there are the sends of its method;
* `Grows.stats_eq`: what is counted while a graph grows is the sum of what its sends contribute;
* `SendGraph.Counted`: the statistics of a graph count its sends by what becomes of them;
* `graph_complete_tree`: every method that exists has such a tree.
-/

namespace Warmup

/-! ## Subtrees -/

/-- The scope at an offset, and all that is inlined into it or into what is inlined into it. -/
def SendGraph.subtree (g : SendGraph) (o : Offset) : List Offset :=
  (List.range g.scopes.length).filter fun i => (lineage g.scopes i).any (·.id = o)

/-- The numbers in an interval, among all numbers up to a larger one. -/
theorem filter_range_eq_range' {p : Nat → Bool} {o size n : Nat} (hn : o + size ≤ n)
    (h : ∀ i < n, p i = true ↔ o ≤ i ∧ i < o + size) :
    (List.range n).filter p = List.range' o size := by
  obtain ⟨rest, rfl⟩ := Nat.exists_eq_add_of_le hn
  have hsplit : List.range (o + size + rest) =
      List.range' 0 o ++ List.range' o size ++ List.range' (o + size) rest := by
    rw [List.range_eq_range', ← List.range'_append_1, ← List.range'_append_1,
      Nat.zero_add, Nat.zero_add]
  -- Before and behind the range nothing passes.
  have houtside {start len : Nat} (hlen : start + len ≤ o + size + rest)
      (hout : start + len ≤ o ∨ o + size ≤ start) : (List.range' start len).filter p = [] := by
    refine List.filter_eq_nil_iff.2 fun i hi => ?_
    rw [List.mem_range'_1] at hi
    rw [h i (by omega)]
    omega
  have hwithin : (List.range' o size).filter p = List.range' o size := by
    refine List.filter_eq_self.2 fun i hi => ?_
    rw [List.mem_range'_1] at hi
    exact (h i (by omega)).2 hi
  rw [hsplit, List.filter_append, List.filter_append, houtside (by omega) (by omega), hwithin,
    houtside (by omega) (by omega), List.nil_append, List.append_nil]

namespace Ordered

variable {l : List CompileScope} {o i : Nat} {x y : CompileScope}

theorem pairwise_id (h : Ordered l) : l.Pairwise fun x y => x.id ≠ y.id := by
  refine List.pairwise_iff_getElem.2 fun i j hi hj hij heq => ?_
  rw [h.id_eq i _ (List.getElem?_eq_getElem hi), h.id_eq j _ (List.getElem?_eq_getElem hj)] at heq
  exact Nat.ne_of_lt hij heq

/-- The scopes of a lineage are scopes of the list, and none of them comes later. -/
theorem of_mem_lineage (h : Ordered l) (hx : x ∈ lineage l i) : l[x.id]? = some x ∧ x.id ≤ i := by
  induction i using Nat.strongRecOn with
  | ind i ih =>
    rcases hk : l[i]? with _ | k
    · simp [lineage, lineageUpTo, hk] at hx
    · rw [h.lineage_eq hk] at hx
      -- The scope itself, or one in the lineage of its sender, which comes before it.
      rcases List.mem_cons.1 hx with rfl | hx
      · rw [h.id_eq i x hk]
        exact ⟨hk, Nat.le_refl i⟩
      · rcases hs : k.sender with _ | ⟨p, bci⟩
        · simp [hs] at hx
        · rw [hs] at hx
          have hp := h.sender_lt i k p bci hk hs
          obtain ⟨hget, hle⟩ := ih p hp hx
          exact ⟨hget, Nat.le_trans hle (Nat.le_of_lt hp)⟩

/-- A scope is known by its number. -/
theorem any_lineage_iff (h : Ordered l) (hx : l[o]? = some x) :
    (lineage l i).any (·.id = o) ↔ x ∈ lineage l i := by
  simp only [List.any_eq_true, decide_eq_true_eq]
  constructor
  · rintro ⟨y, hy, rfl⟩
    obtain rfl := Option.some.inj ((h.of_mem_lineage hy).1.symm.trans hx)
    exact hy
  · exact fun hmem => ⟨x, hmem, h.id_eq o x hx⟩

/-- What lies around a scope lies around all below it. -/
theorem mem_lineage_trans (h : Ordered l) (hy : l[o]? = some y) (hmem : y ∈ lineage l i)
    (hx : x ∈ lineage l o) :
    x ∈ lineage l i := by
  rw [← h.dropWhile_lineage hy hmem] at hx
  exact (List.dropWhile_suffix _).subset hx

end Ordered

namespace Preordered

variable {l : List CompileScope} {o i : Nat} {x : CompileScope}

/-- Once a scope is left, nothing more is inlined into it. -/
theorem notMem_lineage_succ (h : Preordered l) (hx : l[o]? = some x) (hi : o ≤ i)
    (hleft : x ∉ lineage l i) :
    x ∉ lineage l (i + 1) := by
  intro hmem
  rcases hk : l[i + 1]? with _ | k
  · simp [lineage, lineageUpTo, hk] at hmem
  · -- The next scope hangs at one around scope `i`, so the scopes around it are no others.
    obtain ⟨p, bci, y, hsender, hy, hnested⟩ := h.nested i k hk
    rw [h.lineage_eq hk, hsender] at hmem
    rcases List.mem_cons.1 hmem with rfl | hmem
    · have hid : o = i + 1 := (h.id_eq o x hx).symm.trans (h.id_eq (i + 1) x hk)
      omega
    · exact hleft (h.mem_lineage_trans hy hnested hmem)

/-- What is inlined into a scope follows it without a gap. -/
theorem exists_mem_lineage_iff (h : Preordered l) (hx : l[o]? = some x) {n : Nat} (hn : o < n) :
    ∃ size, o + size ≤ n ∧ ∀ i < n, x ∈ lineage l i ↔ o ≤ i ∧ i < o + size := by
  have hle {i : Nat} (hmem : x ∈ lineage l i) : o ≤ i := h.id_eq o x hx ▸ (h.of_mem_lineage hmem).2
  induction n, hn using Nat.le_induction with
  | base =>
    refine ⟨1, Nat.le_refl _, fun i hi => ⟨fun hmem => ⟨hle hmem, hi⟩, fun hi' => ?_⟩⟩
    obtain rfl : i = o := by omega
    exact h.mem_lineage_self hx
  | succ n hn ih =>
    obtain ⟨size, hsize, hall⟩ := ih
    by_cases hmem : x ∈ lineage l n
    · -- The scope before this one is not outside, so all were inside.
      have hfull : o + size = n := by
        by_contra hne
        obtain ⟨j, rfl⟩ : ∃ j, n = j + 1 := ⟨n - 1, by omega⟩
        refine h.notMem_lineage_succ hx (by omega) (fun hmem' => ?_) hmem
        have := (hall j (by omega)).1 hmem'
        omega
      refine ⟨size + 1, by omega, fun i hi => ?_⟩
      rcases Nat.lt_succ_iff_lt_or_eq.1 hi with hi | rfl
      · rw [hall i hi]
        omega
      · exact iff_of_true hmem (by omega)
    · refine ⟨size, by omega, fun i hi => ?_⟩
      rcases Nat.lt_succ_iff_lt_or_eq.1 hi with hi | rfl
      · exact hall i hi
      · exact iff_of_false hmem (by omega)

/-- A scope and all below it stand together, because scopes are in preorder. -/
theorem subtree_eq {g : SendGraph} (h : Preordered g.scopes) (ho : o < g.scopes.length) :
    ∃ size, g.subtree o = List.range' o (size + 1) := by
  have hx := List.getElem?_eq_getElem ho
  obtain ⟨size, hsize, hall⟩ := h.exists_mem_lineage_iff hx ho
  have hpos : o < o + size := ((hall o ho).1 (h.mem_lineage_self hx)).2
  obtain ⟨size, rfl⟩ := Nat.exists_eq_add_one_of_ne_zero
    (Nat.ne_zero_of_lt (Nat.lt_add_right_iff_pos.1 hpos))
  exact ⟨size, filter_range_eq_range' hsize fun i hi => (h.any_lineage_iff hx).trans (hall i hi)⟩

end Preordered

/-! ## Calls -/

/-- Where a scope is called, and its offset. The root is not called. -/
def CompileScope.call? (s : CompileScope) : Option ((Offset × Bci) × Offset) :=
  s.sender.map fun d => (d, s.id)

/-- The callees that take the place of a send, and where they are called. -/
def SendNode.calls (n : SendNode) : List ((Offset × Bci) × Offset) :=
  n.resolution.arms.map fun a => ((n.scope, n.bci), a.2)

/-- All callees that are inlined, and where they are called. -/
def SendGraph.calls (g : SendGraph) : List ((Offset × Bci) × Offset) :=
  g.sends.flatMap SendNode.calls

namespace Fragment

variable {f f' : Fragment} {calls calls' : List ((Offset × Bci) × Offset)}

/-- The scopes of a part are called by its sends, one by one, or are among some calls that are
    still to come. -/
def Linked (f : Fragment) (calls : List ((Offset × Bci) × Offset)) : Prop :=
  (f.scopes.filterMap CompileScope.call?).Perm (f.sends.flatMap SendNode.calls ++ calls)

/-- Calls of two parts are the calls of both. -/
theorem Linked.append (h : f.Linked calls) (h' : f'.Linked calls') :
    (f.append f').Linked (calls ++ calls') := by
  rw [Linked, Fragment.append, List.filterMap_append, List.flatMap_append]
  refine (List.Perm.append h h').trans ?_
  rw [List.append_assoc, List.append_assoc]
  refine List.Perm.append_left _ ?_
  rw [← List.append_assoc, ← List.append_assoc]
  exact List.perm_append_comm.append_right _

/-- A scope is called by a send that comes later. -/
theorem Linked.headed {s : CompileScope} {d : Offset × Bci} (h : f.Linked [])
    (hs : s.sender = some d) :
    (f.headed s).Linked [(d, s.id)] := by
  have hcall : s.call? = some (d, s.id) := by rw [CompileScope.call?, hs, Option.map_some]
  rw [Linked, List.append_nil] at h
  rw [Linked, scopes_headed, sends_headed, List.filterMap_cons_some hcall]
  exact (h.cons _).trans (List.perm_append_singleton _ _).symm

/-- A send makes its calls. -/
theorem Linked.send {s : CompileScope} {site : SendSite} {r : Resolution}
    (h : f.Linked (r.arms.map fun a => ((s.id, site.bci), a.2))) :
    (f.append (.ofSend s site r)).Linked [] := by
  rw [Linked, List.append_nil, scopes_append, scopes_ofSend, List.append_nil,
    sends_append, List.flatMap_append]
  simpa [Linked, SendNode.calls] using h

end Fragment

namespace Compiler

variable {c : Compiler} {t : FeedbackTree} {n : Nat} {a : Caller} {w : Work} {next : Offset}
  {f : Fragment}

/-- The calls that some work in a caller leaves to the send it is done for. -/
def Work.calls (a : Caller) : Work → List ((Offset × Bci) × Offset)
  | .attempts site _ arms => arms.map fun x => ((a.scope.id, site.bci), x.2)
  | .sends _ => []

/-- Attempts leave open just what the send then calls. -/
theorem Grows.linked (h : c.Grows t n a w next f) : f.Linked (w.calls a) := by
  induction h with
  | tried => exact List.Perm.refl []
  | refused _ _ _ ih => exact ih
  | enter henter _ _ _ ih ih' => exact (ih.headed henter.sender).append ih'
  | sent => exact List.Perm.refl []
  | @send n a site sites arms next f f' _ hgrows _ ih ih' =>
    -- The attempts have inlined what the send then calls.
    have hcalls : f.Linked
        ((c.settle t a.scope site arms).arms.map fun x => ((a.scope.id, site.bci), x.2)) := by
      rw [settle_arms hgrows.arms.1]
      exact ih
    have hsend := Fragment.Linked.send hcalls
    rw [← Fragment.append_assoc]
    exact hsend.append ih'

/-- A number that is kept in the statistics is the sum of what the sends contribute to it, if it
    adds up and does not count rejections. -/
theorem Grows.stats_eq (h : c.Grows t n a w next f) {number : InliningStats → Nat}
    (happend : ∀ x y, number (x.append y) = number x + number y) (hempty : number {} = 0)
    (hrejected : ∀ why, number { rejected := [why] } = 0) :
    number f.stats = (f.sends.map fun x => number x.resolution.stats).sum := by
  induction h with
  | tried => exact hempty
  | refused why _ _ ih =>
    have hwhy : number (Fragment.ofRejection why).stats = 0 := hrejected why
    rw [Fragment.stats_append, happend, hwhy, Nat.zero_add, ih]
    rfl
  | enter _ _ _ _ ih ih' =>
    rw [Fragment.stats_append, happend, Fragment.sends_append,
      List.map_append, List.sum_append, ← ih']
    exact congrArg (· + _) ih
  | sent => exact hempty
  -- A send itself counts nothing; what became of it is counted when it is settled.
  | @send n a site sites arms next f f' _ _ _ ih ih' =>
    have hsend : number (Fragment.ofSend a.scope site (c.settle t a.scope site arms)).stats = 0 :=
      hempty
    simp only [Fragment.stats_append, Fragment.stats_count, happend, Fragment.sends_append,
      Fragment.sends_count, Fragment.sends_ofSend, List.map_append, List.sum_append, List.map_cons,
      List.map_nil, List.sum_singleton, ← ih, ← ih', hsend]
    omega

section Graph

variable {g : SendGraph} {key : LookupKey} {method : MethodId} {level : Nat} {stats : InliningStats}
  (h : c.graph t key method level = .ok (g, stats))
include h

/-- The callees of the sends of a graph are its scopes, without the root. -/
theorem graph_calls_perm : g.calls.Perm (g.scopes.filterMap CompileScope.call?) := by
  obtain ⟨m, part, -, hexp, hscopes, hsends, -⟩ := graph_ok h
  obtain ⟨rest, rfl, hgrows⟩ := expand_grows _ _ _ hexp
  have hlinked : rest.Linked [] := hgrows.linked
  have hroot : (rootCaller t key m).scope.call? = none := rfl
  rw [Fragment.Linked, List.append_nil, ← Fragment.sends_headed, hsends] at hlinked
  rw [← hscopes, Fragment.scopes_headed, List.filterMap_cons_none hroot]
  exact hlinked.symm

/-- A scope is called from the send that it hangs at. -/
theorem graph_mem_calls {x : (Offset × Bci) × Offset} :
    x ∈ g.calls ↔ ∃ k, g.scopes[x.2]? = some k ∧ k.sender = some x.1 := by
  rw [(graph_calls_perm h).mem_iff, List.mem_filterMap]
  constructor
  · rintro ⟨k, hk, hcall⟩
    obtain ⟨i, hi⟩ := List.mem_iff_getElem?.1 hk
    obtain ⟨d, hd, rfl⟩ := Option.map_eq_some_iff.1 hcall
    exact ⟨k, by rwa [(graph_ordered h).id_eq i k hi], hd⟩
  · rintro ⟨k, hk, hd⟩
    refine ⟨k, List.mem_of_getElem? hk, ?_⟩
    rw [CompileScope.call?, hd, (graph_ordered h).id_eq _ k hk]
    rfl

/-- No scope is called twice. -/
theorem graph_nodup_calls : g.calls.Nodup := by
  rw [(graph_calls_perm h).nodup_iff]
  refine List.pairwise_filterMap.2
    ((graph_ordered h).pairwise_id.imp fun hne x hx y hy hxy => hne ?_)
  obtain ⟨d, -, rfl⟩ := Option.map_eq_some_iff.1 hx
  obtain ⟨d', -, rfl⟩ := Option.map_eq_some_iff.1 hy
  exact congrArg Prod.snd hxy

/-- No callee is shared. -/
theorem graph_filter_calls {o : Offset} {k : CompileScope} {d : Offset × Bci}
    (hk : g.scopes[o]? = some k) (hd : k.sender = some d) :
    g.calls.filter (·.2 = o) = [(d, o)] := by
  refine List.perm_singleton.1 ((List.perm_ext_iff_of_nodup ((graph_nodup_calls h).filter _)
    (List.nodup_singleton _)).2 fun x => ?_)
  rw [List.mem_filter, graph_mem_calls h, List.mem_singleton, decide_eq_true_eq]
  constructor
  · rintro ⟨⟨k', hk', hd'⟩, rfl⟩
    obtain rfl := Option.some.inj (hk.symm.trans hk')
    exact Prod.ext (Option.some.inj (hd'.symm.trans hd)) rfl
  · rintro rfl
    exact ⟨⟨k, hk, hd⟩, rfl⟩

/-- What was counted on the way are the callees, type cases, sends and traps of the graph. -/
theorem graph_stats : stats.inlined = g.inlinedCount ∧ stats.typeCases = g.typeCaseCount ∧
    stats.realSends = g.realSendCount ∧ stats.traps = g.trapCount := by
  obtain ⟨m, part, -, hexp, -, hsends, rfl⟩ := graph_ok h
  obtain ⟨rest, rfl, hgrows⟩ := expand_grows _ _ _ hexp
  -- To count sends of a kind is to add up one for each.
  have hcounts (p : SendNode → Bool) :
      (g.sends.map fun x => (p x).toNat).sum = g.sends.countP p := by
    induction g.sends with
    | nil => rfl
    | cons x sends ih =>
      rw [List.map_cons, List.sum_cons, ih, List.countP_cons]
      cases p x <;> simp [Nat.add_comm]
  have hsum (number : InliningStats → Nat)
      (happend : ∀ x y, number (x.append y) = number x + number y)
      (hempty : number {} = 0) (hrejected : ∀ why, number { rejected := [why] } = 0) :
      number rest.stats = (g.sends.map fun x => number x.resolution.stats).sum := by
    rw [← hsends, Fragment.sends_headed]
    exact hgrows.stats_eq happend hempty hrejected
  refine ⟨hsum (·.inlined) ?_ ?_ ?_, (hsum (·.typeCases) ?_ ?_ ?_).trans (hcounts _),
    (hsum (·.realSends) ?_ ?_ ?_).trans (hcounts _), (hsum (·.traps) ?_ ?_ ?_).trans (hcounts _)⟩
  all_goals intros; rfl

/-- Each scope but the root is called once. -/
theorem graph_inlinedCount : g.inlinedCount + 1 = g.scopes.length := by
  have hpre := graph_preordered h
  have hcalls : g.inlinedCount = g.calls.length := by
    rw [SendGraph.inlinedCount, SendGraph.calls]
    induction g.sends with
    | nil => rfl
    | cons n sends ih => simp [SendNode.calls, ih]
  rw [hcalls, (graph_calls_perm h).length_eq, List.length_filterMap_eq_countP]
  rcases hscopes : g.scopes with _ | ⟨root, rest⟩
  · exact absurd hscopes (graph_scopes_ne_nil h)
  · rw [hscopes] at hpre
    have hroot : root.sender = none := hpre.root root rfl
    -- All scopes but the root are called from somewhere.
    have hrest : ∀ k ∈ rest, k.call?.isSome := by
      intro k hk
      obtain ⟨i, hi⟩ := List.mem_iff_getElem?.1 hk
      obtain ⟨o, bci, -, hsender, -⟩ := hpre.nested i k hi
      simp [CompileScope.call?, hsender]
    rw [List.countP_cons_of_neg (by simp [CompileScope.call?, hroot]),
      List.countP_eq_length.2 hrest]
    rfl

/-! ## Sends -/

/-- Every scope has a method: the root the one that is compiled, any other the one that it was
    entered for. -/
theorem graph_scope_method (hw : c.classes.WellFormed) {o : Nat} {k : CompileScope}
    (hk : g.scopes[o]? = some k) :
    ∃ m, c.classes.method? k.method = some m := by
  rcases o with _ | o
  · obtain ⟨m, hm, hgrown, -⟩ := graph_reached h
    obtain rfl : rootScope t key m = k := Option.some.inj (hgrown.scope.symm.trans hk)
    exact ⟨m, by rw [rootScope, hw.id_eq method m hm, hm]⟩
  · obtain ⟨p, bci, -, hsender, -⟩ := (graph_preordered h).nested o k hk
    obtain ⟨a, site, d, trail, -, -, henter⟩ := graph_entered h hk hsender
    obtain ⟨e, m, builtin, -, hm, -, hb⟩ := henter.callee
    have hmethod : k.method = e.method := congrArg (·.scope.method) hb
    exact ⟨m, hmethod ▸ hm⟩

/-- What a scope sends is what its method sends, and each send has one fate. -/
theorem graph_sendsIn_perm (hw : c.classes.WellFormed) {o : Offset} {k : CompileScope} {m : Method}
    (hk : g.scopes[o]? = some k) (hm : c.classes.method? k.method = some m) :
    ((g.sendsIn o).map fun n => (n.bci, n.selector)).Perm
      (m.sends.map fun s => (s.bci, s.selector)) := by
  obtain ⟨root, -, -, hscopes, hsends⟩ := graph_reached h
  have hpositions := graph_positions hw h
  have hnodup : ((g.sendsIn o).map fun n => (n.bci, n.selector)).Nodup := by
    refine List.Nodup.map_on (fun x hx y hy hxy => ?_) ((List.Nodup.of_map _ hpositions).filter _)
    obtain ⟨hx, hxo⟩ := List.mem_filter.1 hx
    obtain ⟨hy, hyo⟩ := List.mem_filter.1 hy
    refine List.inj_on_of_nodup_map hpositions hx hy (Prod.ext ?_ (congrArg Prod.fst hxy))
    exact (of_decide_eq_true hxo).trans (of_decide_eq_true hyo).symm
  have hnodup' : (m.sends.map fun s => (s.bci, s.selector)).Nodup :=
    List.pairwise_map.2 ((hw.positions _ m hm).imp fun hne heq => hne (congrArg Prod.fst heq))
  -- Nothing occurs twice on either side, so it is enough that the same sends occur.
  refine (List.perm_ext_iff_of_nodup hnodup hnodup').2 fun x => ?_
  simp only [List.mem_map, SendGraph.sendsIn, List.mem_filter, decide_eq_true_eq]
  constructor
  · rintro ⟨n, ⟨hn, rfl⟩, rfl⟩
    obtain ⟨levels, a, site, hreached, hanswers⟩ := hsends n hn
    obtain ⟨m', hm', hsite⟩ := hanswers.sends
    have ha : a.scope = k := by
      have hscope := hreached.grown.scope
      rw [← hanswers.scope, hk] at hscope
      exact (Option.some.inj hscope).symm
    obtain rfl := Option.some.inj (hm.symm.trans (ha ▸ hm'))
    exact ⟨site, hsite, by rw [hanswers.bci, hanswers.selector]⟩
  · rintro ⟨site, hsite, rfl⟩
    obtain ⟨levels, trail, hreached⟩ := hscopes o k hk
    obtain ⟨r, hr, -⟩ := hreached.grown.tried hm hsite
    exact ⟨_, ⟨hr, (graph_ordered h).id_eq o k hk⟩, rfl⟩

end Graph

end Compiler

/-! ## Counts -/

namespace Resolution

/-- What can become of a send. -/
inductive Kind
  | inlined
  | typeCase
  | send
  | trap
  deriving DecidableEq

/-- What becomes of a send. -/
def kind : Resolution → Kind
  | inlined _ _ => .inlined
  | typeCase _ _ => .typeCase
  | send _ => .send
  | trap _ => .trap

/-- What is left of a send whose callee the receiver class chooses. -/
def residual? : Resolution → Option Residual
  | typeCase _ r => some r
  | _ => none

end Resolution

/-- Counting by two properties of which only one can hold. -/
theorem countP_eq_add {α : Type} {p q r : α → Bool}
    (h : ∀ a, (p a).toNat = (q a).toNat + (r a).toNat) (l : List α) :
    l.countP p = l.countP q + l.countP r := by
  induction l with
  | nil => rfl
  | cons a l ih =>
    have hcons (p : α → Bool) : (a :: l).countP p = l.countP p + (p a).toNat := by
      cases hp : p a <;> simp [hp]
    rw [hcons, hcons, hcons, ih, h a]
    omega

/-- Whether a send is left. -/
def Residual.isSend : Residual → Bool
  | send _ => true
  | trap _ => false

namespace SendGraph

/-- The number of sends of a kind. -/
def count (g : SendGraph) (kind : Resolution.Kind) : Nat :=
  g.sends.countP (·.resolution.kind = kind)

/-- What is left of the type cases of a graph. -/
def residuals (g : SendGraph) : List Residual := g.sends.filterMap (·.resolution.residual?)

/-- The statistics of a graph tell how many callees are inlined, and count its sends by their kinds
    and what is left of type cases. -/
structure Counted (g : SendGraph) (stats : InliningStats) : Prop where
  sends : g.sends.length = g.count .inlined + g.count .typeCase + g.count .send + g.count .trap
  residuals : g.residuals.length = g.count .typeCase
  /-- Every scope but the root is inlined. -/
  inlined : stats.inlined + 1 = g.scopes.length
  typeCases : stats.typeCases = g.count .typeCase
  realSends : stats.realSends = g.count .send + g.residuals.countP (·.isSend)
  traps : stats.traps = g.count .trap + g.residuals.countP (!·.isSend)

/-- Every send is of one kind. -/
theorem length_sends (g : SendGraph) :
    g.sends.length = g.count .inlined + g.count .typeCase + g.count .send + g.count .trap := by
  simp only [count]
  induction g.sends with
  | nil => rfl
  | cons n sends ih =>
    cases hkind : n.resolution.kind <;> simp [hkind, ih] <;> omega

/-- Each type case has one send or trap for the classes without arm. -/
theorem length_residuals (g : SendGraph) : g.residuals.length = g.count .typeCase := by
  rw [residuals, List.length_filterMap_eq_countP]
  refine List.countP_congr fun n _ => ?_
  rcases n.resolution with _ | _ | _ | _ <;> simp [Resolution.residual?, Resolution.kind]

theorem typeCaseCount_eq (g : SendGraph) : g.typeCaseCount = g.count .typeCase := by
  refine List.countP_congr fun n _ => ?_
  rcases n.resolution with _ | _ | _ | _ <;> simp [Resolution.isTypeCase, Resolution.kind]

/-- Sends are left as such, or behind a type case. -/
theorem realSendCount_eq (g : SendGraph) :
    g.realSendCount = g.count .send + g.residuals.countP (·.isSend) := by
  rw [residuals, List.countP_filterMap]
  refine countP_eq_add (fun n => ?_) _
  rcases n.resolution with _ | ⟨_, _ | _⟩ | _ | _ <;> rfl

/-- Traps are left as such, or behind a type case. -/
theorem trapCount_eq (g : SendGraph) :
    g.trapCount = g.count .trap + g.residuals.countP (!·.isSend) := by
  rw [residuals, List.countP_filterMap]
  refine countP_eq_add (fun n => ?_) _
  rcases n.resolution with _ | ⟨_, _ | _⟩ | _ | _ <;> rfl

end SendGraph

/-! ## Trees -/

/-- A graph is the tree of all that is inlined into its method. -/
structure SendGraph.IsTree (g : SendGraph) (classes : ClassTable) : Prop where
  /-- The first scope is that of the method. -/
  root : ∃ k, g.scopes[0]? = some k ∧ k.key = g.key ∧ k.method = g.method ∧ k.sender = none ∧
    k.depth = 0
  /-- Any other is inlined into one that comes before it, a level deeper. -/
  sender : ∀ (o : Offset) k, g.scopes[o + 1]? = some k → ∃ p bci s,
    k.sender = some (p, bci) ∧ p < o + 1 ∧ g.scopes[p]? = some s ∧ k.depth = s.depth + 1
  numbered : ∀ (o : Offset) k, g.scopes[o]? = some k → k.id = o
  /-- All that is inlined into a scope follows it, and nothing else stands between. -/
  contiguous : ∀ o < g.scopes.length, ∃ size, g.subtree o = List.range' o (size + 1)
  /-- A scope with a sender takes the place of that send, and of no other. -/
  called : ∀ (o : Offset) k d, g.scopes[o]? = some k → k.sender = some d →
    g.calls.filter (·.2 = o) = [(d, o)]
  callee : ∀ x ∈ g.calls, ∃ k, g.scopes[x.2]? = some k ∧ k.sender = some x.1
  /-- In a scope there is each send of its method once, and no other. -/
  sends : ∀ (o : Offset) k, g.scopes[o]? = some k → ∃ m, classes.method? k.method = some m ∧
    (m.sends.map (·.bci)).Nodup ∧
    ((g.sendsIn o).map fun n => (n.bci, n.selector)).Perm (m.sends.map fun s => (s.bci, s.selector))
  /-- There are no sends but those of the scopes. -/
  within : ∀ n ∈ g.sends, n.scope < g.scopes.length

namespace Compiler

variable {c : Compiler} {t : FeedbackTree} {key : LookupKey} {method : MethodId} {level : Nat}
  {g : SendGraph} {stats : InliningStats}

/-- A graph is a tree in preorder, with the sends of each method in its scope. -/
theorem graph_isTree (hw : c.classes.WellFormed) (h : c.graph t key method level = .ok (g, stats)) :
    g.IsTree c.classes where
  root := by
    obtain ⟨hkey, hmethod, -⟩ := graph_expanded h
    obtain ⟨m, hm, hgrown, -⟩ := graph_reached h
    exact ⟨_, hgrown.scope, hkey.symm, (hw.id_eq method m hm).trans hmethod.symm, rfl, rfl⟩
  sender o k hk := by
    obtain ⟨p, bci, -, hsender, -⟩ := (graph_preordered h).nested o k hk
    obtain ⟨a, site, d, trail, ha, -, henter⟩ := graph_entered h hk hsender
    exact ⟨p, bci, a.scope, hsender, (graph_ordered h).sender_lt _ k p bci hk hsender, ha,
      henter.depth_eq⟩
  numbered := (graph_ordered h).id_eq
  contiguous o ho := (graph_preordered h).subtree_eq ho
  called o k d hk hd := graph_filter_calls h hk hd
  callee x hx := (graph_mem_calls h).1 hx
  sends o k hk := by
    obtain ⟨m, hm⟩ := graph_scope_method h hw hk
    exact ⟨m, hm, List.pairwise_map.2 (hw.positions _ m hm), graph_sendsIn_perm h hw hk hm⟩
  within n hn := by
    obtain ⟨m, -, -, -, hsends⟩ := graph_reached h
    obtain ⟨levels, a, site, hreached, hanswers⟩ := hsends n hn
    rw [hanswers.scope]
    exact (List.getElem?_eq_some_iff.1 hreached.grown.scope).1

/-- What was counted while the graph grew is what it has. -/
theorem graph_counted (h : c.graph t key method level = .ok (g, stats)) : g.Counted stats := by
  obtain ⟨hinlined, htypeCases, hrealSends, htraps⟩ := graph_stats h
  exact ⟨g.length_sends, g.length_residuals, hinlined ▸ graph_inlinedCount h,
    htypeCases.trans g.typeCaseCount_eq,
    hrealSends.trans g.realSendCount_eq, htraps.trans g.trapCount_eq⟩

/-- A method that exists is compiled to a complete tree of scopes, in which every send has one
    fate. It has one scope more than callees were counted as inlined, and the other numbers that
    were kept on the way count the sends by what became of them. Only a cost or a limit that does
    not fit its word stops the compiler. -/
theorem graph_complete_tree (c : Compiler) (t : FeedbackTree) (key : LookupKey) (level : Nat)
    (hbuilt : c.classes.Built) {m : Method} (hm : c.classes.method? method = some m) :
    (∃ g stats, c.graph t key method level = .ok (g, stats) ∧ g.key = key ∧ g.method = method ∧
      g.IsTree c.classes ∧ g.Counted stats) ∨
      c.graph t key method level = .error .overflow ∧ ¬c.WithinWords := by
  refine (settles_graph t key hm level).imp_left ?_
  rintro ⟨⟨g, stats⟩, h⟩
  obtain ⟨hkey, hmethod, -⟩ := graph_expanded h
  exact ⟨g, stats, h, hkey, hmethod, graph_isTree hbuilt.wellFormed h, graph_counted h⟩

/-- Of the two callees that the receiver class chooses from, the first has a callee of its own. -/
theorem graph_complete_tree_conditional : ∃ m g stats, conditional.classes.Built ∧
    conditional.classes.method? ⟨0⟩ = some m ∧
      conditional.graph .null (.send ⟨0⟩ ⟨0⟩) ⟨0⟩ 1 = .ok (g, stats) ∧
    g.scopes.length = 4 ∧ g.subtree 1 = [1, 2] ∧ g.calls = [((1, 0), 2), ((0, 0), 1), ((0, 0), 3)] ∧
    g.IsTree conditional.classes ∧ stats.inlined = 3 ∧ stats.typeCases = 1 ∧ stats.realSends = 2 ∧
    g.Counted stats := by
  obtain ⟨m, g, stats, hm, h, hlength, hsubtree, hcalls, htypeCases, hrealSends⟩ : ∃ m g stats,
      conditional.classes.method? ⟨0⟩ = some m ∧
      conditional.graph .null (.send ⟨0⟩ ⟨0⟩) ⟨0⟩ 1 = .ok (g, stats) ∧
      g.scopes.length = 4 ∧ g.subtree 1 = [1, 2] ∧
      g.calls = [((1, 0), 2), ((0, 0), 1), ((0, 0), 3)] ∧
      stats.typeCases = 1 ∧ stats.realSends = 2 := ⟨_, _, _, rfl, rfl, rfl, rfl, rfl, rfl, rfl⟩
  rcases graph_complete_tree conditional .null (.send ⟨0⟩ ⟨0⟩) 1 built_conditional hm with
    ⟨g', stats', h', -, -, htree, hcounted⟩ | ⟨herror, -⟩
  · obtain ⟨rfl, rfl⟩ := Prod.mk.inj (Except.ok.inj (h.symm.trans h'))
    have hinlined := hcounted.inlined
    rw [hlength] at hinlined
    exact ⟨m, g, stats, built_conditional, hm, h, hlength, hsubtree, hcalls, htree,
      Nat.succ.inj hinlined, htypeCases, hrealSends, hcounted⟩
  · cases h.symm.trans herror

end Compiler

end Warmup
