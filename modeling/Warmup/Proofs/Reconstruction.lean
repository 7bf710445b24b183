import Warmup.Proofs.Expansion
import Warmup.Proofs.TreeGrowth
import Warmup.Proofs.UpToDate

/-!
# Reconstruction of scopes

Of the scopes of a graph, code keeps descriptors with offsets. A feedback tree is
built from these with nothing but a stack: a scope is put below the one on the
stack that has the offset of its sender, and all above that are taken off.

This puts every scope in its place, because a graph grows in preorder: a scope
follows the one before it, or one of those that this is inlined into
(`Preordered`, `graph_preordered`). What caches and traps add comes later and
changes nothing of it (`FeedbackTree.Gains`).
-/

namespace Warmup

/-- Scopes in preorder: each one but the root hangs at the scope before it, or at
    one that this is inlined into. -/
structure Preordered (l : List CompileScope) : Prop extends Ordered l where
  root : ∀ k, l[0]? = some k → k.sender = none
  nested : ∀ (i : Nat) (k : CompileScope), l[i + 1]? = some k →
    ∃ o bci x, k.sender = some (o, bci) ∧ l[o]? = some x ∧ x ∈ lineage l i

/-- A lineage ends with that of each of its scopes. -/
theorem Ordered.dropWhile_lineage {l : List CompileScope} (h : Ordered l) {o j : Offset}
    {x : CompileScope} (hx : l[o]? = some x) (hmem : x ∈ lineage l j) :
    (lineage l j).dropWhile (·.id ≠ o) = lineage l o := by
  induction j using Nat.strongRecOn with
  | ind j ih =>
    rcases hk : l[j]? with _ | k
    · simp [lineage, lineageUpTo, hk] at hmem
    · have hid : k.id = j := h.id_eq j k hk
      -- The offset that is searched for is the scope itself, or lies with its senders.
      by_cases hj : j = o
      · subst hj
        rw [h.lineage_eq hk, List.dropWhile_cons_of_neg (by simp [hid])]
      · rw [h.lineage_eq hk] at hmem ⊢
        rw [List.dropWhile_cons_of_pos (by simp [hid, hj])]
        rcases List.mem_cons.1 hmem with rfl | hmem
        · exact absurd (hid.symm.trans (h.id_eq o x hx)) hj
        · rcases hs : k.sender with _ | ⟨p, bci⟩
          · simp [hs] at hmem
          · rw [hs] at hmem
            exact ih p (h.sender_lt j k p bci hk hs) hmem

/-! ## Graphs are in preorder -/

namespace Compiler

variable {c : Compiler} {t : FeedbackTree} {n : Nat} {a b : Caller} {site : SendSite} {d : ClassId}
  {w : Work} {next : Offset} {f : Fragment} {g : SendGraph}

/-- A callee and whatever grows below it is inlined into the caller. -/
theorem Enters.mem_lineage (hg : Ordered g.scopes) (h : c.Enters t a site d b)
    (hf : (f.headed b.scope).LiesIn g b.scope.id) (ha : g.scopes[a.scope.id]? = some a.scope)
    (hbelow : ∀ i < f.scopes.length, b.scope ∈ lineage g.scopes (b.scope.id + 1 + i)) {i : Nat}
    (hi : i < (f.headed b.scope).scopes.length) : a.scope ∈ lineage g.scopes (b.scope.id + i) := by
  have hb : b.scope ∈ lineage g.scopes (b.scope.id + i) := by
    rcases i with _ | i
    · exact hg.mem_lineage_self hf.head
    · have hmem := hbelow i (Nat.lt_of_succ_lt_succ hi)
      rwa [Nat.add_right_comm] at hmem
  exact hg.mem_lineage_of_sender hb h.sender ha

/-- What is inlined into a caller in two parts. -/
theorem mem_lineage_append {s : CompileScope} {f f' : Fragment}
    (hf : ∀ i < f.scopes.length, s ∈ lineage g.scopes (next + i))
    (hf' : ∀ i < f'.scopes.length, s ∈ lineage g.scopes (next + f.scopes.length + i)) {i : Nat}
    (hi : i < (f.append f').scopes.length) : s ∈ lineage g.scopes (next + i) := by
  rw [Fragment.scopes_append, List.length_append] at hi
  rcases Nat.lt_or_ge i f.scopes.length with hlt | hge
  · exact hf i hlt
  · have hmem := hf' (i - f.scopes.length) (by lia)
    rwa [Nat.add_assoc, Nat.add_sub_cancel' hge] at hmem

/-- Whatever grows below a caller is inlined into it. -/
theorem Grows.mem_lineage (hg : Ordered g.scopes) (h : c.Grows t n a w next f)
    (hf : f.LiesIn g next) (ha : g.scopes[a.scope.id]? = some a.scope) {i : Nat}
    (hi : i < f.scopes.length) :
    a.scope ∈ lineage g.scopes (next + i) := by
  induction h generalizing i with
  | tried => exact absurd hi (Nat.not_lt_zero i)
  | refused _ _ _ ih => exact ih hf.right ha hi
  | enter henter _ _ _ ih ih' =>
    have hbelow := fun i => henter.mem_lineage hg hf.left ha
      (fun j => ih hf.left.tail hf.left.head) (i := i)
    exact mem_lineage_append hbelow (fun j => ih' hf.right ha) hi
  | sent => exact absurd hi (Nat.not_lt_zero i)
  | send _ _ _ ih ih' =>
    exact mem_lineage_append (fun j => ih hf.left.of_count ha) (fun j => ih' hf.right.right ha) hi

/-- The last scope of a part is inlined into the caller, if all of the part and the
    scope before it are. -/
theorem mem_lineage_last {s : CompileScope} {last k : Nat} (hmem : s ∈ lineage g.scopes last)
    (hpart : ∀ i < k, s ∈ lineage g.scopes (last + 1 + i)) : s ∈ lineage g.scopes (last + k) := by
  rcases k with _ | k
  · exact hmem
  · have hlast := hpart k (Nat.lt_succ_self k)
    rwa [Nat.add_right_comm] at hlast

/-- A scope hangs at the one before it, or at one that this is inlined into. -/
theorem Grows.nested (hg : Ordered g.scopes) (h : c.Grows t n a w next f) (hf : f.LiesIn g next)
    (ha : g.scopes[a.scope.id]? = some a.scope) {last : Nat} (hlast : next = last + 1)
    (hmem : a.scope ∈ lineage g.scopes last) {i : Nat} {k : CompileScope}
    (hk : f.scopes[i]? = some k) :
    ∃ o bci x, k.sender = some (o, bci) ∧ g.scopes[o]? = some x ∧
      x ∈ lineage g.scopes (last + i) := by
  induction h generalizing i last with
  | tried => simp at hk
  | refused _ _ _ ih => exact ih hf.right ha hlast hmem hk
  -- The scopes of the callee follow its own, and what comes after it follows the last of them.
  | @enter n a site d ds arms b f f' henter _ hgrows _ ih ih' =>
    rcases getElem?_append_cases hk with ⟨-, hk⟩ | ⟨j, rfl, hk'⟩
    · rcases i with _ | i
      · obtain rfl := Option.some.inj hk
        exact ⟨_, _, _, henter.sender, ha, hmem⟩
      · have hnested := ih hf.left.tail hf.left.head rfl (hg.mem_lineage_self hf.left.head) hk
        rwa [hlast, Nat.add_right_comm] at hnested
    · have hpart :
          ∀ i < (f.headed b.scope).scopes.length, a.scope ∈ lineage g.scopes (last + 1 + i) := by
        rw [← hlast]
        exact fun i => henter.mem_lineage hg hf.left ha fun j => hgrows.mem_lineage hg
          hf.left.tail hf.left.head
      have hnested := ih' hf.right ha (by rw [hlast, Nat.add_right_comm])
        (mem_lineage_last hmem hpart) hk'
      rwa [Nat.add_assoc] at hnested
  | sent => simp at hk
  -- What comes after a send follows the last scope that was inlined there.
  | @send n a site sites arms next f f' _ hgrows _ ih ih' =>
    rcases getElem?_append_cases hk with ⟨-, hk⟩ | ⟨j, rfl, hk'⟩
    · exact ih hf.left.of_count ha hlast hmem hk
    · have hpart : ∀ i < f.scopes.length, a.scope ∈ lineage g.scopes (last + 1 + i) := by
        rw [← hlast]
        exact fun i => hgrows.mem_lineage hg hf.left.of_count ha
      have hnested := ih' hf.right.right ha (by rw [hlast, Nat.add_right_comm])
        (mem_lineage_last hmem hpart) hk'
      rwa [Nat.add_assoc] at hnested

/-- The scopes of a graph stand in preorder. -/
theorem graph_preordered {key : LookupKey} {method : MethodId} {level : Nat} {stats : InliningStats}
    (h : c.graph t key method level = .ok (g, stats)) : Preordered g.scopes where
  toOrdered := graph_ordered h
  root k hk := by
    obtain ⟨m, -, hgrown, -⟩ := graph_reached h
    obtain rfl := Option.some.inj (hgrown.scope.symm.trans hk)
    rfl
  nested i k hk := by
    obtain ⟨m, part, -, hexp, hscopes, hsends, -⟩ := graph_ok h
    have hg := graph_ordered h
    have hpart : part.LiesIn g 0 := ⟨hscopes ▸ Within.self part.scopes, fun x hx => hsends ▸ hx⟩
    obtain ⟨rest, rfl, hgrows⟩ := expand_grows _ _ _ hexp
    rw [← hscopes] at hk
    have hnested := hgrows.nested hg hpart.tail hpart.head rfl (hg.mem_lineage_self hpart.head) hk
    rwa [show (rootCaller t key m).scope.id + i = i from Nat.zero_add i] at hnested

end Compiler

/-! ## Placing scopes -/

/-- The scope of a feedback tree that stands for a scope of code. -/
def CompileScope.rebuilt (n : NativeId) (k : CompileScope) : FeedbackScope where
  what := .inlined k.key k.method n k.id k.lite
  sender := k.sender.map fun d => (⟨d.1⟩, d.2)
  level := 0

/-- The scopes of code are filed at their senders. -/
theorem Ordered.filed_rebuilt {l : List CompileScope} (h : Ordered l) (n : NativeId) :
    (FeedbackTree.ofScopes (l.map (·.rebuilt n))).Filed := by
  refine ⟨FeedbackTree.linked_ofScopes _, fun x e o bci he hsender => ?_⟩
  rw [FeedbackTree.get?, FeedbackTree.scopes_ofScopes, List.getElem?_map] at he
  obtain ⟨k, hk, rfl⟩ := Option.map_eq_some_iff.1 he
  obtain ⟨⟨o', bci'⟩, ho', heq⟩ := Option.map_eq_some_iff.1 hsender
  obtain ⟨rfl, rfl⟩ := Prod.mk.inj heq
  exact h.sender_lt x.index k o' bci' hk ho'

namespace Evidence

open FeedbackTree

/-- The scope of an offset has the handle of the same number. -/
def handle (k : CompileScope) : Offset × ScopeId := (k.id, ⟨k.id⟩)

/-- The last of the first `i` scopes, and those it is inlined into. -/
def openedUpTo (l : List CompileScope) : Nat → List (Offset × ScopeId)
  | 0 => []
  | i + 1 => (lineage l i).map handle

/-- Where the first `i` scopes are. -/
def placedUpTo (n : NativeId) (l : List CompileScope) (i : Nat) : Placed where
  tree := ofScopes ((l.take i).map (·.rebuilt n))
  ids := ((l.take i).map handle).reverse
  opened := openedUpTo l i

variable {l : List CompileScope} {n : NativeMethod}

/-- Adding the scope after the first `i` gives the state for the first `i + 1`. -/
theorem placedUpTo_add (h : Ordered l) {i : Nat} {k : CompileScope} (hk : l[i]? = some k)
    {opened : List (Offset × ScopeId)} {sender : Option (ScopeId × Bci)}
    (hsender : sender = k.sender.map fun d => (⟨d.1⟩, d.2))
    (hopened : opened = ((k.sender.map fun d => lineage l d.1).getD []).map handle) :
    (placedUpTo n.id l i).add n 0 k.desc opened sender = placedUpTo n.id l (i + 1) := by
  have hi : i < l.length := (List.getElem?_eq_some_iff.1 hk).1
  have hlength : (l.take i).length = i := List.length_take_of_le (Nat.le_of_lt hi)
  have hid : k.id = i := h.id_eq i k hk
  rw [Placed.add, placedUpTo, placedUpTo, openedUpTo, List.take_add_one, hk, h.lineage_eq hk]
  simp only [ofScopes_add, List.length_map, hlength, hopened, hsender]
  simp [CompileScope.rebuilt, CompileScope.desc, handle, hid]

/-- A scope in its turn is put at its sender. -/
theorem placedUpTo_step (h : Preordered l) {i : Nat} {k : CompileScope} (hk : l[i]? = some k) :
    (placedUpTo n.id l i).step n 0 none k.desc = placedUpTo n.id l (i + 1) := by
  rw [Placed.step]
  rcases i with _ | i
  · have hroot : k.sender = none := h.root k hk
    simp only [CompileScope.desc, hroot]
    exact placedUpTo_add h.toOrdered hk (by rw [hroot]; rfl) (by rw [hroot]; rfl)
  · -- The sender is on the stack, so taking off what is above it leaves its lineage.
    obtain ⟨o, bci, x, hsender, hx, hmem⟩ := h.nested i k hk
    have hdrop : (placedUpTo n.id l (i + 1)).opened.dropWhile (fun y => y.1 ≠ o) =
        (lineage l o).map handle := by
      rw [placedUpTo, openedUpTo, List.dropWhile_map, ← h.dropWhile_lineage hx hmem]
      rfl
    rw [h.lineage_eq hx, List.map_cons] at hdrop
    have hid : x.id = o := h.id_eq o x hx
    simp only [CompileScope.desc, hsender, hdrop]
    refine placedUpTo_add h.toOrdered hk ?_ ?_
    · rw [hsender, handle, hid]
      rfl
    · rw [hsender, Option.map_some, Option.getD_some, h.lineage_eq hx, List.map_cons]

/-- All scopes of code that was compiled get their place. -/
theorem placeScopes_eq (h : Preordered l) (hn : n.scopes = l.map (·.desc)) :
    placeScopes n 0 none .empty = placedUpTo n.id l l.length := by
  -- Offsets are positions, so the descriptors are sorted already.
  have hsorted : n.scopes.mergeSort (fun a b => decide (a.offset ≤ b.offset)) = l.map (·.desc) := by
    rw [hn]
    refine List.mergeSort_of_pairwise
      (List.pairwise_map.2 (List.pairwise_iff_getElem.2 fun i j hi hj hlt => ?_))
    have hi' : l[i].id = i := h.id_eq i _ (List.getElem?_eq_getElem hi)
    have hj' : l[j].id = j := h.id_eq j _ (List.getElem?_eq_getElem hj)
    have hle : l[i].id ≤ l[j].id := by lia
    exact decide_eq_true hle
  have hprefix :
      ∀ i ≤ l.length, ((l.take i).map (·.desc)).foldl (Placed.step n 0 none) { tree := .empty } =
      placedUpTo n.id l i := by
    intro i hi
    induction i with
    | zero => rfl
    | succ i ih =>
      have hk : l[i]? = some l[i] := List.getElem?_eq_getElem hi
      rw [List.take_add_one, hk, Option.toList_some, List.map_append, List.foldl_append,
        ih (Nat.le_of_succ_le hi)]
      exact placedUpTo_step h hk
  rw [placeScopes, hsorted]
  simpa only [List.take_length] using hprefix l.length (Nat.le_refl _)

/-- The scope of an offset has the offset as its number. -/
theorem eq_of_lookup_placed {o : Offset} {x : ScopeId}
    (hx : (placedUpTo n.id l l.length).ids.lookup o = some x) : x = ⟨o⟩ := by
  obtain ⟨l₁, l₂, hids, -⟩ := List.lookup_eq_some_iff.1 hx
  have hmem : (o, x) ∈ ((l.take l.length).map handle).reverse := by
    rw [show ((l.take l.length).map handle).reverse = _ from hids]
    simp
  obtain ⟨k, -, hk⟩ := List.mem_map.1 (List.mem_reverse.1 hmem)
  obtain ⟨rfl, rfl⟩ := Prod.mk.inj hk
  rfl

theorem tree_placedUpTo (n : NativeId) (l : List CompileScope) :
    (placedUpTo n l l.length).tree = ofScopes (l.map (·.rebuilt n)) := by
  rw [placedUpTo, List.take_length]

/-- The tree of code that was compiled is not empty. -/
theorem treeOfNative_eq_walkNative (h : Preordered l) (hne : l ≠ [])
    (hn : n.scopes = l.map (·.desc)) {e : Evidence} (he : e.settings.enabled) (trusted : Bool) :
    e.treeOfNative n trusted =
      walkNative (e.attachCache n.key trusted e.settings.maxDepth.toNat) n 0 none .empty := by
  have hwalk : Gains _ (placeScopes n 0 none .empty).tree
      (walkNative (e.attachCache n.key trusted e.settings.maxDepth.toNat) n 0 none .empty) :=
    gains_records (e.gains_attachCache n.key trusted e.settings.maxDepth.toNat) n 0
      (placeScopes n 0 none .empty).tree
  -- The walk leaves the scopes that were placed, so the tree is not empty.
  have hlength : 0 < (placeScopes n 0 none .empty).tree.scopes.length := by
    rw [placeScopes_eq h hn, tree_placedUpTo, scopes_ofScopes, List.length_map]
    exact List.length_pos_iff.2 hne
  have hnonempty : (walkNative (e.attachCache n.key trusted e.settings.maxDepth.toNat) n 0 none
      .empty).scopes.isEmpty = false :=
    List.isEmpty_eq_false_iff.2
      (List.ne_nil_of_length_pos (Nat.lt_of_lt_of_le hlength hwalk.length_le))
  rw [treeOfNative, if_pos he]
  simp only [hnonempty, Bool.false_eq_true, if_false]

/-- The tree of code that was compiled consists of its scopes, and of what its traps
    and caches have added to them, each at its own send. -/
theorem gains_spoken (h : Preordered l) (hne : l ≠ []) (hn : n.scopes = l.map (·.desc))
    {e : Evidence} (he : e.settings.enabled) (trusted : Bool) :
    Gains (fun o bci w => (∃ s ∈ n.traps, ⟨s.scope⟩ = o ∧ s.bci = bci ∧ w.isUninlinable = false) ∨
        ∃ s ∈ n.sites, ⟨s.scope⟩ = o ∧ s.bci = bci ∧ e.Speaks trusted s.cache ∧
          (w.isUninlinable → s.cache.isMegamorphic ∨ s.cache.flags.uninlinable))
      (ofScopes (l.map (·.rebuilt n.id))) (e.treeOfNative n trusted) := by
  have hplaced : placeScopes n 0 none .empty = placedUpTo n.id l l.length := placeScopes_eq h hn
  have hwalk : Gains _ (placeScopes n 0 none .empty).tree
      (walkNative (e.attachCache n.key trusted e.settings.maxDepth.toNat) n 0 none .empty) :=
    gains_records (e.gains_attachCache n.key trusted e.settings.maxDepth.toNat) n 0
      (placeScopes n 0 none .empty).tree
  rw [treeOfNative_eq_walkNative h hne hn he, ← tree_placedUpTo, ← hplaced]
  -- The walk speaks of handles, which are the offsets.
  refine hwalk.mono ?_
  rintro o bci w - ⟨x, hx, hw⟩
  rw [hplaced] at hx
  obtain rfl := eq_of_lookup_placed hx
  rcases hw with ⟨s, hs, rfl, hbci, hw⟩ | ⟨s, hs, rfl, hbci, hspeaks, hw⟩
  · exact .inl ⟨s, hs, rfl, hbci, hw⟩
  · exact .inr ⟨s, hs, rfl, hbci, hspeaks, hw⟩

/-- The tree of code keeps its scopes; it says that a send cannot be inlined only where a cache
    does. -/
theorem gains_treeOfNative (h : Preordered l) (hne : l ≠ []) (hn : n.scopes = l.map (·.desc))
    {e : Evidence} (he : e.settings.enabled) (trusted : Bool) :
    Gains (fun o bci w => w.isUninlinable → ∃ s ∈ n.sites, ⟨s.scope⟩ = o ∧ s.bci = bci ∧
        (s.cache.isMegamorphic ∨ s.cache.flags.uninlinable)) (ofScopes (l.map (·.rebuilt n.id)))
          (e.treeOfNative n trusted) := by
  refine (gains_spoken h hne hn he trusted).mono ?_
  rintro o bci w - (⟨s, -, -, -, hw⟩ | ⟨s, hs, ho, hbci, -, hw⟩) hun
  · simp [hw] at hun
  · exact ⟨s, hs, ho, hbci, hw hun⟩

end Evidence

namespace Compiler

variable {c : Compiler} {t : FeedbackTree} {key : LookupKey} {method : MethodId} {level : Nat}
  {comp : Compilation}

theorem graph_scopes_ne_nil {g : SendGraph} {stats : InliningStats}
    (h : c.graph t key method level = .ok (g, stats)) : g.scopes ≠ [] := by
  obtain ⟨m, -, hgrown, -⟩ := graph_reached h
  exact List.ne_nil_of_mem (List.mem_of_getElem? hgrown.scope)

/-- The scopes of the top level of a tree that is built from code, whatever its
    caches and traps have come to be, are those that were compiled: one for each
    descriptor and with its handle, put below the sender of the descriptor. Only
    the first one has none, and is the root. -/
theorem treeOfNative_compile (h : c.compile t key method level = .ok comp) {n : NativeMethod}
    (hn : n.scopes = comp.native.scopes) {e : Evidence} (he : e.settings.enabled) (trusted : Bool) :
    n.scopes ≠ [] ∧
      (∀ (i : Nat) (d : ScopeDesc), n.scopes[i]? = some d → d.offset = i ∧
        (d.sender = none ↔ i = 0) ∧
        ∃ s, (e.treeOfNative n trusted).get? ⟨i⟩ = some s ∧ s.level = 0 ∧
          s.what = .inlined d.key d.method n.id d.offset d.lite ∧
          s.sender = d.sender.map fun p => (⟨p.1⟩, p.2)) ∧
      ∀ (x : ScopeId) (s : FeedbackScope),
        (e.treeOfNative n trusted).get? x = some s → s.level = 0 → x.index < n.scopes.length := by
  obtain ⟨hgraph, hemit⟩ := compile_ok h
  have hpre : Preordered comp.graph.scopes := graph_preordered hgraph
  have hne : comp.graph.scopes ≠ [] := graph_scopes_ne_nil hgraph
  rw [(SendGraph.emit_ok hemit).2.2.1] at hn
  have hgains := Evidence.gains_treeOfNative hpre hne hn he trusted
  refine ⟨by simpa [hn] using hne, fun i d hd => ?_, fun x s hs hlevel => ?_⟩
  · rw [hn, List.getElem?_map] at hd
    obtain ⟨k, hk, rfl⟩ := Option.map_eq_some_iff.1 hd
    refine ⟨hpre.id_eq i k hk, ⟨fun hnone => ?_, fun hi => hpre.root k (hi ▸ hk)⟩, ?_⟩
    · rcases i with _ | i
      · rfl
      · obtain ⟨o, bci, x, hsender, -⟩ := hpre.nested i k hk
        cases hnone.symm.trans hsender
    · obtain ⟨s, hs, hwhat, hsender, hlevel⟩ := hgains.keeps i (k.rebuilt n.id) (by simp [hk])
      exact ⟨s, hs, hlevel, hwhat, hsender⟩
  · rcases Nat.lt_or_ge x.index n.scopes.length with hlt | hge
    · exact hlt
    · -- What hangs below the scopes of the code itself has a level.
      have hpos := (hgains.gained x.index s hs (by simpa [hn] using hge)).1
      exact absurd hlevel (Nat.ne_of_gt hpos)

/-- A method that sends `ifTrue:` with a block to something unknown. `True` calls the
    block, `False` does not. -/
def conditional : Compiler where
  settings := {}
  classes := { ClassTable.initial with
    classes := ((ClassTable.initial.classes.set 0 ⟨"Object", none, [(⟨0⟩, ⟨0⟩)]⟩).set 5
      ⟨"True", some ⟨1⟩, [(⟨1⟩, ⟨1⟩)]⟩).set 6 ⟨"False", some ⟨1⟩, [(⟨1⟩, ⟨2⟩)]⟩
    methods := [
      Draft.finish { selector := ⟨0⟩, steps := [.send ⟨1⟩ .unknown [.block ⟨3⟩],
        .send ⟨0⟩ .unknown []] } ⟨0⟩ ⟨0⟩ none,
      Draft.finish { selector := ⟨1⟩, argCount := 1, steps := [.send ⟨2⟩ (.arg 0) []] } ⟨1⟩
      ⟨5⟩ none, Draft.finish { selector := ⟨1⟩, argCount := 1 } ⟨2⟩ ⟨6⟩ none,
      Draft.finish { selector := ⟨2⟩, steps := [.work 3] } ⟨3⟩ ⟨0⟩ (some ⟨0⟩)]
    selectors := ["run", "ifTrue:", "value"] }
  code := {}
  traps := {}

/-- The method, that of `True` with the block inlined into it, and that of `False`. -/
def conditionalScopes : List ScopeDesc := [
  ⟨0, none, .send ⟨0⟩ ⟨0⟩, ⟨0⟩, false⟩, ⟨1, some (0, 0), .send ⟨5⟩ ⟨1⟩, ⟨1⟩, false⟩,
  ⟨2, some (1, 0), .given .blockClosure ⟨3⟩, ⟨3⟩, false⟩,
    ⟨3, some (0, 0), .send ⟨6⟩ ⟨1⟩, ⟨2⟩, false⟩]

/-- The code of the method, when its second send has run for an array. -/
def conditionalCode : NativeMethod where
  id := ⟨5⟩
  key := .send ⟨0⟩ ⟨0⟩
  method := ⟨0⟩
  level := 1
  scopes := conditionalScopes
  sites := [⟨0, 1, { selector := ⟨0⟩, flags := { dirty := true },
                     dest := .pic (.entries [⟨.array, .interpreted ⟨0⟩⟩]) }⟩]

/-- What is known about the sends of the method is in its code only. -/
def codeOnly : Evidence := ⟨conditional.classes, {}, {}, none, {}⟩

/-- The last scope is put below the first one, past the two that stand between them.
    Whatever the used cache adds is on a lower level. -/
theorem treeOfNative_conditional :
    ∃ comp s, conditional.compile .null (.send ⟨0⟩ ⟨0⟩) ⟨0⟩ 1 = .ok comp ∧
    conditionalCode.scopes = comp.native.scopes ∧ codeOnly.settings.enabled ∧
    (codeOnly.treeOfNative conditionalCode true).get? ⟨3⟩ = some s ∧
    s.what = .inlined (.send ⟨6⟩ ⟨1⟩) ⟨2⟩ ⟨5⟩ 3 false ∧ s.sender = some (⟨0⟩, 0) ∧
    ∀ x s', (codeOnly.treeOfNative conditionalCode true).get? x = some s' →
      s'.level = 0 → x.index < 4 := by
  obtain ⟨comp, h, hscopes⟩ : ∃ comp, conditional.compile .null (.send ⟨0⟩ ⟨0⟩) ⟨0⟩ 1 = .ok comp ∧
      conditionalCode.scopes = comp.native.scopes := ⟨_, rfl, rfl⟩
  obtain ⟨-, hplace, hlevel⟩ := treeOfNative_compile h hscopes (e := codeOnly) rfl true
  obtain ⟨-, -, s, hs, -, hwhat, hsender⟩ := hplace 3 _ rfl
  exact ⟨comp, s, h, hscopes, rfl, hs, hwhat, hsender, hlevel⟩

end Compiler

end Warmup
