import Warmup.Proofs.DatabaseEntries
import Warmup.Proofs.KeyNames
import Warmup.Proofs.NativeFindings
import Warmup.Proofs.RecordedFindings

/-!
# What a capture records

The record of native code describes each of its scopes (`Database.Describes`): along
the path of the scope it leads to a node that says what the code shows about the
sends of the scope.

Every scope first gets a node of its own, with what traps and caches show
(`finds_ownNodes`). The nodes are then put into those of their senders, deepest
scopes first, so that a node is complete when its turn comes
(`HoldsFrom.describes`); that each one is the only callee with its key at its
send is what keeps them apart. Sorting changes neither findings nor callees
(`Describes.normalize`).
-/

namespace Warmup

namespace NativeMethod

/-- The scope that is reached from another one, callee by callee. -/
inductive Reaches (n : NativeMethod) : Offset → List (Bci × LookupKey) → Offset → Prop
  | here (o : Offset) : Reaches n o [] o
  | inlined {o o' : Offset} {d : ScopeDesc} {bci : Bci} {p : List (Bci × LookupKey)} :
    d ∈ n.scopes → d.sender = some (o, bci) → Reaches n d.offset p o' →
      Reaches n o ((bci, d.key) :: p) o'

/-- Scopes are numbered, the first one is the root, and senders come first. -/
structure Numbered (n : NativeMethod) : Prop where
  offset_eq : ∀ (i : Nat) (d : ScopeDesc), n.scopes[i]? = some d → d.offset = i
  root : ∀ d, n.scopes[0]? = some d → d.sender = none
  inlined : ∀ (i : Nat) (d : ScopeDesc), n.scopes[i + 1]? = some d → ∃ o bci,
    d.sender = some (o, bci) ∧ o ≤ i

/-- Code that a record can describe: its scopes are numbered, and keys have names that
    stand for them. No two callees at a send have the same key, be they inlined or in a
    cache. -/
structure Recordable (c : ClassTable) (n : NativeMethod) : Prop extends n.Numbered where
  keys : ∀ d ∈ n.scopes, d.key.Nameable c d.method
  entries :
    ∀ s ∈ n.sites, ∀ x ∈ s.cache.entries, ∃ m, (LookupKey.send x.cls s.cache.selector).Nameable c m
  nodup : (n.scopes.map fun d => (d.sender, d.key)).Nodup
  apart : ∀ s ∈ n.sites, ∀ x ∈ s.cache.entries, ∀ d ∈ n.scopes, d.sender = some (s.scope, s.bci) →
    d.key.cls ≠ x.cls

namespace Numbered

variable {n : NativeMethod} {d : ScopeDesc} {o : Offset} {b : Bci}

/-- In code that is numbered a scope stands at its offset. -/
theorem getElem?_offset (h : n.Numbered) (hd : d ∈ n.scopes) : n.scopes[d.offset]? = some d := by
  obtain ⟨i, hi⟩ := List.mem_iff_getElem?.1 hd
  rw [h.offset_eq i d hi, hi]

/-- All scopes but the first one have a sender, which comes before them. -/
theorem exists_sender (h : n.Numbered) {i : Nat} (hi : 1 ≤ i) (hd : n.scopes[i]? = some d) :
    ∃ o b, d.sender = some (o, b) ∧ o < i := by
  obtain ⟨j, rfl⟩ := Nat.exists_eq_add_of_le' hi
  obtain ⟨o, b, hs, hle⟩ := h.inlined j d hd
  exact ⟨o, b, hs, Nat.lt_succ_of_le hle⟩

/-- A scope comes after the one that it is inlined into. -/
theorem lt_offset (h : n.Numbered) (hd : d ∈ n.scopes) (hs : d.sender = some (o, b)) :
    o < d.offset := by
  have hd := h.getElem?_offset hd
  rcases Nat.eq_zero_or_pos d.offset with hzero | hpos
  · rw [hzero] at hd
    rw [h.root d hd] at hs
    cases hs
  · obtain ⟨o', b', hs', hlt⟩ := h.exists_sender hpos hd
    obtain ⟨rfl, -⟩ := Prod.mk.inj (Option.some.inj (hs.symm.trans hs'))
    exact hlt

end Numbered

namespace Recordable

variable {c : ClassTable} {n : NativeMethod} {d d' : ScopeDesc} {o : Offset} {b : Bci}

/-- A scope is told by its sender and its key. -/
theorem eq_of_place (h : n.Recordable c) (hd : d ∈ n.scopes) (hd' : d' ∈ n.scopes)
    (hs : d.sender = d'.sender) (hk : d.key = d'.key) : d = d' :=
  List.inj_on_of_nodup_map h.nodup hd hd' (Prod.ext hs hk)

/-- No cache has a callee with the key of a scope that was inlined at its send. -/
theorem not_observes (h : n.Recordable c) (hd : d ∈ n.scopes) (hs : d.sender = some (o, b)) :
    ¬n.Observes o b (.seen d.key) := by
  rintro (⟨s, -, -, -, hshows⟩ | ⟨s, hsite, rfl, rfl, -, x, hx, hkey⟩)
  · rw [TrapSite.Shows] at hshows
    split at hshows <;> cases hshows
  · exact h.apart s hsite x hx d hd hs (by rw [hkey]; rfl)

end Recordable

end NativeMethod

namespace Database

open FeedbackTree

variable {c : ClassTable} {n : NativeMethod} {o o' : Offset} {b : Bci} {f : Finding}

/-! ## Nodes by their offsets -/

/-- An update changes the node of one scope. -/
theorem Nodes.lookup_update (ns : Nodes) (o : Offset) (g : Node → Node) (o' : Offset) :
    (ns.update o g).lookup o' = if o' = o then (ns.lookup o').map g else ns.lookup o' := by
  induction ns with
  | nil => simp [Nodes.update]
  | cons x ns ih =>
    have hcons : Nodes.update (x :: ns) o g = (if x.1 = o then (o, g x.2) else x) ::
        Nodes.update ns o g := rfl
    rw [hcons, List.lookup_cons, List.lookup_cons, ih]
    by_cases hx : x.1 = o
    · rw [if_pos hx, ← hx]
      by_cases ho : o' = x.1
      · simp [ho]
      · simp only [beq_false_of_ne ho, if_neg ho]
    · rw [if_neg hx]
      by_cases ho : o' = x.1
      · simp [ho, hx]
      · simp only [beq_false_of_ne ho]

theorem Nodes.lookup_fresh {l : List Offset} (node : Node) (ho : o ∈ l) :
    (l.map fun o => (o, node)).lookup o = some node := by
  induction l with
  | nil => cases ho
  | cons p l ih =>
    rw [List.map_cons, List.lookup_cons]
    by_cases hp : o = p
    · simp [hp]
    · rw [beq_false_of_ne hp]
      exact ih (List.mem_of_ne_of_mem hp ho)

/-- Nodes that are changed one by one find what each change adds. -/
theorem Nodes.exists_foldl_update {α : Type} (scope : α → Offset) (g : α → Node → Node)
    (new : α → Bci → Finding → Prop) {l : List α}
    (hg : ∀ a ∈ l, ∀ node b f, (g a node).Finds c b f ↔ node.Finds c b f ∨ new a b f) {ns : Nodes}
    {node : Node} (h : ns.lookup o = some node) :
    ∃ node', (l.foldl (fun ns a => Nodes.update ns (scope a) (g a)) ns).lookup o = some node' ∧
      ∀ b f, node'.Finds c b f ↔ node.Finds c b f ∨ ∃ a ∈ l, scope a = o ∧ new a b f := by
  induction l generalizing ns node with
  | nil => exact ⟨node, h, by simp⟩
  | cons a l ih =>
    -- One element after the other adds its findings at its own scope.
    have hstep : ∃ node', (ns.update (scope a) (g a)).lookup o = some node' ∧
        ∀ b f, node'.Finds c b f ↔ node.Finds c b f ∨ scope a = o ∧ new a b f := by
      rw [Nodes.lookup_update, h]
      by_cases ho : o = scope a
      · exact ⟨g a node, if_pos ho, fun b f => by simp [hg a List.mem_cons_self, ho]⟩
      · exact ⟨node, if_neg ho, fun b f => by simp [Ne.symm ho]⟩
    obtain ⟨node₁, hnode₁, hfinds₁⟩ := hstep
    obtain ⟨node₂, hnode₂, hfinds₂⟩ := ih (fun a' ha' => hg a' (List.mem_cons_of_mem a ha')) hnode₁
    refine ⟨node₂, hnode₂, fun b f => ?_⟩
    rw [hfinds₂, hfinds₁, or_assoc]
    simp [or_and_right, exists_or]

/-! ## The nodes of single scopes -/

/-- The entries of a cache give callees with their keys. -/
theorem finds_cacheChildren {cache : InlineCache}
    (h : ∀ x ∈ cache.entries, ∃ m, (LookupKey.send x.cls cache.selector).Nameable c m) (node : Node)
    (b' : Bci) :
    (node.addChildren (cacheChildren c b' cache)).Finds c b f ↔
      node.Finds c b f ∨ b = b' ∧ ∃ x ∈ cache.entries, f = .seen (.send x.cls cache.selector) := by
  rw [Node.finds_addChildren]
  refine or_congr_right ⟨?_, ?_⟩
  · rintro ⟨y, hy, rfl, k, m, hres, rfl⟩
    obtain ⟨x, hx, hname⟩ := List.mem_filterMap.1 hy
    obtain ⟨name, hnamed, rfl⟩ := Option.map_eq_some_iff.1 hname
    obtain ⟨m', name', hnamed', hres'⟩ := h x hx
    obtain rfl := Option.some.inj (hnamed.symm.trans hnamed')
    obtain ⟨rfl, -⟩ := Prod.mk.inj (Option.some.inj (hres.symm.trans hres'))
    exact ⟨rfl, x, hx, rfl⟩
  · rintro ⟨rfl, x, hx, rfl⟩
    obtain ⟨m, name, hnamed, hres⟩ := h x hx
    refine ⟨(b, name, .empty), List.mem_filterMap.2 ⟨x, hx, ?_⟩, rfl, _, m, hres, rfl⟩
    rw [hnamed]
    rfl

/-- The cache of a send adds to the node of its scope what it shows. -/
theorem finds_addSite {s : CallSite}
    (h : ∀ x ∈ s.cache.entries, ∃ m, (LookupKey.send x.cls s.cache.selector).Nameable c m)
    (node : Node) :
    (addSite c s node).Finds c b f ↔ node.Finds c b f ∨ b = s.bci ∧ s.cache.Shows f := by
  rw [addSite]
  -- The cases are those of `addSite`, in its order.
  by_cases hnever : s.cache.neverExecuted
  · rw [if_pos hnever, Node.finds_addUntaken, InlineCache.shows_of_neverExecuted hnever]
  · rw [if_neg hnever]
    by_cases hflag : s.cache.isMegamorphic ∨ s.cache.flags.uninlinable
    · rw [if_pos (Bool.or_eq_true_iff.2 hflag), Node.finds_addUninlinable,
        InlineCache.shows_of_flagged hnever hflag]
    · rw [if_neg (mt Bool.or_eq_true_iff.1 hflag)]
      by_cases hempty : s.cache.isEmpty
      · rw [if_pos hempty]
        simp [InlineCache.shows_of_isEmpty hnever hflag hempty]
      · have hcounts : s.cache.Counts :=
          ⟨hnever, fun h => hflag (.inl h), fun h => hflag (.inr h), hempty⟩
        rw [if_neg hempty, finds_cacheChildren h, Node.finds_addComplete,
          InlineCache.shows_of_counts hcounts, or_assoc, ← and_or_left]

/-- The node of a scope by itself says what traps and caches show. -/
theorem finds_ownNodes (h : n.Recordable c) (ho : o < n.scopes.length) :
    ∃ node, (ownNodes c n).lookup o = some node ∧
      ∀ b f, f ≠ .uncommon → (node.Finds c b f ↔ n.Observes o b f) := by
  have hmem : o ∈ (n.scopes.map (·.offset)).eraseDups := by
    refine List.mem_eraseDups.2 (List.mem_map.2 ⟨n.scopes[o], List.getElem_mem ho, ?_⟩)
    exact h.offset_eq o _ (List.getElem?_eq_getElem ho)
  obtain ⟨node, hnode, hfinds⟩ := Nodes.exists_foldl_update TrapSite.scope
    (fun s => Node.addUntaken s.bci)
    (fun s b f => b = s.bci ∧ f = .untaken) (c := c) (l := n.traps.filter fun s => !s.used)
    (fun s _ node b f => node.finds_addUntaken) (Nodes.lookup_fresh .empty hmem)
  obtain ⟨node', hnode', hfinds'⟩ := Nodes.exists_foldl_update CallSite.scope (addSite c)
    (fun s b f => b = s.bci ∧ s.cache.Shows f)
    (fun s hs node b f => finds_addSite (h.entries s hs) node) hnode
  refine ⟨node', hnode', fun b f hf => ?_⟩
  have hempty : ¬Node.empty.Finds c b f := by
    rcases f <;> simp [Node.Finds, Node.empty, Node.children, Node.untaken,
      Node.uninlinable, Node.complete]
  -- A trap that was used shows that its branch is uncommon, which is left out here.
  have htraps : (∃ s ∈ n.traps.filter (fun s => !s.used), s.scope = o ∧ b = s.bci ∧ f = .untaken) ↔
      ∃ s ∈ n.traps, s.scope = o ∧ s.bci = b ∧ s.Shows f := by
    refine exists_congr fun s => ?_
    rcases hused : s.used
    · simp [TrapSite.Shows, hused, @eq_comm _ b]
    · simp [TrapSite.Shows, hused, hf]
  rw [hfinds', hfinds, htraps, NativeMethod.Observes]
  simp [hempty, @eq_comm _ b]

/-! ## Nodes put into one another -/

/-- A node describes a scope with all that is inlined into it. -/
def Describes (c : ClassTable) (n : NativeMethod) (node : Node) (m : MethodId) (o : Offset) :
    Prop :=
  ∀ p o', n.Reaches o p o' → ∃ node' d, n.scopes[o']? = some d ∧ node.Leads c m p node' d.method ∧
    ∀ b f, f ≠ .uncommon → (node'.Finds c b f ↔ n.Finds o' b f)

/-- A node has the callees of a scope from some offset on. -/
structure HoldsFrom (c : ClassTable) (n : NativeMethod) (i : Nat) (o : Offset) (node : Node) :
    Prop where
  finds : ∀ b f, f ≠ .uncommon → (node.Finds c b f ↔
    (∃ d ∈ n.scopes, i ≤ d.offset ∧ d.sender = some (o, b) ∧ f = .seen d.key) ∨ n.Observes o b f)
  callees : ∀ d ∈ n.scopes, i ≤ d.offset → ∀ b, d.sender = some (o, b) →
    ∃ node', node.Callee c b d.key d.method node' ∧ Describes c n node' d.method d.offset

namespace HoldsFrom

variable {i : Nat} {d : ScopeDesc} {node node' : Node}

/-- When its turn comes, a node has all that is inlined into its scope. -/
theorem describes (h : n.Recordable c) (hd : n.scopes[o]? = some d)
    (hnode : HoldsFrom c n (o + 1) o node) :
    Describes c n node d.method o := by
  intro p o' hreaches
  cases hreaches with
  | here =>
    refine ⟨node, d, hd, .here node d.method, fun b f hf => ?_⟩
    rw [hnode.finds b f hf, NativeMethod.Finds]
    refine or_congr_left (exists_congr fun d' => and_congr_right fun hd' => ?_)
    exact ⟨fun hplace => hplace.2, fun hplace => ⟨h.lt_offset hd' hplace.1, hplace⟩⟩
  | inlined hd' hs hreaches =>
    obtain ⟨node₁, hcallee, hdescribes⟩ := hnode.callees _ hd' (h.lt_offset hd' hs) _ hs
    obtain ⟨node₂, d₂, hd₂, hleads, hfinds⟩ := hdescribes _ _ hreaches
    exact ⟨node₂, d₂, hd₂, .callee hcallee hleads, hfinds⟩

/-- The scope at a place is the only one with its offset. -/
theorem le_offset_iff (h : n.Recordable c) (hd : n.scopes[i]? = some d) {d' : ScopeDesc}
    (hd' : d' ∈ n.scopes) :
    i ≤ d'.offset ↔ d' = d ∨ i + 1 ≤ d'.offset := by
  have hoffset : d.offset = i := h.offset_eq i d hd
  refine Nat.le_iff_lt_or_eq.trans ⟨?_, ?_⟩
  · rintro (hlt | heq)
    · exact .inr hlt
    · exact .inl (Option.some.inj ((heq ▸ h.getElem?_offset hd').symm.trans hd))
  · rintro (rfl | hlt)
    · exact .inr hoffset.symm
    · exact .inl hlt

/-- The node of another scope than the sender stays as it is. -/
theorem skip (h : n.Recordable c) (hd : n.scopes[i]? = some d) (hs : ∀ b, d.sender ≠ some (o, b))
    (hnode : HoldsFrom c n (i + 1) o node) : HoldsFrom c n i o node where
  finds b f hf := by
    rw [hnode.finds b f hf]
    refine or_congr_left (exists_congr fun d' => and_congr_right fun hd' => ?_)
    rw [le_offset_iff h hd hd']
    refine ⟨fun hplace => ⟨.inr hplace.1, hplace.2⟩, ?_⟩
    -- The scope whose turn it is hangs elsewhere.
    rintro ⟨rfl | hle, hplace⟩
    · exact absurd hplace.1 (hs b)
    · exact ⟨hle, hplace⟩
  callees d' hd' hle b hs' := by
    rcases (le_offset_iff h hd hd').1 hle with rfl | hle
    · exact absurd hs' (hs b)
    · exact hnode.callees d' hd' hle b hs'

/-- The node of the sender gets the callee. -/
theorem put (h : n.Recordable c) (hd : n.scopes[i]? = some d) (hs : d.sender = some (o, b))
    {name : NamedKey} (hname : resolveNames c name = some (d.key, d.method))
    (hnode : HoldsFrom c n (i + 1) o node) (hcallee : Describes c n node' d.method i) :
    HoldsFrom c n i o (node.addChildren [(b, name, node')]) where
  finds b' f hf := by
    rw [Node.finds_addChildren, hnode.finds b' f hf, or_right_comm]
    refine or_congr_left ⟨?_, ?_⟩
    · rintro (⟨d', hd', hle, hplace⟩ | ⟨x, hx, rfl, k, m, hres, rfl⟩)
      · exact ⟨d', hd', Nat.le_of_succ_le hle, hplace⟩
      · obtain rfl := List.mem_singleton.1 hx
        obtain ⟨rfl, -⟩ := Prod.mk.inj (Option.some.inj (hres.symm.trans hname))
        exact ⟨d, List.mem_of_getElem? hd, (h.offset_eq i d hd).ge, hs, rfl⟩
    · rintro ⟨d', hd', hle, hs', rfl⟩
      rcases (le_offset_iff h hd hd').1 hle with rfl | hle
      · obtain ⟨-, rfl⟩ := Prod.mk.inj (Option.some.inj (hs.symm.trans hs'))
        exact .inr ⟨_, List.mem_singleton.2 rfl, rfl, _, _, hname, rfl⟩
      · exact .inl ⟨d', hd', hle, hs', rfl⟩
  callees d' hd' hle b' hs' := by
    have hmem : d ∈ n.scopes := List.mem_of_getElem? hd
    have hoffset : d.offset = i := h.offset_eq i d hd
    rcases (le_offset_iff h hd hd').1 hle with rfl | hle
    · obtain ⟨-, rfl⟩ := Prod.mk.inj (Option.some.inj (hs.symm.trans hs'))
      refine ⟨node', Node.callee_addChildren hname fun hfinds => ?_, hoffset.symm ▸ hcallee⟩
      -- No other scope has its place, and no cache its class.
      rcases (hnode.finds b (.seen d'.key) (by simp)).1 hfinds
        with ⟨d₁, hd₁, hle, hs₁, hkey⟩ | hobserves
      · obtain rfl := h.eq_of_place hmem hd₁ (hs.trans hs₁.symm) (Finding.seen.inj hkey)
        lia
      · exact h.not_observes hmem hs hobserves
    · obtain ⟨node₁, hcallee₁, hdescribes⟩ := hnode.callees d' hd' hle b' hs'
      refine ⟨node₁, hcallee₁.addChildren fun x hx hb m hres => ?_, hdescribes⟩
      obtain rfl := List.mem_singleton.1 hx
      obtain ⟨hkey, -⟩ := Prod.mk.inj (Option.some.inj (hname.symm.trans hres))
      obtain rfl : b = b' := hb
      obtain rfl := h.eq_of_place hmem hd' (hs.trans hs'.symm) hkey
      lia

end HoldsFrom

/-- A scope whose turn comes is taken out and put into the node of its sender. -/
theorem Folding.nodes_step {root : Offset} {g : Folding} {d : ScopeDesc} {node : Node}
    {name : NamedKey} (hs : d.sender = some (o, b)) (hnode : g.nodes.lookup d.offset = some node)
    (hname : d.key.named? c = some name) :
    (g.step c root d).nodes =
      Nodes.update (g.nodes.filter (·.1 ≠ d.offset)) o (Node.addChildren [(b, name, node)]) := by
  simp only [Folding.step, hs, hnode, hname]

/-- The nodes of scopes that have not had their turn have all callees that had. -/
theorem exists_holdsFrom (h : n.Recordable c) (root : Offset) {i : Nat} (hi : 1 ≤ i)
    (hle : i ≤ n.scopes.length) (ho : o < i) :
    ∃ node, ((n.scopes.drop i).reverse.foldl (Folding.step c root)
      { nodes := ownNodes c n }).nodes.lookup o =
      some node ∧ HoldsFrom c n i o node := by
  induction hk : n.scopes.length - i generalizing i o with
  -- All scopes are left, so a node has no callees yet.
  | zero =>
    obtain rfl : i = n.scopes.length := by lia
    obtain ⟨node, hnode, hfinds⟩ := finds_ownNodes h ho
    have hlt {d : ScopeDesc} (hd : d ∈ n.scopes) : ¬n.scopes.length ≤ d.offset :=
      Nat.not_le.2 (List.getElem?_eq_some_iff.1 (h.getElem?_offset hd)).1
    refine ⟨node, by rwa [List.drop_length], fun b f hf => ?_, fun d hd hle => absurd hle (hlt hd)⟩
    rw [hfinds b f hf]
    refine (or_iff_right ?_).symm
    rintro ⟨d, hd, hle, -⟩
    exact hlt hd hle
  -- The scope at `i` has its turn. Its node is complete by the induction hypothesis, and so is that
  -- of its sender but for this callee.
  | succ k ih =>
    have hlt : i < n.scopes.length := by lia
    have hd : n.scopes[i]? = some n.scopes[i] := List.getElem?_eq_getElem hlt
    obtain ⟨name, hnamed, hname⟩ := h.keys _ (List.getElem_mem hlt)
    obtain ⟨p, b, hs, hp⟩ := h.toNumbered.exists_sender hi hd
    have hoffset : n.scopes[i].offset = i := h.offset_eq i _ hd
    obtain ⟨callee, hlookup, hholds⟩ := ih (i := i + 1) (o := i) (by lia) hlt (by lia) (by lia)
    obtain ⟨node, hnode, hnodeholds⟩ := ih (i := i + 1) (o := o) (by lia) hlt (by lia) (by lia)
    rw [List.drop_eq_getElem_cons hlt, List.reverse_cons, List.foldl_append,
      List.foldl_cons, List.foldl_nil,
      Folding.nodes_step hs (by rwa [hoffset]) hnamed, Nodes.lookup_update, hoffset,
      lookup_filter_of_ne (Nat.ne_of_lt ho), hnode]
    by_cases hop : o = p
    · subst hop
      exact ⟨_, if_pos rfl, hnodeholds.put h hd hs hname (hholds.describes h hd)⟩
    · refine ⟨node, if_neg hop, hnodeholds.skip h hd fun b' hs' => hop ?_⟩
      rw [hs] at hs'
      exact (Prod.mk.inj (Option.some.inj hs')).1.symm

/-! ## Nodes in order -/

theorem normalizeAll_eq_map (cs : List Child) :
    normalizeAll cs = cs.map fun x => (x.1, x.2.1, x.2.2.normalize) := by
  induction cs with
  | nil => rfl
  | cons x cs ih =>
    obtain ⟨bci, name, node⟩ := x
    rw [normalizeAll, ih, List.map_cons]

namespace Node

variable {node node' node'' : Node} {k : LookupKey} {m m' : MethodId}

/-- Sorting does the same to the nodes of callees, and leaves none out. -/
theorem mem_children_normalize {x : Child} :
    x ∈ node.normalize.children ↔ ∃ y ∈ node.children, (y.1, y.2.1, y.2.2.normalize) = x := by
  rcases node with ⟨cs, u, i, d⟩
  rw [normalize, children, children, List.mem_mergeSort, normalizeAll_eq_map, List.mem_map]

theorem mem_sortBcis {l : List Bci} : b ∈ sortBcis l ↔ b ∈ l := by
  rw [sortBcis, List.mem_eraseDups, List.mem_mergeSort]

/-- Sorting changes the order of what is recorded, not what is found. -/
theorem finds_normalize : node.normalize.Finds c b f ↔ node.Finds c b f := by
  rcases f with k | - | - | - | -
  · simp only [Finds, mem_children_normalize]
    constructor
    · rintro ⟨-, ⟨y, hy, rfl⟩, hb, hres⟩
      exact ⟨y, hy, hb, hres⟩
    · rintro ⟨y, hy, hb, hres⟩
      exact ⟨_, ⟨y, hy, rfl⟩, hb, hres⟩
  all_goals rcases node with ⟨cs, u, i, d⟩
  · exact mem_sortBcis
  · exact mem_sortBcis
  · exact mem_sortBcis
  · rfl

/-- A callee is the only one with its key after sorting too. -/
theorem Callee.normalize (h : node.Callee c b k m node') :
    node.normalize.Callee c b k m node'.normalize where
  mem := by
    obtain ⟨name, hname, hmem⟩ := h.mem
    exact ⟨name, hname, mem_children_normalize.2 ⟨_, hmem, rfl⟩⟩
  only x hx hb m' hm' := by
    obtain ⟨y, hy, rfl⟩ := mem_children_normalize.1 hx
    rw [← h.only y hy hb m' hm']

/-- Paths lead to the same callees after sorting. -/
theorem Leads.normalize {p : List (Bci × LookupKey)} (h : node.Leads c m p node' m') :
    node.normalize.Leads c m p node'.normalize m' := by
  induction h with
  | here node m => exact .here _ m
  | callee hcallee _ ih => exact .callee hcallee.normalize ih

end Node

/-- A record describes scopes after sorting as it did before. -/
theorem Describes.normalize {node : Node} {m : MethodId} (h : Describes c n node m o) :
    Describes c n node.normalize m o := by
  intro p o' hreaches
  obtain ⟨node', d, hd, hleads, hfinds⟩ := h p o' hreaches
  exact ⟨node'.normalize, d, hd, hleads.normalize,
    fun b f hf => Node.finds_normalize.trans (hfinds b f hf)⟩

/-! ## Entries -/

/-- Writing entries of callees leaves the entry of the code alone. -/
theorem get?_foldl_insert (db : Database) (outer : NamedKey) (l : List (NamedKey × Node)) :
    (l.foldl (fun db d => db.insert ⟨outer, some d.1, d.2.normalize⟩) db).get? outer none =
      db.get? outer none := by
  induction l generalizing db with
  | nil => rfl
  | cons d l ih =>
    rw [List.foldl_cons, ih, get?_insert]
    simp

/-- Scopes have their turn in descending order. -/
theorem mergeSort_inlined (h : n.Numbered) :
    (n.scopes.filter (·.sender.isSome)).mergeSort (fun a b => decide (b.offset ≤ a.offset)) =
      (n.scopes.drop 1).reverse := by
  -- All scopes but the root are inlined.
  have hfilter : n.scopes.filter (·.sender.isSome) = n.scopes.drop 1 := by
    rcases hscopes : n.scopes with _ | ⟨d, l⟩
    · rfl
    · have hroot : d.sender = none := h.root d (by rw [hscopes]; rfl)
      rw [List.filter_cons_of_neg (by simp [hroot]), List.drop_one,
        List.tail_cons, List.filter_eq_self]
      intro d' hd'
      obtain ⟨i, hi⟩ := List.mem_iff_getElem?.1 hd'
      obtain ⟨o, b, hs, -⟩ := h.inlined i d' (by rw [hscopes, List.getElem?_cons_succ, hi])
      rw [hs]
      rfl
  have hascending : n.scopes.Pairwise fun a b => a.offset < b.offset := by
    refine List.pairwise_iff_getElem.2 fun i j hi hj hlt => ?_
    rwa [h.offset_eq i _ (List.getElem?_eq_getElem hi),
      h.offset_eq j _ (List.getElem?_eq_getElem hj)]
  have hdescending :
      (n.scopes.drop 1).reverse.Pairwise fun a b => decide (b.offset ≤ a.offset) = true :=
    List.pairwise_reverse.2 ((hascending.sublist (List.drop_sublist 1 _)).imp
      fun hlt => decide_eq_true (Nat.le_of_lt hlt))
  rw [hfilter]
  -- Two sorted arrangements of the same scopes are equal, since offsets differ.
  refine List.Perm.eq_of_pairwise (fun d d' hd hd' hle hle' => ?_)
    (List.pairwise_mergeSort ?_ ?_ _) hdescending
    ((List.mergeSort_perm _ _).trans (List.reverse_perm _).symm)
  · have heq : d.offset = d'.offset :=
      Nat.le_antisymm (of_decide_eq_true hle') (of_decide_eq_true hle)
    have hmem := h.getElem?_offset (List.mem_of_mem_drop (List.mem_mergeSort.1 hd))
    have hmem' := h.getElem?_offset (List.mem_of_mem_drop (List.mem_reverse.1 hd'))
    rw [heq, hmem'] at hmem
    exact (Option.some.inj hmem).symm
  · intro a b c hab hbc
    exact decide_eq_true (Nat.le_trans (of_decide_eq_true hbc) (of_decide_eq_true hab))
  · intro a b
    rw [Bool.or_eq_true, decide_eq_true_eq, decide_eq_true_eq]
    exact Nat.le_total _ _

/-- The record of code describes its root. -/
theorem exists_lookup_capture (db : Database) (h : n.Recordable c) {d : ScopeDesc}
    (hd : n.scopes[0]? = some d) (hkey : n.key = d.key) :
    ∃ node, (db.capture c n).2.lookup c n.key none = some node ∧ Describes c n node d.method 0 := by
  obtain ⟨outer, houter, -⟩ := h.keys d (List.mem_of_getElem? hd)
  have hlt : 0 < n.scopes.length := (List.getElem?_eq_some_iff.1 hd).1
  have hhead : n.scopes.head? = some d := List.head?_eq_getElem?.trans hd
  have hoffset : d.offset = 0 := h.offset_eq 0 d hd
  obtain ⟨node, hnode, hholds⟩ := exists_holdsFrom h 0 (Nat.le_refl 1) hlt (Nat.lt_succ_self 0)
  rw [← hkey] at houter
  refine ⟨node.normalize, ?_, (hholds.describes h hd).normalize⟩
  simp only [capture, houter, hhead, mergeSort_inlined h.toNumbered, hoffset, hnode]
  rw [lookup, houter, Option.bind_eq_bind, Option.bind_some, get?_foldl_insert, get?_insert]
  simp

end Database

end Warmup
