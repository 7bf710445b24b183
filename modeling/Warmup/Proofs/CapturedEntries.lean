import Mathlib.Data.List.Perm.Subperm
import Warmup.Proofs.CarriedFeedback

/-!
# The entries of a capture

What a capture writes into an empty database: one entry for the code itself, and one for each name
among the callees that are inlined directly into it. The entry of the code has one node for each
scope, put into that of its sender (`Database.Captures`). It is made by going through the scopes
from the last one on: a node has all its callees when its turn comes (`lookup_foldingFrom`).

Callees of the same name share an entry, which the first of them gets as the last one that is
written, but they are counted one by one. So the number of entries that is reported is right exactly
if no two of them have the same name (`Compiler.capture_entries`).
-/

namespace Warmup

instance (c : InlineCache) : Decidable c.Counts := inferInstanceAs (Decidable (_ ∧ _ ∧ _ ∧ _))

/-- The sends of a scope that are left in code. -/
def NativeMethod.sitesAt (n : NativeMethod) (o : Offset) : List CallSite :=
  n.sites.filter (·.scope = o)

/-- Whether a scope is inlined directly into the root. -/
def ScopeDesc.isDirect (d : ScopeDesc) : Bool := d.sender.any (·.1 = 0)

/-- Whether a scope is inlined directly into the root under some names. -/
def ScopeDesc.isDirectAs (t : ClassTable) (k : NamedKey) (d : ScopeDesc) : Bool :=
  d.isDirect && d.key.named? t = some k

/-- What it means for a callee to be inlined directly into the code under a name. -/
theorem ScopeDesc.isDirectAs_iff {t : ClassTable} {k : NamedKey} {d : ScopeDesc} :
    d.isDirectAs t k ↔ (∃ b, d.sender = some (0, b)) ∧ d.key.named? t = some k := by
  rw [isDirectAs, isDirect]
  rcases d.sender with _ | ⟨p, b⟩
  · simp
  · simp

/-- The names of the callees that are inlined directly into code. -/
def NativeMethod.directNames (t : ClassTable) (n : NativeMethod) : List NamedKey :=
  (n.scopes.filter (·.isDirect)).filterMap (·.key.named? t)

namespace Database

variable {t : ClassTable} {n : NativeMethod} {o p : Offset} {i : Nat} {b : Bci} {d : ScopeDesc}
  {db : Database} {k outer : NamedKey}

/-! ## Entries by their names -/

/-- The names of entries are those under which something is found. -/
theorem mem_names_iff {inner : Option NamedKey} :
    (outer, inner) ∈ db.entries.map (fun e => (e.outer, e.inner)) ↔
      (db.get? outer inner).isSome := by
  simp [get?, List.mem_map]

/-- Entries in order have different names. -/
theorem InOrder.nodup_names (h : InOrder db.entries) :
    (db.entries.map fun e => (e.outer, e.inner)).Nodup := by
  refine List.pairwise_map.2 (h.imp fun hbefore hsame => ?_)
  have hlt := before_iff_rank.1 hbefore
  rw [Entry.rank, Entry.rank, (Prod.mk.inj hsame).1, (Prod.mk.inj hsame).2] at hlt
  exact lt_irrefl _ hlt

/-- Of the entries with one name the last one counts. -/
theorem get?_foldl_insert_some (db : Database) (outer : NamedKey) (l : List (NamedKey × Node))
    (k : NamedKey) :
    (l.foldl (fun db d => db.insert ⟨outer, some d.1, d.2.normalize⟩) db).get? outer (some k) =
      ((l.reverse.find? (·.1 = k)).map (·.2.normalize)).or (db.get? outer (some k)) := by
  induction l generalizing db with
  | nil => rfl
  | cons d l ih =>
    rw [List.foldl_cons, ih, get?_insert, List.reverse_cons, List.find?_append]
    rcases hfind : l.reverse.find? (fun e => decide (e.1 = k)) with _ | e
    · by_cases hd : d.1 = k
      · simp [hfind, hd]
      · simp [hfind, hd]
    · simp [hfind]

/-- Writing entries under one name leaves those of other code alone. -/
theorem get?_foldl_insert_of_ne (db : Database) {outer' : NamedKey} (h : outer ≠ outer')
    (inner : Option NamedKey) (l : List (NamedKey × Node)) :
    (l.foldl (fun db d => db.insert ⟨outer, some d.1, d.2.normalize⟩) db).get? outer' inner =
      db.get? outer' inner := by
  induction l generalizing db with
  | nil => rfl
  | cons d l ih =>
    rw [List.foldl_cons, ih, get?_insert]
    simp [h]

/-- A list has as many different elements as elements exactly if it has none twice. -/
theorem length_eraseDups_eq_iff {α : Type} [DecidableEq α] {l : List α} :
    l.length = l.eraseDups.length ↔ l.Nodup := by
  have hsubperm : l.eraseDups.Subperm l :=
    (nodup_eraseDups l).subperm fun a ha => List.mem_eraseDups.1 ha
  constructor
  · intro h
    exact (hsubperm.perm_of_length_le h.le).nodup_iff.1 (nodup_eraseDups l)
  · intro h
    refine ((List.perm_ext_iff_of_nodup h (nodup_eraseDups l)).2 fun a => ?_).length_eq
    rw [List.mem_eraseDups]

/-- The number of different elements does not depend on the order. -/
theorem length_eraseDups_reverse {α : Type} [DecidableEq α] (l : List α) :
    l.reverse.eraseDups.length = l.eraseDups.length := by
  refine ((List.perm_ext_iff_of_nodup (nodup_eraseDups _) (nodup_eraseDups l)).2
    fun a => ?_).length_eq
  rw [List.mem_eraseDups, List.mem_eraseDups, List.mem_reverse]

/-- There is one entry for the code, and one for each name among its callees. -/
theorem length_foldl_insert (outer : NamedKey) (node : Node) (l : List (NamedKey × Node)) :
    (l.foldl (fun db d => db.insert ⟨outer, some d.1, d.2.normalize⟩)
      (({} : Database).insert ⟨outer, none, node⟩)).entries.length = 1 +
        (l.map (·.1)).eraseDups.length := by
  generalize hdb : l.foldl (fun db d => db.insert ⟨outer, some d.1, d.2.normalize⟩)
    (({} : Database).insert ⟨outer, none, node⟩) = db
  have horder : InOrder db.entries := by
    rw [← hdb]
    have hfold := inOrder_foldl_insert (List.pairwise_singleton _ (⟨outer, none, node⟩ : Entry))
      (l.map fun d => ⟨outer, some d.1, d.2.normalize⟩)
    rwa [List.foldl_map] at hfold
  -- Names are different, so counting the entries is counting the names that were written.
  have hnames : (db.entries.map fun e => (e.outer, e.inner)).Perm
      ((outer, none) :: (l.map (·.1)).eraseDups.map fun k => (outer, some k)) := by
    refine (List.perm_ext_iff_of_nodup horder.nodup_names ?_).2 fun ⟨outer', inner⟩ => ?_
    · refine List.nodup_cons.2 ⟨by simp, (nodup_eraseDups _).map fun k k' h => ?_⟩
      exact Option.some.inj (Prod.mk.inj h).2
    · rw [mem_names_iff, ← hdb]
      by_cases houter : outer = outer'
      · subst houter
        rcases inner with _ | k
        · rw [get?_foldl_insert, get?_insert]
          simp
        · rw [get?_foldl_insert_some, get?_insert]
          simp [get?]
      · rw [get?_foldl_insert_of_ne _ houter, get?_insert]
        simp [Ne.symm houter, houter, get?]
  have hlength := hnames.length_eq
  rw [List.length_map, List.length_cons, List.length_map] at hlength
  omega

/-! ## The nodes of single scopes -/

/-- Each node gets what is there for its scope, in order. -/
theorem Nodes.lookup_foldl_update {α : Type} (scope : α → Offset) (g : α → Node → Node) (l : List α)
    (ns : Nodes) (o : Offset) :
    (l.foldl (fun ns a => Nodes.update ns (scope a) (g a)) ns).lookup o =
      (ns.lookup o).map fun node => (l.filter (scope · = o)).foldl
        (fun node a => g a node) node := by
  induction l generalizing ns with
  | nil => simp
  | cons a l ih =>
    rw [List.foldl_cons, ih, Nodes.lookup_update]
    by_cases ho : o = scope a
    · simp [← ho, Function.comp_def]
    · simp [ho, Ne.symm ho]

/-- Traps add their sends to those never taken. -/
theorem foldl_addUntaken (l : List TrapSite) (cs : List Child) (u i c : List Bci) :
    l.foldl (fun node s => Node.addUntaken s.bci node) (.mk cs u i c) =
      .mk cs (u ++ l.map (·.bci)) i c := by
  induction l generalizing u with
  | nil => simp
  | cons s l ih =>
    rw [List.foldl_cons, Node.addUntaken, ih]
    simp

/-- Each cache adds to one list of a node, or to none if it is empty. -/
theorem foldl_addSite (l : List CallSite) (cs : List Child) (u i c : List Bci) :
    l.foldl (fun node s => addSite t s node) (.mk cs u i c) =
      .mk (cs ++ (l.filter (·.cache.Counts)).flatMap fun s => cacheChildren t s.bci s.cache)
        (u ++ (l.filter (·.cache.neverExecuted)).map (·.bci))
        (i ++ (l.filter fun s => !s.cache.neverExecuted &&
          (s.cache.isMegamorphic || s.cache.flags.uninlinable)).map (·.bci))
        (c ++ (l.filter (·.cache.Counts)).map (·.bci)) := by
  induction l generalizing cs u i c with
  | nil => simp
  | cons s l ih =>
    rw [List.foldl_cons, addSite]
    -- Each call site is of one of four kinds.
    by_cases hnever : s.cache.neverExecuted
    · have hcounts : ¬s.cache.Counts := fun h => h.1 hnever
      simp [hnever, hcounts, Node.addUntaken, ih]
    · by_cases hflag : s.cache.isMegamorphic || s.cache.flags.uninlinable
      · have hcounts : ¬s.cache.Counts := fun h => (Bool.or_eq_true_iff.1 hflag).elim h.2.1 h.2.2.1
        simp [hnever, hflag, hcounts, Node.addUninlinable, ih]
      · by_cases hempty : s.cache.isEmpty
        · have hcounts : ¬s.cache.Counts := fun h => h.2.2.2 hempty
          simp [hnever, hflag, hempty, hcounts, ih]
        · have hcounts : s.cache.Counts :=
            ⟨hnever, fun h => hflag (Bool.or_eq_true_iff.2 (.inl h)),
              fun h => hflag (Bool.or_eq_true_iff.2 (.inr h)), hempty⟩
          simp [hnever, hflag, hempty, hcounts, Node.addComplete, Node.addChildren, ih]

/-- What the traps and caches of a scope say. -/
def ownNode (t : ClassTable) (n : NativeMethod) (o : Offset) : Node :=
  .mk (((n.sitesAt o).filter (·.cache.Counts)).flatMap fun s => cacheChildren t s.bci s.cache)
    ((n.traps.filter fun s => s.scope = o && !s.used).map (·.bci) ++
      ((n.sitesAt o).filter (·.cache.neverExecuted)).map (·.bci))
    (((n.sitesAt o).filter fun s =>
      !s.cache.neverExecuted && (s.cache.isMegamorphic || s.cache.flags.uninlinable)).map (·.bci))
    (((n.sitesAt o).filter (·.cache.Counts)).map (·.bci))

/-- The node that a scope starts with has what its own traps and call sites show. -/
theorem lookup_ownNodes (h : n.Numbered) (ho : o < n.scopes.length) :
    (ownNodes t n).lookup o = some (ownNode t n o) := by
  have hmem : o ∈ (n.scopes.map (·.offset)).eraseDups := by
    refine List.mem_eraseDups.2 (List.mem_map.2 ⟨n.scopes[o], List.getElem_mem ho, ?_⟩)
    exact h.offset_eq o _ (List.getElem?_eq_getElem ho)
  rw [ownNodes, Nodes.lookup_foldl_update CallSite.scope (addSite t),
    Nodes.lookup_foldl_update TrapSite.scope fun s => Node.addUntaken s.bci,
    Nodes.lookup_fresh .empty hmem]
  simp only [Option.map_some, Node.empty, foldl_addUntaken, foldl_addSite, List.nil_append,
    List.filter_filter, ownNode, NativeMethod.sitesAt]

/-! ## Nodes put into one another -/

/-- The callee that a scope is to the one that it is inlined into, if its key has names. -/
def calleeOf? (t : ClassTable) (record : Offset → Node) (o : Offset) (d : ScopeDesc) :
    Option Child :=
  d.sender.bind fun s => if s.1 = o then (d.key.named? t).map fun k =>
    (s.2, k, record d.offset) else none

/-- What is recorded of the scopes of code. A scope has what its own traps and caches say, and the
    scopes that are inlined into it, with all that is recorded of these, from the last one on. -/
def Captures (t : ClassTable) (n : NativeMethod) (record : Offset → Node) : Prop :=
  ∀ o < n.scopes.length, record o = (ownNode t n o).addChildren
    (n.scopes.reverse.filterMap (calleeOf? t record o))

@[simp] theorem Node.addChildren_nil (node : Node) : node.addChildren [] = node := by
  obtain ⟨cs, u, i, c⟩ := node
  rw [addChildren, List.append_nil]

theorem Node.addChildren_append (node : Node) (new new' : List Child) :
    node.addChildren (new ++ new') = (node.addChildren new).addChildren new' := by
  obtain ⟨cs, u, i, c⟩ := node
  rw [addChildren, addChildren, addChildren, List.append_assoc]

section Step

variable {record : Offset → Node} {f : Folding} (hs : d.sender = some (p, b))
  (hnode : f.nodes.lookup d.offset = some (record d.offset))

include hs hnode

/-- A turn adds the scope to the node of its sender, and leaves all other ones alone. -/
theorem Folding.lookup_step (ho : o ≠ d.offset) : (f.step t 0 d).nodes.lookup o =
    (f.nodes.lookup o).map fun node => node.addChildren (calleeOf? t record o d).toList := by
  rcases hk : d.key.named? t with _ | k
  · have hnone : calleeOf? t record o d = none := by simp [calleeOf?, hs, hk]
    simp only [Folding.step, hs, hnode, hk, hnone, lookup_filter_of_ne ho,
      Option.toList_none, Node.addChildren_nil, Option.map_id']
  · rw [Folding.nodes_step hs hnode hk, Nodes.lookup_update, lookup_filter_of_ne ho]
    by_cases hp : p = o
    · simp [calleeOf?, hs, hk, hp]
    · simp [calleeOf?, hs, hp, Ne.symm hp]

/-- A turn of a scope that is inlined directly adds an entry for it. -/
theorem Folding.direct_step :
    (f.step t 0 d).direct = f.direct ++ (calleeOf? t record 0 d).toList.map (·.2) := by
  rcases hk : d.key.named? t with _ | k
  · simp [Folding.step, calleeOf?, hs, hnode, hk]
  · by_cases hp : p = 0
    · simp [Folding.step, calleeOf?, hs, hnode, hk, hp]
    · simp [Folding.step, calleeOf?, hs, hnode, hk, hp]

end Step

/-- The nodes when the scopes from some place on have had their turn. -/
def foldingFrom (t : ClassTable) (n : NativeMethod) (i : Nat) : Folding :=
  (n.scopes.drop i).reverse.foldl (Folding.step t 0) { nodes := ownNodes t n }

/-- The node of a scope when its turn comes. -/
def recordOf (t : ClassTable) (n : NativeMethod) (o : Offset) : Node :=
  ((foldingFrom t n (o + 1)).nodes.lookup o).getD .empty

/-- The turn of a scope comes after those of all later ones. -/
theorem foldingFrom_eq (h : d ∈ n.scopes[i]?) :
    foldingFrom t n i = (foldingFrom t n (i + 1)).step t 0 d := by
  obtain ⟨hi, rfl⟩ := List.getElem?_eq_some_iff.1 h
  rw [foldingFrom, List.drop_eq_getElem_cons hi, List.reverse_cons, List.foldl_append,
    List.foldl_cons, List.foldl_nil, foldingFrom]

section Numbered

variable (h : n.Numbered)
include h

/-- Scopes that have not had their turn have those of their callees that had. The nodes of the
    latter were complete then, since callees come after the scope that they are inlined into. -/
theorem lookup_foldingFrom (hi : 1 ≤ i) (hle : i ≤ n.scopes.length) (ho : o < i) :
    (foldingFrom t n i).nodes.lookup o =
      some ((ownNode t n o).addChildren
        ((n.scopes.drop i).reverse.filterMap (calleeOf? t (recordOf t n) o))) := by
  induction hk : n.scopes.length - i generalizing i o with
  | zero =>
    obtain rfl : i = n.scopes.length := by lia
    rw [foldingFrom, List.drop_length]
    simpa using lookup_ownNodes h ho
  | succ k ih =>
    have hlt : i < n.scopes.length := by lia
    have hd : n.scopes[i]? = some n.scopes[i] := List.getElem?_eq_getElem hlt
    have hoffset : n.scopes[i].offset = i := h.offset_eq i _ hd
    obtain ⟨p, b, hs, -⟩ := h.exists_sender hi hd
    -- The node of the scope whose turn it is has all its callees: they came later in the code, so
    -- they had their turns before.
    have hnode : (foldingFrom t n (i + 1)).nodes.lookup n.scopes[i].offset =
        some (recordOf t n n.scopes[i].offset) := by
      have hself := ih (i := i + 1) (o := i) (by lia) hlt (by lia) (by lia)
      rw [hoffset, recordOf, hself, Option.getD_some]
    rw [foldingFrom_eq hd, Folding.lookup_step hs hnode (by lia),
      ih (i := i + 1) (by lia) hlt (by lia) (by lia),
      Option.map_some, ← Node.addChildren_append, List.drop_eq_getElem_cons hlt, List.reverse_cons,
      List.filterMap_append]
    rfl

/-- The node of a scope is there when its turn comes. -/
theorem lookup_foldingFrom_offset (hd : n.scopes[i]? = some d) :
    (foldingFrom t n (i + 1)).nodes.lookup d.offset = some (recordOf t n d.offset) := by
  have hlt : i < n.scopes.length := (List.getElem?_eq_some_iff.1 hd).1
  rw [h.offset_eq i d hd, recordOf, lookup_foldingFrom h (by lia) hlt (Nat.lt_succ_self i),
    Option.getD_some]

/-- The callees inlined directly into the root are set aside on the way. -/
theorem direct_foldingFrom (hi : 1 ≤ i) (hle : i ≤ n.scopes.length) : (foldingFrom t n i).direct =
    ((n.scopes.drop i).reverse.filterMap (calleeOf? t (recordOf t n) 0)).map (·.2) := by
  induction hk : n.scopes.length - i generalizing i with
  | zero =>
    obtain rfl : i = n.scopes.length := by lia
    rw [foldingFrom, List.drop_length]
    rfl
  | succ k ih =>
    have hlt : i < n.scopes.length := by lia
    have hd : n.scopes[i]? = some n.scopes[i] := List.getElem?_eq_getElem hlt
    obtain ⟨p, b, hs, -⟩ := h.exists_sender hi hd
    rw [foldingFrom_eq hd, Folding.direct_step hs (lookup_foldingFrom_offset h hd),
      ih (by lia) hlt (by lia),
      List.drop_eq_getElem_cons hlt, List.reverse_cons, List.filterMap_append, List.map_append]
    rfl

/-- A scope is inlined into another one only if it comes after it. -/
theorem filterMap_calleeOf? (record : Offset → Node) (o : Offset) :
    n.scopes.reverse.filterMap (calleeOf? t record o) =
      (n.scopes.drop (o + 1)).reverse.filterMap (calleeOf? t record o) := by
  -- Callees come after their sender, so there is none among the scopes up to it.
  have hnone : (n.scopes.take (o + 1)).reverse.filterMap (calleeOf? t record o) = [] := by
    refine List.filterMap_eq_nil_iff.2 fun d hd => ?_
    obtain ⟨i, hi⟩ := List.mem_iff_getElem?.1 (List.mem_reverse.1 hd)
    rw [List.getElem?_take] at hi
    split at hi
    · next hlt =>
      have hmem : d ∈ n.scopes := List.mem_of_getElem? hi
      rcases hs : d.sender with _ | ⟨p, b⟩
      · simp [calleeOf?, hs]
      · have hp := h.lt_offset hmem hs
        rw [h.offset_eq i d hi] at hp
        simp [calleeOf?, hs, show p ≠ o by lia]
    · cases hi
  conv_lhs => rw [← List.take_append_drop (o + 1) n.scopes]
  rw [List.reverse_append, List.filterMap_append, hnone, List.append_nil]

/-- The nodes are those that are recorded. -/
theorem captures_recordOf : Captures t n (recordOf t n) := by
  intro o ho
  rw [recordOf, lookup_foldingFrom h (by lia) ho (by lia), Option.getD_some, filterMap_calleeOf? h]

/-- The code has an entry, and each callee inlined directly into it has one that is written
    later. -/
theorem capture_eq (hne : n.scopes ≠ []) (houter : n.key.named? t = some outer) (db : Database) :
    let direct := (n.scopes.reverse.filterMap (calleeOf? t (recordOf t n) 0)).map (·.2)
    db.capture t n =
      (1 + direct.length, direct.foldl (fun db d => db.insert ⟨outer, some d.1, d.2.normalize⟩)
      (db.insert ⟨outer, none, (recordOf t n 0).normalize⟩)) := by
  intro direct
  have hlt : 0 < n.scopes.length := List.length_pos_of_ne_nil hne
  have hhead : n.scopes.head? = some n.scopes[0] :=
    List.head?_eq_getElem?.trans (List.getElem?_eq_getElem hlt)
  have hoffset : n.scopes[0].offset = 0 := h.offset_eq 0 _ (List.getElem?_eq_getElem hlt)
  have hnode : (foldingFrom t n 1).nodes.lookup 0 = some (recordOf t n 0) := by
    rw [recordOf, lookup_foldingFrom h (Nat.le_refl 1) hlt Nat.one_pos, Option.getD_some]
  have hdirect : (foldingFrom t n 1).direct = direct := by
    rw [direct_foldingFrom h (Nat.le_refl 1) hlt, ← filterMap_calleeOf? h]
  rw [foldingFrom] at hnode hdirect
  simp only [capture, houter, hhead, mergeSort_inlined h, hoffset, hnode, hdirect]

end Numbered

/-! ## The callees of the root -/

variable {record : Offset → Node}

/-- A scope is a callee of the one that it is inlined into. -/
theorem calleeOf?_eq_some_iff {x : Child} : calleeOf? t record o d = some x ↔
    ∃ b k, d.sender = some (o, b) ∧ d.key.named? t = some k ∧ x = (b, k, record d.offset) := by
  rw [calleeOf?]
  rcases d.sender with _ | ⟨p, b⟩
  · simp
  · by_cases hp : p = o
    · simp [hp, eq_comm]
    · simp [hp]

/-- The callees of the root are those that are inlined directly. -/
theorem map_calleeOf? (t : ClassTable) (record : Offset → Node) (d : ScopeDesc) :
    (calleeOf? t record 0 d).map (·.2) =
      if d.isDirect then (d.key.named? t).map fun k => (k, record d.offset) else none := by
  rw [calleeOf?, ScopeDesc.isDirect]
  rcases d.sender with _ | ⟨p, b⟩
  · simp
  · by_cases hp : p = 0
    · simp [hp, Function.comp_def]
    · simp [hp]

/-- Their names, from the last one on. -/
theorem names_calleeOf? (t : ClassTable) (n : NativeMethod) (record : Offset → Node) :
    ((n.scopes.reverse.filterMap (calleeOf? t record 0)).map (·.2)).map (·.1) =
      (n.directNames t).reverse := by
  rw [List.map_filterMap, List.map_filterMap, NativeMethod.directNames, List.filterMap_filter,
    List.filterMap_reverse]
  congr 2
  funext d
  rw [map_calleeOf?]
  split
  · simp [Function.comp_def]
  · rfl

/-- Callees are counted one by one, and there is an entry for each name among them. -/
theorem capture_counts (h : n.Numbered) (hne : n.scopes ≠ [])
    (houter : n.key.named? t = some outer) :
    (({} : Database).capture t n).1 = 1 + (n.directNames t).length ∧
      (({} : Database).capture t n).2.entries.length = 1 + (n.directNames t).eraseDups.length := by
  have hnames := names_calleeOf? t n (recordOf t n)
  have hlength := congrArg List.length hnames
  rw [List.length_map, List.length_reverse] at hlength
  rw [capture_eq h hne houter, length_foldl_insert, hnames, length_eraseDups_reverse, ← hlength]
  exact ⟨rfl, rfl⟩

/-- Of those with one name the first one is written last. -/
theorem find?_calleeOf? (t : ClassTable) (n : NativeMethod) (record : Offset → Node)
    (k : NamedKey) :
    ((n.scopes.reverse.filterMap (calleeOf? t record 0)).map (·.2)).reverse.find? (·.1 = k) =
      (n.scopes.find? (·.isDirectAs t k)).map fun d => (k, record d.offset) := by
  have hwanted (d : ScopeDesc) :
      ((calleeOf? t record 0 d).map (·.2)).any (fun x => x.1 = k) = d.isDirectAs t k := by
    rw [map_calleeOf?, ScopeDesc.isDirectAs]
    rcases d.isDirect
    · rfl
    · rcases d.key.named? t with _ | k'
      · rfl
      · simp
  rw [List.map_filterMap, List.filterMap_reverse, List.reverse_reverse, List.find?_filterMap,
    funext hwanted]
  rcases hfind : n.scopes.find? (·.isDirectAs t k) with _ | d
  · rw [hfind]
    rfl
  · obtain ⟨hdirect, hname⟩ : d.isDirect ∧ d.key.named? t = some k := by
      simpa [ScopeDesc.isDirectAs] using List.find?_some hfind
    rw [hfind, Option.bind_some, map_calleeOf?, hdirect, hname]
    rfl

/-- The entry of the code is the record of the root, and the one of a name that of the first
    callee. -/
theorem get?_capture (h : n.Numbered) (hne : n.scopes ≠ []) (houter : n.key.named? t = some outer) :
    (({} : Database).capture t n).2.get? outer none = some (recordOf t n 0).normalize ∧
      ∀ k, (({} : Database).capture t n).2.get? outer (some k) =
        (n.scopes.find? (·.isDirectAs t k)).map fun d => (recordOf t n d.offset).normalize := by
  rw [capture_eq h hne houter]
  refine ⟨?_, fun k => ?_⟩
  · rw [get?_foldl_insert, get?_insert]
    simp
  · rw [get?_foldl_insert_some, find?_calleeOf?, get?_insert]
    simp [get?, Function.comp_def]

/-- The root has what is recorded of the scopes that are inlined directly into it. -/
theorem Captures.mem_children (h : Captures t n record) (hlt : 0 < n.scopes.length)
    (hd : d ∈ n.scopes) (hdirect : d.isDirectAs t k) :
    ∃ b, (b, k, record d.offset) ∈ (record 0).children := by
  obtain ⟨⟨b, hs⟩, hk⟩ := ScopeDesc.isDirectAs_iff.1 hdirect
  refine ⟨b, ?_⟩
  rw [h 0 hlt, Node.children_addChildren]
  exact List.mem_append_right _ (List.mem_filterMap.2
    ⟨d, List.mem_reverse.2 hd, calleeOf?_eq_some_iff.2 ⟨b, k, hs, hk, rfl⟩⟩)

end Database

namespace Compiler

variable {c : Compiler} {t : FeedbackTree} {key : LookupKey} {method : MethodId} {level : Nat}
  {comp : Compilation} {n : NativeMethod}

/-- A callee that was inlined under the key of a send was looked up, so its key has names. -/
theorem exists_named_of_compile (h : c.compile t key method level = .ok comp)
    (hn : n.LaidOutAs comp.native) {d : ScopeDesc} (hd : d ∈ n.scopes) {o : Offset} {b : Bci}
    (hs : d.sender = some (o, b)) {cls : ClassId} {s : Selector} (hkey : d.key = .send cls s) :
    ∃ k, d.key.named? c.classes = some k := by
  obtain ⟨hgraph, hemit⟩ := compile_ok h
  obtain ⟨-, -, -, root, -, hexp⟩ := graph_expanded hgraph
  rw [hn.scopes, (SendGraph.emit_ok hemit).2.2.1] at hd
  obtain ⟨k, hk, rfl⟩ := List.mem_map.1 hd
  obtain ⟨l, hl⟩ : ∃ l, comp.graph.scopes = rootScope t key root :: l :=
    List.head?_eq_some_iff.1 hexp.head
  rw [hl] at hk
  rcases List.mem_cons.1 hk with rfl | hk
  · cases hs
  · obtain ⟨_, _, _, _, -, -, -, hinlines⟩ :=
      hexp.hangs comp.graph.scopes (Within.self _) k (by simp only [hl]; exact hk)
    obtain ⟨e, he⟩ := ClassTable.exists_class_of_lookup (hinlines.lookup hkey)
    rw [hkey]
    exact ⟨⟨e.name, c.classes.selectorName s⟩,
      by simp [LookupKey.named?, LookupKey.selector?, LookupKey.send, he]⟩

/-- Compiled code has at least the scope of its own method. -/
theorem laidOut_scopes_ne_nil (h : c.compile t key method level = .ok comp)
    (hn : n.LaidOutAs comp.native) :
    n.scopes ≠ [] := by
  obtain ⟨-, hne, hscopes⟩ := laidOut_preordered h hn
  rw [hscopes]
  exact fun hnil => hne (List.map_eq_nil_iff.1 hnil)

/-- What a capture of compiled code writes into an empty database. The entry of the code itself has
    all scopes whose keys, and those of the scopes around them, have names. A callee that is inlined
    directly into the code under the key of a send has an entry under its names, and a callee with
    these names in the entry of the code has the same node. Where there are several, that is the
    first one. There is one entry for each name, while the callees are counted one by one, so the
    count is that of the entries exactly if no two of them have the same name. -/
theorem capture_entries (h : c.compile t key method level = .ok comp) (hn : n.LaidOutAs comp.native)
    {outer : NamedKey} (houter : n.key.named? c.classes = some outer) :
    let captured := ({} : Database).capture c.classes n
    let names := n.directNames c.classes
    captured.1 = 1 + names.length ∧ captured.2.entries.length = 1 + names.eraseDups.length ∧
    (captured.1 = captured.2.entries.length ↔ names.Nodup) ∧
    ∃ record, Database.Captures c.classes n record ∧
      captured.2.get? outer none = some (record 0).normalize ∧
      (∀ k, captured.2.get? outer (some k) =
        (n.scopes.find? (·.isDirectAs c.classes k)).map fun d => (record d.offset).normalize) ∧
      ∀ d ∈ n.scopes, ∀ b cls s, d.sender = some (0, b) → d.key = .send cls s →
        ∃ k b' node, d.key.named? c.classes = some k ∧ captured.2.get? outer (some k) = some node ∧
          (b', k, node) ∈ (record 0).normalize.children := by
  intro captured names
  have hnumbered := laidOut_numbered h hn
  have hne := laidOut_scopes_ne_nil h hn
  have hcaptures : Database.Captures c.classes n (Database.recordOf c.classes n) :=
    Database.captures_recordOf hnumbered
  obtain ⟨hcount, hentries⟩ : captured.1 = 1 + names.length ∧
      captured.2.entries.length = 1 + names.eraseDups.length :=
        Database.capture_counts hnumbered hne houter
  obtain ⟨hroot, hdirect⟩ := Database.get?_capture hnumbered hne houter
  refine ⟨hcount, hentries, ?_, Database.recordOf c.classes n, hcaptures, hroot, hdirect,
    fun d hd b cls s hs hkey => ?_⟩
  · -- The two numbers differ by the names that occur more than once.
    rw [hcount, hentries, Nat.add_left_cancel_iff]
    exact Database.length_eraseDups_eq_iff
  · obtain ⟨k, hk⟩ := exists_named_of_compile h hn hd hs hkey
    have hdirectAs : d.isDirectAs c.classes k := ScopeDesc.isDirectAs_iff.2 ⟨⟨b, hs⟩, hk⟩
    obtain ⟨d', hfind⟩ := Option.isSome_iff_exists.1 (List.find?_isSome.2 ⟨d, hd, hdirectAs⟩)
    obtain ⟨b', hmem⟩ := hcaptures.mem_children (List.length_pos_of_ne_nil hne)
      (List.mem_of_find?_eq_some hfind) (List.find?_some hfind)
    refine ⟨k, b', _, hk, by rw [hdirect, hfind, Option.map_some], ?_⟩
    exact Database.Node.mem_children_normalize.2 ⟨_, hmem, rfl⟩

/-- The code of `run:` has one callee inlined directly, with two callees of its own. -/
theorem capture_entries_doubling :
    ∃ comp record, doubling.compile .null (.send ⟨0⟩ ⟨2⟩) ⟨2⟩ 1 = .ok comp ∧
    doublingCode.LaidOutAs comp.native ∧
      doublingCode.key.named? doubling.classes = some ⟨"Object", "run:"⟩ ∧
    (({} : Database).capture doubling.classes doublingCode).1 = 2 ∧
    (({} : Database).capture doubling.classes doublingCode).2.entries.length = 2 ∧
    Database.Captures doubling.classes doublingCode record ∧
    (({} : Database).capture doubling.classes doublingCode).2.get? ⟨"Object", "run:"⟩ none =
      some (record 0).normalize ∧
    (({} : Database).capture doubling.classes doublingCode).2.get? ⟨"Object", "run:"⟩
      (some ⟨"Object", "twice"⟩) = some (record 1).normalize ∧
    ∃ b k node, (LookupKey.send ⟨0⟩ ⟨1⟩).named? doubling.classes = some k ∧
      (b, k, node) ∈ (record 0).normalize.children := by
  obtain ⟨comp, h, hlaid, -⟩ := compile_doubling
  have houter : doublingCode.key.named? doubling.classes = some ⟨"Object", "run:"⟩ := rfl
  obtain ⟨hcount, hentries, -, record, hcaptures, hwhole, hdirect, hcallee⟩ :=
    capture_entries h hlaid houter
  obtain ⟨k, b, node, hk, -, hmem⟩ :=
    hcallee _ (List.mem_of_getElem? (i := 1) rfl) 0 ⟨0⟩ ⟨1⟩ rfl rfl
  exact ⟨comp, record, h, hlaid, houter, hcount, hentries, hcaptures, hwhole,
    hdirect ⟨"Object", "twice"⟩, b, k, node, hk, hmem⟩

/-- The method `twice` is compiled with `x` inlined at both of its sends. -/
theorem compile_twice : ∃ comp, doubling.compile .null (.send ⟨0⟩ ⟨1⟩) ⟨1⟩ 1 = .ok comp ∧
    comp.native.key = .send ⟨0⟩ ⟨1⟩ ∧ comp.native.scopes = [
      ⟨0, none, .send ⟨0⟩ ⟨1⟩, ⟨1⟩, false⟩, ⟨1, some (0, 0), .send ⟨0⟩ ⟨0⟩, ⟨0⟩, false⟩,
      ⟨2, some (0, 1), .send ⟨0⟩ ⟨0⟩, ⟨0⟩, false⟩] :=
  ⟨_, rfl, rfl, rfl⟩

/-- The code of `twice` has two callees of the same name: three entries are reported, and there are
    two. -/
theorem capture_miscounts_twice : ∃ comp, doubling.compile .null (.send ⟨0⟩ ⟨1⟩) ⟨1⟩ 1 = .ok comp ∧
    comp.native.key.named? doubling.classes = some ⟨"Object", "twice"⟩ ∧
    (({} : Database).capture doubling.classes comp.native).1 = 3 ∧
    (({} : Database).capture doubling.classes comp.native).2.entries.length = 2 := by
  obtain ⟨comp, h, hkey, hscopes⟩ := compile_twice
  have hlaid := NativeMethod.LaidOutAs.refl comp.native
  have houter : comp.native.key.named? doubling.classes = some ⟨"Object", "twice"⟩ := by
    rw [hkey]
    rfl
  have hnames : comp.native.directNames doubling.classes = [⟨"Object", "x"⟩, ⟨"Object", "x"⟩] := by
    rw [NativeMethod.directNames, hscopes]
    rfl
  obtain ⟨hcount, hentries⟩ :=
    Database.capture_counts (laidOut_numbered h hlaid) (laidOut_scopes_ne_nil h hlaid) houter
  rw [hnames] at hcount hentries
  exact ⟨comp, h, houter, hcount, hentries⟩

end Compiler

end Warmup
