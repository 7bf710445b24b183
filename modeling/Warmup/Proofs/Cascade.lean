import Mathlib.Data.List.Basic
import Mathlib.Tactic.Common
import Warmup.Deoptimization

/-!
# What a deoptimization must replace

A compiled activation that is replaced spoils the optimized context that it has
laid out, and with it all activations that refer to that context, in any
process. Some of these are compiled themselves, and so on. The set that comes of
this (`ProcessTable.Affected`) is defined by its rules alone; the table finds it
by rounds that go over all activations.

* `mem_marked_iff`: the rounds stop at the affected activations. Each round but
  the last one finds a further activation, so there are enough of them;
* `mem_spoiled_marked_iff`: the contexts that the affected activations spoil;
* `pairwise_framesWhere`: activations are listed by process and from the oldest
  on, each once.
-/

namespace Warmup

/-- An activation stands before another one: by process, then from the oldest
    on. -/
def FrameRef.Before (r r' : FrameRef) : Prop := r.1.index < r'.1.index ∨ r.1 = r'.1 ∧ r.2 < r'.2

theorem FrameRef.Before.ne {r r' : FrameRef} (h : r.Before r') : r ≠ r' := by
  rintro rfl
  rcases h with h | ⟨-, h⟩
  · exact Nat.lt_irrefl _ h
  · exact Nat.lt_irrefl _ h

theorem FrameRef.Before.asymm {r r' : FrameRef} (h : r.Before r') : ¬r'.Before r := by
  rintro (h' | ⟨hp', h'⟩) <;> rcases h with h | ⟨hp, h⟩
  · omega
  · rw [hp] at h'
    omega
  · rw [hp'] at h
    omega
  · omega

namespace ProcessTable

variable {t : ProcessTable} {p : ProcessId} {i : Nat} {r : FrameRef} {a : Activation}
  {c : ContextId}

/-! ## Places -/

theorem frame?_eq_some_iff :
    t.frame? r = some a ↔ ∃ s, t.callStacks[r.1.index]? = some s ∧ s[r.2]? = some a :=
  Option.bind_eq_some_iff

theorem frame_eq_ok_iff : t.frame p i = .ok a ↔ t.frame? (p, i) = some a := by
  rw [frame, frame?, stack]
  cases t.callStacks[p.index]? with
  | none => simp [bind, Except.bind]
  | some s =>
    cases ha : s[i]? with
    | none => simp [bind, Except.bind, ha]
    | some b => simp [bind, Except.bind, ha]

/-- The list of activations has just those that the processes have. -/
theorem mem_activations : (r, a) ∈ t.activations ↔ t.frame? r = some a := by
  obtain ⟨⟨q⟩, j⟩ := r
  rw [frame?_eq_some_iff, activations, List.mem_flatten]
  constructor
  · rintro ⟨l, hl, ha⟩
    obtain ⟨q', hq', rfl⟩ := List.mem_mapIdx.1 hl
    obtain ⟨j', hj', heq⟩ := List.mem_mapIdx.1 ha
    obtain ⟨⟨rfl, rfl⟩, rfl⟩ : (q' = q ∧ j' = j) ∧ _ = a := by simpa using heq
    exact ⟨_, List.getElem?_eq_getElem hq', List.getElem?_eq_getElem hj'⟩
  · rintro ⟨s, hs, ha⟩
    obtain ⟨hq, rfl⟩ := List.getElem?_eq_some_iff.1 hs
    obtain ⟨hj, rfl⟩ := List.getElem?_eq_some_iff.1 ha
    exact ⟨_, List.mem_mapIdx.2 ⟨q, hq, rfl⟩, List.mem_mapIdx.2 ⟨j, hj, rfl⟩⟩

/-- Activations are listed by process, and from the oldest on. -/
theorem pairwise_activations (t : ProcessTable) :
    t.activations.Pairwise fun e e' => e.1.Before e'.1 := by
  rw [activations, List.pairwise_flatten]
  constructor
  · intro l hl
    obtain ⟨q, hq, rfl⟩ := List.mem_mapIdx.1 hl
    rw [List.pairwise_iff_getElem]
    intro j j' hj hj' hlt
    simp only [List.getElem_mapIdx]
    exact .inr ⟨rfl, hlt⟩
  · rw [List.pairwise_iff_getElem]
    intro q q' hq hq' hlt e he e' he'
    rw [List.getElem_mapIdx, List.mem_mapIdx] at he he'
    obtain ⟨j, hj, rfl⟩ := he
    obtain ⟨j', hj', rfl⟩ := he'
    exact .inl hlt

theorem mem_framesWhere {f : FrameRef → Activation → Bool} :
    r ∈ t.framesWhere f ↔ ∃ a, t.frame? r = some a ∧ f r a := by
  simp only [framesWhere, List.mem_map, List.mem_filter, Prod.exists,
    exists_and_right, exists_eq_right, mem_activations]

/-- Activations with a property are listed in order, each once. -/
theorem pairwise_framesWhere (t : ProcessTable) (f : FrameRef → Activation → Bool) :
    (t.framesWhere f).Pairwise FrameRef.Before :=
  List.pairwise_map.2 (t.pairwise_activations.filter _)

/-- A weaker condition holds of more activations, in the same order. -/
theorem framesWhere_sublist {f g : FrameRef → Activation → Bool}
    (h : ∀ r a, t.frame? r = some a → f r a → g r a) :
    (t.framesWhere f).Sublist (t.framesWhere g) := by
  have hfilter : t.activations.filter (fun e => f e.1 e.2) =
      (t.activations.filter fun e => g e.1 e.2).filter fun e => f e.1 e.2 := by
    rw [List.filter_filter]
    refine List.filter_congr fun e he => ?_
    rw [Bool.eq_iff_iff, Bool.and_eq_true, iff_self_and]
    exact h e.1 e.2 (mem_activations.1 he)
  rw [framesWhere, hfilter]
  exact List.filter_sublist.map _

/-- There are no more marked activations than activations. -/
theorem length_framesWhere_le (t : ProcessTable) (f : FrameRef → Activation → Bool) :
    (t.framesWhere f).length ≤ t.activations.length := by
  rw [framesWhere, List.length_map]
  exact List.length_filter_le _ _

/-! ## What is affected -/

/-- A context that compiled code has laid out, and that is in use. -/
def IsOptimized (t : ProcessTable) (c : ContextId) : Prop :=
  ∃ e, t.context? c = some e ∧ e.optimized ∧ e.valid

/-- An activation that is replaced makes a context useless: it is compiled, and
    has laid out the context. -/
def Spoils (t : ProcessTable) (r : FrameRef) (c : ContextId) : Prop :=
  ∃ a, t.frame? r = some a ∧ a.isCompiled ∧ a.own = some c ∧ t.IsOptimized c

/-- The activations that must be replaced with an activation of a process: this
    one, all newer ones of the process, and all that refer to a context that one
    of them spoils. -/
inductive Affected (t : ProcessTable) (p : ProcessId) (i : Nat) : FrameRef → Prop
  | newer {j : Nat} {a : Activation} : t.frame? (p, j) = some a → i ≤ j → Affected t p i (p, j)
  | refers {r r' : FrameRef} {c : ContextId} {a : Activation} :
    Affected t p i r → t.Spoils r c → t.frame? r' = some a → a.references c → Affected t p i r'

theorem Affected.exists_frame (h : t.Affected p i r) : ∃ a, t.frame? r = some a := by
  cases h with
  | newer ha => exact ⟨_, ha⟩
  | refers _ _ ha => exact ⟨_, ha⟩

/-! ## Rounds -/

/-- A context is spoiled by the compiled activation that has laid it out, if it is marked. -/
theorem mem_spoiled_iff {marked : List FrameRef} :
    c ∈ t.spoiled marked ↔ ∃ r ∈ marked, t.Spoils r c := by
  have hrange : t.IsOptimized c → c ∈ (List.range t.contexts.length).map ContextId.mk := by
    rintro ⟨e, he, -⟩
    exact List.mem_map.2 ⟨c.index, List.mem_range.2 (List.getElem?_eq_some_iff.1 he).1, rfl⟩
  have hoptimized : (t.context? c).any (fun e => e.optimized && e.valid) ↔ t.IsOptimized c := by
    simp [Option.any_eq_true, IsOptimized]
  have hmarked : (marked.any fun r => (t.frame? r).any fun a => a.isCompiled && a.own = some c) ↔
      ∃ r ∈ marked, ∃ a, t.frame? r = some a ∧ a.isCompiled ∧ a.own = some c := by
    simp [Option.any_eq_true]
  rw [spoiled, List.mem_filter, Bool.and_eq_true, hoptimized, hmarked]
  constructor
  · rintro ⟨-, hc, r, hr, a, ha, hcompiled, hown⟩
    exact ⟨r, hr, a, ha, hcompiled, hown, hc⟩
  · rintro ⟨r, hr, a, ha, hcompiled, hown, hc⟩
    exact ⟨hrange hc, hc, r, hr, a, ha, hcompiled, hown⟩

/-- Contexts are listed in order, each once. -/
theorem pairwise_spoiled (t : ProcessTable) (marked : List FrameRef) :
    (t.spoiled marked).Pairwise (·.index < ·.index) := by
  rw [spoiled]
  refine List.Pairwise.filter _ (List.pairwise_map.2 ?_)
  exact List.pairwise_lt_range

/-- The activations that a deoptimization starts from. -/
theorem mem_newerThan : r ∈ t.newerThan p i ↔ r.1 = p ∧ i ≤ r.2 ∧ ∃ a, t.frame? r = some a := by
  simp only [newerThan, mem_framesWhere, Bool.and_eq_true, decide_eq_true_eq]
  constructor
  · rintro ⟨a, ha, hp, hi⟩
    exact ⟨hp, hi, a, ha⟩
  · rintro ⟨hp, hi, a, ha⟩
    exact ⟨a, ha, hp, hi⟩

/-- A round marks what refers to a context that a marked activation spoils. -/
theorem mem_grow_iff {marked : List FrameRef} : r ∈ t.grow marked ↔
    ∃ a, t.frame? r = some a ∧
      (r ∈ marked ∨ ∃ r' ∈ marked, ∃ c, t.Spoils r' c ∧ a.references c) := by
  simp only [grow, mem_framesWhere, Bool.or_eq_true, List.contains_iff_mem,
    List.any_eq_true, mem_spoiled_iff]
  constructor
  · rintro ⟨a, ha, hr | ⟨c, ⟨r', hr', hc⟩, href⟩⟩
    · exact ⟨a, ha, .inl hr⟩
    · exact ⟨a, ha, .inr ⟨r', hr', c, hc, href⟩⟩
  · rintro ⟨a, ha, hr | ⟨r', hr', c, hc, href⟩⟩
    · exact ⟨a, ha, .inl hr⟩
    · exact ⟨a, ha, .inr ⟨c, ⟨r', hr', hc⟩, href⟩⟩

/-- A round keeps what is marked. -/
theorem sublist_grow (f : FrameRef → Activation → Bool) :
    (t.framesWhere f).Sublist (t.grow (t.framesWhere f)) := by
  rw [grow]
  refine framesWhere_sublist fun r a ha hf => ?_
  rw [Bool.or_eq_true, List.contains_iff_mem]
  exact .inl (mem_framesWhere.2 ⟨a, ha, hf⟩)

/-- A round marks nothing that is not affected. -/
theorem affected_of_mem_grow {marked : List FrameRef} (h : ∀ r ∈ marked, t.Affected p i r) :
    ∀ r ∈ t.grow marked, t.Affected p i r := by
  intro r hr
  obtain ⟨a, ha, hr | ⟨r', hr', c, hc, href⟩⟩ := mem_grow_iff.1 hr
  · exact h r hr
  · exact .refers (h r' hr') hc ha href

/-- What the rounds lead to: a list in order that has all that was marked, only
    what is affected, and all that a further round would mark. -/
structure Saturates (t : ProcessTable) (p : ProcessId) (i : Nat) (marked result : List FrameRef) :
    Prop where
  ordered : ∃ f, result = t.framesWhere f
  kept : ∀ r ∈ marked, r ∈ result
  affected : (∀ r ∈ marked, t.Affected p i r) → ∀ r ∈ result, t.Affected p i r
  closed : t.grow result = result

/-- With as many rounds as there are unmarked activations, the last one finds nothing new: every
    round before it has marked at least one more. -/
theorem saturates_cascade (p : ProcessId) (i : Nat) (f : FrameRef → Activation → Bool) (steps : Nat)
    (hsteps : t.activations.length ≤ (t.framesWhere f).length + steps) :
    t.Saturates p i (t.framesWhere f) (t.cascade steps (t.framesWhere f)) := by
  -- The number of activations that are not marked bounds the rounds that are left.
  induction steps generalizing f with
  | zero =>
    have hlen : (t.grow (t.framesWhere f)).length ≤ (t.framesWhere f).length := by
      rw [grow]
      exact Nat.le_trans (t.length_framesWhere_le _) hsteps
    have hgrow := (sublist_grow f).eq_of_length_le hlen
    exact ⟨⟨f, rfl⟩, fun r hr => hr, fun h => h, hgrow.symm⟩
  | succ steps ih =>
    rw [cascade]
    split
    · next hlen =>
      have hgrow := (sublist_grow f).eq_of_length hlen.symm
      exact ⟨⟨f, rfl⟩, fun r hr => hr, fun h => h, hgrow.symm⟩
    · next hlen =>
      have hlt : (t.framesWhere f).length < (t.grow (t.framesWhere f)).length :=
        Nat.lt_of_le_of_ne (sublist_grow f).length_le fun h => hlen h.symm
      have hsat := ih (fun r a => (t.framesWhere f).contains r ||
          (t.spoiled (t.framesWhere f)).any a.references) (by
        rw [grow] at hlt
        omega)
      exact ⟨hsat.ordered, fun r hr => hsat.kept r ((sublist_grow f).subset hr),
        fun h => hsat.affected (affected_of_mem_grow h), hsat.closed⟩

/-- What must be replaced with an activation, as the table finds it. -/
def marked (t : ProcessTable) (p : ProcessId) (i : Nat) : List FrameRef :=
  t.cascade t.activations.length (t.newerThan p i)

/-- Marking goes on until nothing new is found. -/
theorem saturates_marked (t : ProcessTable) (p : ProcessId) (i : Nat) :
    t.Saturates p i (t.newerThan p i) (t.marked p i) :=
  saturates_cascade p i _ _ (Nat.le_add_left _ _)

/-- The rounds find what is affected. -/
theorem mem_marked_iff : r ∈ t.marked p i ↔ t.Affected p i r := by
  have hsat := t.saturates_marked p i
  constructor
  · refine hsat.affected (fun r hr => ?_) r
    obtain ⟨rfl, hi, a, ha⟩ := mem_newerThan.1 hr
    exact .newer ha hi
  · intro h
    induction h with
    | newer ha hi => exact hsat.kept _ (mem_newerThan.2 ⟨rfl, hi, _, ha⟩)
    | refers _ hc ha href ih =>
      rw [← hsat.closed]
      exact mem_grow_iff.2 ⟨_, ha, .inr ⟨_, ih, _, hc, href⟩⟩

/-- The contexts that are replaced are those that affected activations spoil. -/
theorem mem_spoiled_marked_iff :
    c ∈ t.spoiled (t.marked p i) ↔ ∃ r, t.Affected p i r ∧ t.Spoils r c := by
  simp only [mem_spoiled_iff, mem_marked_iff]

/-- What is marked is listed by process and from the oldest on, each once. -/
theorem pairwise_marked (t : ProcessTable) (p : ProcessId) (i : Nat) :
    (t.marked p i).Pairwise FrameRef.Before := by
  obtain ⟨f, hf⟩ := (t.saturates_marked p i).ordered
  rw [hf]
  exact t.pairwise_framesWhere f

end ProcessTable

end Warmup
