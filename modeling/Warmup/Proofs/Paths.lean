import Warmup.Proofs.Basic
import Warmup.SendGraph

/-!
# Paths of scopes

Where a scope of a send graph was inlined: into its sender, which was inlined into
its own sender, and so on up to the root (`lineage`). Read from the root down, the
positions and keys on the way are the path of the scope (`SendGraph.path`), which
tells scopes of different graphs apart by what was inlined where, and not by their
offsets.

Senders stand before what is inlined into them (`Ordered`), so a lineage ends.
-/

namespace Warmup

/-- A scope and those it is inlined into, innermost first, following at most some
    senders. -/
def lineageUpTo (l : List CompileScope) : Nat → Offset → List CompileScope
  | 0, _ => []
  | steps + 1, o =>
    match l[o]? with
    | none => []
    | some s => s :: (s.sender.map fun d => lineageUpTo l steps d.1).getD []

/-- A scope and all that it is inlined into, innermost first. -/
def lineage (l : List CompileScope) (o : Offset) : List CompileScope := lineageUpTo l (o + 1) o

/-- The path of a scope: from the root down to it, where each scope was inlined and
    under which key. -/
def SendGraph.path (g : SendGraph) (o : Offset) : List (Bci × LookupKey) :=
  ((lineage g.scopes o).filterMap fun s => s.sender.map fun d => (d.2, s.key)).reverse

/-- The paths of the scopes of a graph. -/
def SendGraph.paths (g : SendGraph) : List (List (Bci × LookupKey)) :=
  (List.range g.scopes.length).map g.path

/-- The paths of a graph are those of its scopes. -/
theorem SendGraph.mem_paths {g : SendGraph} {p : List (Bci × LookupKey)} :
    p ∈ g.paths ↔ ∃ (o : Offset) (k : CompileScope), g.scopes[o]? = some k ∧ g.path o = p := by
  simp only [paths, List.mem_map, List.mem_range]
  constructor
  · rintro ⟨o, ho, rfl⟩
    exact ⟨o, _, List.getElem?_eq_getElem ho, rfl⟩
  · rintro ⟨o, k, hk, rfl⟩
    exact ⟨o, (List.getElem?_eq_some_iff.1 hk).1, rfl⟩

/-- Scopes are numbered, and a sender stands before what is inlined into it. -/
structure Ordered (l : List CompileScope) : Prop where
  id_eq : ∀ (i : Nat) (k : CompileScope), l[i]? = some k → k.id = i
  sender_lt : ∀ (i : Nat) (k : CompileScope) (o : Offset) (bci : Bci), l[i]? = some k →
    k.sender = some (o, bci) → o < i

namespace Ordered

variable {l : List CompileScope} {o p : Offset} {bci : Bci} {k x y : CompileScope}

/-- A bound larger than the offset cuts off nothing, since senders stand before. -/
theorem lineageUpTo_eq (h : Ordered l) {n : Nat} (hn : o < n) :
    lineageUpTo l n o = lineage l o := by
  induction n using Nat.strongRecOn generalizing o with
  | ind n ih =>
    obtain ⟨n, rfl⟩ := Nat.exists_eq_add_one_of_ne_zero (Nat.ne_zero_of_lt hn)
    rw [lineage, lineageUpTo, lineageUpTo]
    rcases hk : l[o]? with _ | k
    · rfl
    · rcases hs : k.sender with _ | ⟨p, bci⟩
      · simp [hs]
      · -- The sender stands before `o`, so both numbers of steps are enough for it.
        have hp : p < o := h.sender_lt o k p bci hk hs
        simp only [hs, Option.map_some, Option.getD_some]
        rw [ih n (Nat.lt_succ_self n) (Nat.lt_of_lt_of_le hp (Nat.le_of_lt_succ hn)), ih o hn hp]

/-- The lineage of a scope is the scope and the lineage of its sender. -/
theorem lineage_eq (h : Ordered l) (hk : l[o]? = some k) :
    lineage l o = k :: (k.sender.map fun d => lineage l d.1).getD [] := by
  rw [lineage, lineageUpTo]
  simp only [hk]
  rcases hs : k.sender with _ | ⟨p, bci⟩
  · rfl
  · simp only [Option.map_some, Option.getD_some]
    rw [h.lineageUpTo_eq (h.sender_lt o k p bci hk hs)]

theorem mem_lineage_self (h : Ordered l) (hk : l[o]? = some k) : k ∈ lineage l o := by
  rw [h.lineage_eq hk]
  exact List.mem_cons_self

/-- A lineage goes on with the sender of each of its scopes. -/
theorem mem_lineage_of_sender (h : Ordered l) (hx : x ∈ lineage l o) (hs : x.sender = some (p, bci))
    (hy : l[p]? = some y) : y ∈ lineage l o := by
  -- Senders stand before, so the induction is on the offset.
  induction o using Nat.strongRecOn with
  | ind o ih =>
    rcases hk : l[o]? with _ | k
    · simp [lineage, lineageUpTo, hk] at hx
    · rw [h.lineage_eq hk] at hx ⊢
      refine List.mem_cons_of_mem k ?_
      rcases List.mem_cons.1 hx with rfl | hx
      · rw [hs]
        exact h.mem_lineage_self hy
      · rcases hks : k.sender with _ | ⟨q, bci'⟩
        · simp [hks] at hx
        · rw [hks] at hx
          exact ih q (h.sender_lt o k q bci' hk hks) hx

theorem path_root {g : SendGraph} (h : Ordered g.scopes) (hk : g.scopes[o]? = some k)
    (hs : k.sender = none) :
    g.path o = [] := by
  simp [SendGraph.path, h.lineage_eq hk, hs]

/-- The path of a scope goes on from the path of its sender. -/
theorem path_sender {g : SendGraph} (h : Ordered g.scopes) (hk : g.scopes[o]? = some k)
    (hs : k.sender = some (p, bci)) : g.path o = g.path p ++ [(bci, k.key)] := by
  simp [SendGraph.path, h.lineage_eq hk, hs]

end Ordered

end Warmup
