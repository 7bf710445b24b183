import Mathlib.Data.Fintype.Pigeonhole
import Mathlib.Tactic.Common
import Warmup.LookupKey

/-!
# Lookup along superclass chains

The chain of a class is cut off after one step more than there are classes.
No class is lost by that: a chain that goes on for longer has come back to a
class it has passed (`mem_chain_iff`). So lookup is what a receiver does: its
own method if there is one, and else what its superclass does (`lookup_eq`).

A search without the cut-off (`Searches`) need not end. It has the answer of the
lookup, but it has one only if something is found or the chain ends
(`searches_iff`). Chains end in a table in which every class was defined after
its superclass (`Founded.chainsEnd`).

A table that has grown without a new method in any dictionary (`Extends`) gives
the same answers: what was found is found again (`Extends.lookup_eq_some`), and
what was not found is not found either, if all classes on the chain were there
(`Extends.lookup_eq_none`).
-/

namespace Warmup.ClassTable

variable {t t' : ClassTable} {c d : ClassId} {s : Selector} {m : MethodId}

/-! ## Ancestors -/

/-- The class that `n` steps up the chain of a class lead to. -/
def ancestor? (t : ClassTable) : Nat → ClassId → Option ClassId
  | 0, c => some c
  | n + 1, c => (t.superclass? c).bind (t.ancestor? n)

/-- Going up by `i + j` steps is going up by `i` and then by `j`. -/
theorem ancestor?_add (i j : Nat) (c : ClassId) :
    t.ancestor? (i + j) c = (t.ancestor? i c).bind (t.ancestor? j) := by
  induction i generalizing c with
  | zero => simp [ancestor?]
  | succ i ih =>
    rw [Nat.succ_add]
    cases h : t.superclass? c with
    | none => simp [ancestor?, h]
    | some d => simp [ancestor?, h, ih]

/-- A class with a superclass is in the table. -/
theorem lt_length_of_superclass? (h : t.superclass? c = some d) : c.index < t.classes.length := by
  obtain ⟨e, he, _⟩ := Option.bind_eq_some_iff.1 h
  exact (List.getElem?_eq_some_iff.1 he).1

/-- The classes before an ancestor are ancestors too. -/
theorem exists_ancestor?_of_le {i k : Nat} (hk : t.ancestor? k c = some d) (hi : i ≤ k) :
    ∃ x, t.ancestor? i c = some x ∧ t.ancestor? (k - i) x = some d := by
  rw [← Nat.add_sub_of_le hi, ancestor?_add] at hk
  exact Option.bind_eq_some_iff.1 hk

/-- The classes before an ancestor are in the table. -/
theorem ancestor?_lt_length {i k : Nat} (hk : t.ancestor? k c = some d) (hi : i < k) :
    ∃ x, t.ancestor? i c = some x ∧ x.index < t.classes.length := by
  obtain ⟨x, hx, hd⟩ := exists_ancestor?_of_le hk hi.le
  obtain ⟨n, hn⟩ := Nat.exists_eq_succ_of_ne_zero (Nat.sub_ne_zero_of_lt hi)
  rw [hn, ancestor?] at hd
  obtain ⟨y, hy, _⟩ := Option.bind_eq_some_iff.1 hd
  exact ⟨x, hx, lt_length_of_superclass? hy⟩

/-- An ancestor that is reached in more steps than there are classes is also
    reached in fewer: one of the classes before it occurs twice. -/
theorem exists_shorter {k : Nat} (hk : t.ancestor? k c = some d) (hlong : t.classes.length < k) :
    ∃ k' < k, t.ancestor? k' c = some d := by
  choose f hf hlt using fun i : Fin (t.classes.length + 1) =>
    ancestor?_lt_length hk (show i.1 < k by omega)
  obtain ⟨i, j, hne, hij⟩ := Fintype.exists_ne_map_eq_of_card_lt
    (fun i => (⟨(f i).index, hlt i⟩ : Fin t.classes.length)) (by simp)
  wlog h : i < j generalizing i j
  · exact this j i hne.symm hij.symm (lt_of_le_of_ne (not_lt.1 h) hne.symm)
  have heq : f i = f j := by
    cases hfi : f i
    cases hfj : f j
    simp only [Fin.mk.injEq, hfi, hfj] at hij
    rw [hij]
  -- Skipping the loop from step `i` to step `j` leads to the same class.
  obtain ⟨y, hy, hd⟩ := exists_ancestor?_of_le hk (show j.1 ≤ k by omega)
  refine ⟨i.1 + (k - j.1), by omega, ?_⟩
  rw [ancestor?_add, hf i, heq, Option.bind_some]
  rw [hf j, Option.some.injEq] at hy
  exact hy ▸ hd

/-- Every ancestor is reached in at most as many steps as there are classes. -/
theorem exists_ancestor?_le_length {k : Nat} (hk : t.ancestor? k c = some d) :
    ∃ k' ≤ t.classes.length, t.ancestor? k' c = some d := by
  induction k using Nat.strongRecOn with
  | ind k ih =>
    rcases Nat.lt_or_ge t.classes.length k with hlong | hle
    · obtain ⟨k', hlt, hk'⟩ := exists_shorter hk hlong
      exact ih k' hlt hk'
    · exact ⟨k, hle, hk⟩

/-! ## Chains -/

/-- The chain of `n` classes has the ancestors that fewer than `n` steps lead to. -/
theorem mem_chainUpTo_iff {n : Nat} : d ∈ t.chainUpTo n c ↔ ∃ k < n, t.ancestor? k c = some d := by
  induction n generalizing c with
  | zero => simp [chainUpTo]
  | succ n ih =>
    rw [chainUpTo, List.mem_cons]
    constructor
    · rintro (rfl | h)
      · exact ⟨0, Nat.succ_pos n, rfl⟩
      · cases hs : t.superclass? c with
        | none => simp [hs] at h
        | some y =>
          simp only [hs] at h
          obtain ⟨k, hk, ha⟩ := ih.1 h
          exact ⟨k + 1, Nat.succ_lt_succ hk, by rw [ancestor?, hs]; exact ha⟩
    · rintro ⟨k, hk, ha⟩
      cases k with
      | zero => exact .inl (Option.some.inj ha).symm
      | succ k =>
        obtain ⟨y, hy, ha⟩ := Option.bind_eq_some_iff.1 ha
        refine .inr ?_
        simp only [hy]
        exact ih.2 ⟨k, Nat.lt_of_succ_lt_succ hk, ha⟩

/-- A chain has all ancestors of its class. -/
theorem mem_chain_iff : d ∈ t.chain c ↔ ∃ k, t.ancestor? k c = some d := by
  rw [chain, mem_chainUpTo_iff]
  constructor
  · rintro ⟨k, _, hk⟩
    exact ⟨k, hk⟩
  · rintro ⟨k, hk⟩
    obtain ⟨k', hle, hk'⟩ := exists_ancestor?_le_length hk
    exact ⟨k', Nat.lt_succ_of_le hle, hk'⟩

/-- A longer chain starts with the shorter one. -/
theorem chainUpTo_add (i j : Nat) (c : ClassId) :
    ∃ rest, t.chainUpTo (i + j) c = t.chainUpTo i c ++ rest := by
  induction i generalizing c with
  | zero => exact ⟨t.chainUpTo j c, by simp [chainUpTo]⟩
  | succ i ih =>
    rw [Nat.succ_add]
    cases hs : t.superclass? c with
    | none => exact ⟨[], by simp [chainUpTo, hs]⟩
    | some y =>
      obtain ⟨rest, hrest⟩ := ih y
      exact ⟨rest, by simp [chainUpTo, hs, hrest]⟩

theorem chainUpTo_congr (h : ∀ x, t'.superclass? x = t.superclass? x) (n : Nat) (c : ClassId) :
    t'.chainUpTo n c = t.chainUpTo n c := by
  induction n generalizing c with
  | zero => rfl
  | succ n ih =>
    rw [chainUpTo, chainUpTo, h c]
    cases t.superclass? c with
    | none => rfl
    | some d => simp only [ih]

/-- A search along a chain finds no more if the chain is cut off later. -/
theorem findSome?_chainUpTo {α : Type} (f : ClassId → Option α) (n : Nat) (c : ClassId) :
    (t.chainUpTo (t.classes.length + 1 + n) c).findSome? f = (t.chain c).findSome? f := by
  obtain ⟨rest, hrest⟩ := t.chainUpTo_add (t.classes.length + 1) n c
  rw [hrest, List.findSome?_append, ← chain]
  cases h : (t.chain c).findSome? f with
  | some a => rfl
  | none =>
    rw [Option.none_or, List.findSome?_eq_none_iff]
    intro d hd
    have hmem : d ∈ t.chainUpTo (t.classes.length + 1 + n) c := hrest ▸ List.mem_append_right _ hd
    obtain ⟨k, _, hk⟩ := mem_chainUpTo_iff.1 hmem
    exact List.findSome?_eq_none_iff.1 h d (mem_chain_iff.2 ⟨k, hk⟩)

/-! ## Lookup -/

/-- A receiver runs its own method, or else what its superclass runs. -/
theorem lookup_eq (t : ClassTable) (c : ClassId) (s : Selector) :
    t.lookup c s = (t.localMethod? c s).or ((t.superclass? c).bind fun d => t.lookup d s) := by
  -- A chain that is cut off one step later has its class in front of the whole
  -- chain of the superclass.
  have h : t.lookup c s = (t.chainUpTo (t.classes.length + 1 + 1) c).findSome? fun d =>
      t.localMethod? d s :=
    (t.findSome?_chainUpTo (fun d => t.localMethod? d s) 1 c).symm
  rw [h, chainUpTo, List.findSome?_cons]
  cases hl : t.localMethod? c s with
  | some m => rfl
  | none =>
    cases hs : t.superclass? c with
    | none => rfl
    | some d => rfl

theorem lookup_eq_of_local (h : t.localMethod? c s = some m) : t.lookup c s = some m := by
  rw [lookup_eq, h, Option.some_or]

theorem lookup_eq_of_super (h : t.localMethod? c s = none) (hs : t.superclass? c = some d) :
    t.lookup c s = t.lookup d s := by
  rw [lookup_eq, h, hs, Option.none_or, Option.bind_some]

/-- Nothing is found exactly if no class on the chain has a method. -/
theorem lookup_eq_none_iff : t.lookup c s = none ↔ ∀ d ∈ t.chain c, t.localMethod? d s = none :=
  List.findSome?_eq_none_iff

/-- What is found is the own method of a class on the chain. -/
theorem exists_local_of_lookup (h : t.lookup c s = some m) :
    ∃ d ∈ t.chain c, t.localMethod? d s = some m :=
  List.exists_of_findSome?_eq_some h

/-- Answers depend on the chain and on the dictionaries along it. -/
theorem lookup_congr (hchain : t'.chain c = t.chain c)
    (hlocal : ∀ d ∈ t.chain c, t'.localMethod? d s = t.localMethod? d s) :
    t'.lookup c s = t.lookup c s := by
  rw [lookup, hchain, lookup]
  generalize t.chain c = l at hlocal
  induction l with
  | nil => rfl
  | cons d l ih =>
    rw [List.findSome?_cons, List.findSome?_cons, hlocal d List.mem_cons_self,
      ih fun x hx => hlocal x (List.mem_cons_of_mem d hx)]

/-! ## Searches -/

/-- A search for a selector, class after class: it ends at the first class that
    defines the selector, or where the chain ends. -/
inductive Searches (t : ClassTable) (s : Selector) : ClassId → Option MethodId → Prop
  | found {c : ClassId} {m : MethodId} (h : t.localMethod? c s = some m) : Searches t s c (some m)
  | missed {c : ClassId} (h : t.localMethod? c s = none) (hs : t.superclass? c = none) :
    Searches t s c none
  | inherited {c d : ClassId} {r : Option MethodId} (h : t.localMethod? c s = none)
    (hs : t.superclass? c = some d) (hd : Searches t s d r) : Searches t s c r

/-- What lookup finds, the search without a cut-off finds too. -/
theorem searches_of_lookup (h : t.lookup c s = some m) : t.Searches s c (some m) := by
  suffices ∀ n c, (t.chainUpTo n c).findSome? (fun d => t.localMethod? d s) = some m →
    t.Searches s c (some m) from this _ c h
  intro n
  induction n with
  | zero => simp [chainUpTo]
  | succ n ih =>
    intro c hc
    rw [chainUpTo, List.findSome?_cons] at hc
    cases hm : t.localMethod? c s with
    | some m' =>
      simp only [hm] at hc
      exact hc ▸ .found hm
    | none =>
      cases hs : t.superclass? c with
      | none => simp [hm, hs] at hc
      | some d =>
        simp only [hm, hs] at hc
        exact .inherited hm hs (ih d hc)

/-- Where the chain ends, the search ends, with the answer of the lookup. -/
theorem searches_of_end {k : Nat} (hk : t.ancestor? k c = none) :
    t.Searches s c (t.lookup c s) := by
  induction k generalizing c with
  | zero => cases hk
  | succ k ih =>
    cases hm : t.localMethod? c s with
    | some m =>
      rw [lookup_eq_of_local hm]
      exact .found hm
    | none =>
      cases hs : t.superclass? c with
      | none =>
        rw [lookup_eq, hm, hs]
        exact .missed hm hs
      | some d =>
        rw [ancestor?, hs] at hk
        rw [lookup_eq_of_super hm hs]
        exact .inherited hm hs (ih hk)

/-- A search has the answer of the lookup, if it ends. It does so if there is something to be
    found, or else if the chain ends. -/
theorem searches_iff {r : Option MethodId} :
    t.Searches s c r ↔ t.lookup c s = r ∧ (r.isSome ∨ ∃ k, t.ancestor? k c = none) := by
  constructor
  · -- The rules of the search are the cases of `lookup_eq`.
    intro h
    induction h with
    | found h => exact ⟨lookup_eq_of_local h, .inl rfl⟩
    | missed h hs => exact ⟨by rw [lookup_eq, h, hs]; rfl, .inr ⟨1, by rw [ancestor?, hs]; rfl⟩⟩
    | inherited h hs hd ih =>
      refine ⟨(lookup_eq_of_super h hs).trans ih.1, ih.2.imp_right ?_⟩
      rintro ⟨k, hk⟩
      exact ⟨k + 1, by rw [ancestor?, hs]; exact hk⟩
  · rintro ⟨rfl, hfound | ⟨k, hk⟩⟩
    · obtain ⟨m, hm⟩ := Option.isSome_iff_exists.1 hfound
      rw [hm]
      exact searches_of_lookup hm
    · exact searches_of_end hk

/-- The chains of all classes end. -/
def ChainsEnd (t : ClassTable) : Prop := ∀ c, ∃ k, t.ancestor? k c = none

/-- If all chains end, a search has the one answer that lookup gives. -/
theorem ChainsEnd.searches_iff (h : t.ChainsEnd) {r : Option MethodId} :
    t.Searches s c r ↔ t.lookup c s = r := by
  rw [ClassTable.searches_iff]
  exact and_iff_left (.inr (h c))

theorem ChainsEnd.searches (h : t.ChainsEnd) (c : ClassId) (s : Selector) :
    t.Searches s c (t.lookup c s) :=
  h.searches_iff.2 rfl

/-- Every class was defined after its superclass. -/
def Founded (t : ClassTable) : Prop := ∀ c d, t.superclass? c = some d → d.index < c.index

theorem founded_iff :
    t.Founded ↔ ∀ i < t.classes.length, ∀ d ∈ t.superclass? ⟨i⟩, d.index < i :=
  ⟨fun h i _ d hd => h ⟨i⟩ d hd, fun h c d hd => h c.index (lt_length_of_superclass? hd) d hd⟩

instance (t : ClassTable) : Decidable t.Founded := decidable_of_iff _ founded_iff.symm

/-- Each step up leads to an older class. -/
theorem Founded.chainsEnd (h : t.Founded) : t.ChainsEnd := by
  suffices ∀ n c, c.index < n → t.ancestor? n c = none from fun c =>
    ⟨c.index + 1, this _ c (Nat.lt_succ_self _)⟩
  -- Every step leads to a class with a smaller number.
  intro n
  induction n with
  | zero => exact fun c hc => absurd hc (Nat.not_lt_zero _)
  | succ n ih =>
    intro c hc
    cases hs : t.superclass? c with
    | none => rw [ancestor?, hs, Option.bind_none]
    | some d =>
      rw [ancestor?, hs, Option.bind_some]
      exact ih d (by have hlt := h c d hs; omega)

/-- The resolution of a key: for a selector it is a search. -/
def Resolves (t : ClassTable) (k : LookupKey) (r : Option MethodId) : Prop :=
  match k.wanted with
  | .selector s => t.Searches s k.cls r
  | .method _ => k.resolve t = r

/-- A key that a search resolves has the same answer by lookup. -/
theorem Resolves.resolve_eq {k : LookupKey} {r : Option MethodId} (h : t.Resolves k r) :
    k.resolve t = r := by
  obtain ⟨cls, wanted⟩ := k
  cases wanted with
  | selector s => exact (searches_iff.1 h).1
  | method m => exact h

/-- If all chains end, every key has an answer. -/
theorem ChainsEnd.resolves (h : t.ChainsEnd) (k : LookupKey) : t.Resolves k (k.resolve t) := by
  obtain ⟨cls, wanted⟩ := k
  cases wanted with
  | selector s => exact h.searches cls s
  | method m => exact rfl

/-! ## Tables that grow -/

/-- All classes on the chain of a class are in the table. -/
def Complete (t : ClassTable) (c : ClassId) : Prop := ∀ d ∈ t.chain c, (t.class? d).isSome

instance (t : ClassTable) (c : ClassId) : Decidable (t.Complete c) :=
  inferInstanceAs (Decidable (∀ d ∈ t.chain c, (t.class? d).isSome))

/-- The superclasses of all classes are in the table. -/
def Closed (t : ClassTable) : Prop := ∀ e ∈ t.classes, ∀ d ∈ e.superclass, (t.class? d).isSome

instance (t : ClassTable) : Decidable t.Closed :=
  inferInstanceAs (Decidable (∀ e ∈ t.classes, ∀ d ∈ e.superclass, (t.class? d).isSome))

theorem Closed.isSome_superclass (h : t.Closed) (hs : t.superclass? c = some d) :
    (t.class? d).isSome := by
  obtain ⟨e, he, hd⟩ := Option.bind_eq_some_iff.1 hs
  exact h e (List.mem_of_getElem? he) d hd

/-- In a table whose superclasses all exist, so do all ancestors of a class. -/
theorem Closed.complete (h : t.Closed) (hc : (t.class? c).isSome) : t.Complete c := by
  intro d hd
  obtain ⟨k, hk⟩ := mem_chain_iff.1 hd
  cases k with
  | zero =>
    cases hk
    exact hc
  | succ k =>
    -- The last step leads to the superclass of a class.
    rw [ancestor?_add k 1] at hk
    obtain ⟨x, -, hx⟩ := Option.bind_eq_some_iff.1 hk
    obtain ⟨y, hy, hd⟩ := Option.bind_eq_some_iff.1 hx
    cases hd
    exact h.isSome_superclass hy

/-- The class that a lookup starts at instead of the receiver's, if there is one,
    is the superclass of a class. -/
def Anchors (t : ClassTable) (start : Option ClassId) : Prop :=
  ∀ d, start = some d → ∃ x, t.superclass? x = some d

theorem anchors_none : t.Anchors none := fun _ h => by cases h

theorem anchors_superclass? (t : ClassTable) (c : ClassId) : t.Anchors (t.superclass? c) :=
  fun _ h => ⟨c, h⟩

/-- A table that has grown: classes keep their superclasses and methods, methods
    are what they were, and no dictionary has got another method. -/
structure Extends (t t' : ClassTable) : Prop where
  cls : ∀ c e, t.class? c = some e → t'.class? c = some e
  localMethod : ∀ c s, t'.localMethod? c s = t.localMethod? c s
  method : ∀ m e, t.method? m = some e → t'.method? m = some e

namespace Extends

theorem refl (t : ClassTable) : t.Extends t := ⟨fun _ _ h => h, fun _ _ => rfl, fun _ _ h => h⟩

theorem trans {t'' : ClassTable} (h : t.Extends t') (h' : t'.Extends t'') : t.Extends t'' where
  cls c e he := h'.cls c e (h.cls c e he)
  localMethod c s := (h'.localMethod c s).trans (h.localMethod c s)
  method m e he := h'.method m e (h.method m e he)

theorem superclass (h : t.Extends t') (hc : (t.class? c).isSome) :
    t'.superclass? c = t.superclass? c := by
  obtain ⟨e, he⟩ := Option.isSome_iff_exists.1 hc
  rw [superclass?, superclass?, he, h.cls c e he]

theorem superclass_eq_some (h : t.Extends t') (hs : t.superclass? c = some d) :
    t'.superclass? c = some d := by
  have hc : (t.class? c).isSome := by
    obtain ⟨e, he, _⟩ := Option.bind_eq_some_iff.1 hs
    rw [he]
    rfl
  rw [h.superclass hc, hs]

theorem anchors (h : t.Extends t') {start : Option ClassId} (hs : t.Anchors start) :
    t'.Anchors start := by
  intro d hd
  obtain ⟨x, hx⟩ := hs d hd
  exact ⟨x, h.superclass_eq_some hx⟩

/-- What was found is found again. -/
theorem lookup_eq_some (h : t.Extends t') (hl : t.lookup c s = some m) :
    t'.lookup c s = some m := by
  generalize hr : some m = r
  have hsearch : t.Searches s c r := hr ▸ searches_of_lookup hl
  clear hl
  -- Chains may be cut off later in the larger table, so the induction is on the search.
  induction hsearch with
  | found hm => exact lookup_eq_of_local (by rw [h.localMethod, hm])
  | missed => cases hr
  | inherited hm hs _ ih =>
    rw [lookup_eq_of_super (by rw [h.localMethod, hm]) (h.superclass_eq_some hs)]
    exact ih hr

/-- A complete chain is still the same chain. -/
theorem ancestor?_eq (h : t.Extends t') (hc : t.Complete c) (k : Nat) :
    t'.ancestor? k c = t.ancestor? k c := by
  induction k with
  | zero => rfl
  | succ k ih =>
    -- The last step starts at a class on the chain, which is in the table.
    rw [ancestor?_add k 1, ancestor?_add k 1, ih]
    cases hk : t.ancestor? k c with
    | none => rfl
    | some d => simp [ancestor?, h.superclass (hc d (mem_chain_iff.2 ⟨k, hk⟩))]

theorem complete (h : t.Extends t') (hc : t.Complete c) : t'.Complete c := by
  intro d hd
  obtain ⟨k, hk⟩ := mem_chain_iff.1 hd
  rw [h.ancestor?_eq hc] at hk
  obtain ⟨e, he⟩ := Option.isSome_iff_exists.1 (hc d (mem_chain_iff.2 ⟨k, hk⟩))
  exact Option.isSome_iff_exists.2 ⟨e, h.cls d e he⟩

/-- What was not found is not found, if no class on the chain was missing. -/
theorem lookup_eq_none (h : t.Extends t') (hc : t.Complete c) (hl : t.lookup c s = none) :
    t'.lookup c s = none := by
  rw [lookup_eq_none_iff] at hl ⊢
  intro d hd
  obtain ⟨k, hk⟩ := mem_chain_iff.1 hd
  rw [h.ancestor?_eq hc] at hk
  rw [h.localMethod]
  exact hl d (mem_chain_iff.2 ⟨k, hk⟩)

/-- What was found from the superclass on is found there again. -/
theorem superLookup_eq_some (h : t.Extends t') (hl : t.superLookup c s = some m) :
    t'.superLookup c s = some m := by
  obtain ⟨d, hd, hl⟩ := Option.bind_eq_some_iff.1 hl
  exact Option.bind_eq_some_iff.2 ⟨d, h.superclass_eq_some hd, h.lookup_eq_some hl⟩

/-- What a key resolved to, it resolves to in the larger table. -/
theorem resolve_eq_some (h : t.Extends t') {k : LookupKey} (hk : k.resolve t = some m) :
    k.resolve t' = some m := by
  obtain ⟨cls, wanted⟩ := k
  cases wanted with
  | selector s => exact h.lookup_eq_some hk
  | method m' =>
    obtain ⟨e, he, rfl⟩ := Option.map_eq_some_iff.1 hk
    exact Option.map_eq_some_iff.2 ⟨e, h.method _ e he, rfl⟩

end Extends

end Warmup.ClassTable
