import Warmup.Engine.Replace
import Warmup.Proofs.Lookup

/-!
# What caches hold

A cache has for each of its classes what a lookup has led to once. What holds of
every entry (`InlineCache.Holds`) is said of the key that the send looks up for
its class, and of its target.

* `Holds.cached`: so it holds of what a hit runs;
* `learned_miss`, `Holds.miss`: a lookup adds at most its own answer;
* `cleaned_cleanup`, `Holds.cleanup`: what is left after a cleanup is current.

Where a cache starts its lookups never changes. What holds of all caches of the
interpreter (`SiteTable.All`) and of native code (`NativeMethod.All`) is carried
through the changes of these tables.
-/

namespace Warmup

namespace InlineCache

variable {P Q : LookupKey → Target → Prop} {c : InlineCache} {r : ClassId} {space : PicSpace}

/-- All entries of a cache have a property, each with the key of its class. -/
def Holds (P : LookupKey → Target → Prop) (c : InlineCache) : Prop :=
  ∀ e ∈ c.entries, P (c.lookupKey e.cls) e.target

theorem Holds.of_stub (h : c.dest = .stub) : c.Holds P := by
  intro e he
  simp [entries, h] at he

theorem Holds.mono (h : c.Holds P) (hPQ : ∀ k t, P k t → Q k t) : c.Holds Q :=
  fun e he => hPQ _ _ (h e he)

/-- What a cache knows for a class is one of its entries. -/
theorem mem_entries_of_cached {t : Target} (h : c.cached? r = some t) : ⟨r, t⟩ ∈ c.entries := by
  rw [cached?] at h
  rw [entries]
  split at h
  · cases h
  · -- A direct call is an entry of its own.
    next e he =>
    split at h
    · next hr =>
      obtain rfl := Option.some.inj h
      simp [← hr]
    · cases h
  · next p hp =>
    obtain ⟨e, he, rfl⟩ := Option.map_eq_some_iff.1 h
    have hr : e.cls = r := by simpa using List.find?_some he
    rw [← hr]
    exact List.mem_of_find?_eq_some he

/-- What holds of all entries holds of what a hit runs. -/
theorem Holds.cached (h : c.Holds P) {t : Target} (hc : c.cached? r = some t) :
    P (c.lookupKey r) t :=
  h _ (mem_entries_of_cached hc)

/-! ## Sends -/

/-- A pic that is installed is all there is; otherwise there is nothing. -/
theorem install_cases (c : InlineCache) (p : Pic) (space : PicSpace) :
    (∃ rest, c.install p space = (true, { c with dest := .pic p }, rest)) ∨
      ∃ rest, c.install p space = (false, { c with dest := .stub }, rest) := by
  have hrelease : (c.release space).1 = { c with dest := .stub } := rfl
  rcases h : (c.release space).2.allocate p with ⟨_ | _, rest⟩
  · exact .inr ⟨rest, by simp only [install, h, hrelease]⟩
  · exact .inl ⟨rest, by simp only [install, h, hrelease]⟩

/-- A send that grows a cache runs its target, and leaves the pic or nothing. -/
theorem grow_cases (c : InlineCache) (p : Pic) (space : PicSpace) (change : Target → Transition)
    (t : Target) :
    (∃ rest, c.grow p space change t = ⟨change t, { c with dest := .pic p }, rest⟩) ∨
      ∃ rest, c.grow p space change t = ⟨.fallback t, { c with dest := .stub }, rest⟩ := by
  rcases c.install_cases p space with ⟨rest, h⟩ | ⟨rest, h⟩
  · exact .inl ⟨rest, by rw [grow, h]⟩
  · exact .inr ⟨rest, by rw [grow, h]⟩

/-- What a send leaves in a cache that did not know its class: at most the
    answer of the lookup is new. -/
structure Learned (c : InlineCache) (r : ClassId) (t : Target) (sent : Sent) : Prop where
  target : sent.transition.target? = some t
  selector : sent.cache.selector = c.selector
  superClass : sent.cache.superClass = c.superClass
  entries : ∀ e ∈ sent.cache.entries, e ∈ c.entries ∨ e = ⟨r, t⟩

/-- A cache that grows gets nothing but the answer. If there is no room, it loses all that it
    had. -/
theorem Learned.of_grow {c₁ : InlineCache} {t : Target} {es : List CacheEntry}
    {change : Target → Transition} (hchange : (change t).target? = some t)
    (hselector : c₁.selector = c.selector) (hsuper : c₁.superClass = c.superClass)
    (hes : ∀ e ∈ es, e ∈ c.entries ∨ e = ⟨r, t⟩) :
    c.Learned r t (c₁.grow (.entries es) space change t) := by
  rcases c₁.grow_cases (.entries es) space change t with ⟨rest, h⟩ | ⟨rest, h⟩
  · rw [h]
    exact ⟨hchange, hselector, hsuper, hes⟩
  · rw [h]
    exact ⟨rfl, hselector, hsuper, fun e he => by cases he⟩

/-- A miss adds the answer of its lookup at most. -/
theorem learned_miss (c : InlineCache) (r : ClassId) (t : Target) (space : PicSpace) (n : Nat) :
    c.Learned r t (c.miss r (some t) space n) := by
  unfold miss
  simp only
  split
  · split
    · exact ⟨rfl, rfl, rfl, fun e he => .inr (by simpa [entries] using he)⟩
    · exact .of_grow rfl rfl rfl fun e he => .inr (List.mem_singleton.1 he)
  · -- A megamorphic pic stays as it is.
    exact ⟨rfl, rfl, rfl, fun e he => by cases he⟩
  · split
    · refine .of_grow rfl rfl rfl fun e he => ?_
      exact (List.mem_append.1 he).imp id List.mem_singleton.1
    · -- The megamorphic pic has no entries, and neither has an empty cache.
      generalize hc : ({ c with misses := c.misses + 1, flags := { c.flags with dirty := true } } :
        InlineCache) = c₁
      rcases c₁.install_cases (.megamorphic (some r)) space with ⟨rest, h⟩ | ⟨rest, h⟩
      · simp only [h]
        exact ⟨rfl, hc ▸ rfl, hc ▸ rfl, fun e he => by cases he⟩
      · simp only [h]
        exact ⟨rfl, hc ▸ rfl, hc ▸ rfl, fun e he => by cases he⟩

/-- What a cache looks up depends on its selector and where it starts. -/
theorem lookupKey_congr {c' : InlineCache} (hselector : c'.selector = c.selector)
    (hsuper : c'.superClass = c.superClass) (r : ClassId) : c'.lookupKey r = c.lookupKey r := by
  rw [lookupKey, hselector, hsuper, lookupKey]

theorem superClass_miss (c : InlineCache) (r : ClassId) (answer : Option Target) (space : PicSpace)
    (n : Nat) :
    (c.miss r answer space n).cache.superClass = c.superClass := by
  cases answer with
  | none => rfl
  | some t => exact (c.learned_miss r t space n).superClass

theorem Holds.hit (h : c.Holds P) (t : Target) (space : PicSpace) :
    (c.hit t space).cache.Holds P := h

/-- If it holds of the answer, it holds of the entries after a miss. -/
theorem Holds.miss (h : c.Holds P) {answer : Option Target}
    (ha : ∀ t, answer = some t → P (c.lookupKey r) t) (space : PicSpace) (n : Nat) :
    (c.miss r answer space n).cache.Holds P := by
  cases answer with
  | none => exact h
  | some t =>
    have hl := c.learned_miss r t space n
    intro e he
    rw [lookupKey_congr hl.selector hl.superClass]
    rcases hl.entries e he with he | rfl
    · exact h e he
    · exact ha t rfl

/-- A cache of a send that never ran. -/
structure Fresh (t : ClassTable) (c : InlineCache) : Prop where
  dest : c.dest = .stub
  anchored : t.Anchors c.superClass

/-- A cache that was just made has no entries, and starts its lookups at a class that is there. -/
theorem fresh_freshAt {t : ClassTable} (s : Selector) {start : Option ClassId}
    (h : t.Anchors start) :
    (freshAt s start).Fresh t := by
  cases start with
  | none => exact ⟨rfl, ClassTable.anchors_none⟩
  | some d => exact ⟨rfl, h⟩

/-! ## Cleanup -/

/-- A cache with no other entries than before, all of them current. -/
structure Cleaned (c : InlineCache) (isCurrent : LookupKey → Target → Bool) (c' : InlineCache) :
    Prop where
  selector : c'.selector = c.selector
  superClass : c'.superClass = c.superClass
  entries : ∀ e ∈ c'.entries, e ∈ c.entries ∧ isCurrent (c.lookupKey e.cls) e.target

/-- What is installed for current entries leaves no other ones. -/
theorem Cleaned.of_install {isCurrent : LookupKey → Target → Bool} {es : List CacheEntry}
    (h : ∀ e ∈ es, e ∈ c.entries ∧ isCurrent (c.lookupKey e.cls) e.target) (space : PicSpace) :
    c.Cleaned isCurrent (c.install (.entries es) space).2.1 := by
  rcases c.install_cases (.entries es) space with ⟨rest, hi⟩ | ⟨rest, hi⟩
  · rw [hi]
    exact ⟨rfl, rfl, h⟩
  · rw [hi]
    exact ⟨rfl, rfl, fun e he => by cases he⟩

/-- A cleanup leaves only entries that were there and are current. -/
theorem cleaned_cleanup (c : InlineCache) (isCurrent : LookupKey → Target → Bool)
    (space : PicSpace) :
    c.Cleaned isCurrent (c.cleanup isCurrent space).2.1 := by
  have hlive : ∀ e ∈ c.entries.filter fun e => isCurrent (c.lookupKey e.cls) e.target,
      e ∈ c.entries ∧ isCurrent (c.lookupKey e.cls) e.target := fun e he => List.mem_filter.1 he
  have hlen := List.length_filter_le (fun e => isCurrent (c.lookupKey e.cls) e.target) c.entries
  unfold cleanup
  simp only
  split
  · next h =>
    -- Nothing was dropped, so every entry is current.
    have hall := List.length_filter_eq_length_iff.1
      (Nat.le_antisymm hlen (Nat.sub_eq_zero_iff_le.1 h))
    exact ⟨rfl, rfl, fun e he => ⟨he, hall e he⟩⟩
  · split
    · exact ⟨rfl, rfl, fun e he => by cases he⟩
    · next e h =>
      rw [h] at hlive
      split
      · exact ⟨rfl, rfl, hlive⟩
      · exact .of_install hlive space
    · exact .of_install hlive space

/-- After a cleanup all entries are current besides. -/
theorem Holds.cleanup (h : c.Holds P) (isCurrent : LookupKey → Target → Bool) (space : PicSpace) :
    (c.cleanup isCurrent space).2.1.Holds fun k t => P k t ∧ isCurrent k t := by
  have hc := c.cleaned_cleanup isCurrent space
  intro e he
  rw [lookupKey_congr hc.selector hc.superClass]
  obtain ⟨hmem, hcur⟩ := hc.entries e he
  exact ⟨h e hmem, hcur⟩

end InlineCache

/-! ## The interpreter's caches -/

namespace SiteTable

variable {C C' : InlineCache → Prop} {t : SiteTable} {m : MethodId} {bci : Bci} {c : InlineCache}

/-- All caches of the interpreter have a property. -/
def All (C : InlineCache → Prop) (t : SiteTable) : Prop := ∀ s ∈ t.sites, C s.cache

theorem All.mono (h : t.All C) (hC : ∀ c, C c → C' c) : t.All C' := fun s hs => hC _ (h s hs)

/-- A table of caches gets no other cache than the one that is put. -/
theorem mem_insertSite {s : InterpretedSite} {l : List InterpretedSite}
    (h : s ∈ insertSite m bci c l) :
    s = ⟨m, bci, c⟩ ∨ s ∈ l := by
  induction l with
  | nil => exact .inl (List.mem_singleton.1 h)
  | cons a l ih =>
    rw [insertSite] at h
    split at h
    · exact (List.mem_cons.1 h).imp id (List.mem_cons_of_mem a)
    · split at h
      · exact List.mem_cons.1 h
      · rcases List.mem_cons.1 h with rfl | h
        · exact .inr List.mem_cons_self
        · exact (ih h).imp id (List.mem_cons_of_mem a)

/-- What holds of all caches holds after one of its kind was put. -/
theorem All.put (h : t.All C) (hc : C c) : (t.put m bci c).All C := by
  intro s hs
  rcases mem_insertSite hs with rfl | hs
  · exact hc
  · exact h s hs

theorem All.ensure (h : t.All C) (hc : C c) : (t.ensure m bci c).All C := by
  rw [SiteTable.ensure]
  split
  · exact h
  · exact h.put hc

theorem All.removeMethod (h : t.All C) (m : MethodId) (space : PicSpace) :
    (t.removeMethod m space).1.All C :=
  fun s hs => h s (List.mem_filter.1 hs).1

/-- A cleanup takes the caches one by one, with what is left of the space for pics. -/
theorem All.cleanup (h : t.All C) {isCurrent : LookupKey → Target → Bool}
    (hC : ∀ c space, C c → C' (c.cleanup isCurrent space).2.1) (space : PicSpace) :
    (t.cleanup isCurrent space).2.1.All C' := by
  suffices ∀ l : List InterpretedSite, (∀ s ∈ l, C s.cache) → ∀ space,
      ∀ s ∈ (cleanupSites isCurrent l space).2.1, C' s.cache from
    this t.sites h space
  intro l hl
  induction l with
  | nil => exact fun _ s hs => by cases hs
  | cons a l ih =>
    intro space s hs
    rcases List.mem_cons.1 hs with rfl | hs
    · exact hC a.cache space (hl a List.mem_cons_self)
    · exact ih (fun s hs => hl s (List.mem_cons_of_mem a hs)) _ s hs

end SiteTable

/-! ## The caches of native code -/

namespace NativeMethod

variable {C C' : InlineCache → Prop} {n : NativeMethod}

/-- All caches of native code have a property. -/
def All (C : InlineCache → Prop) (n : NativeMethod) : Prop := ∀ s ∈ n.sites, C s.cache

theorem All.mono (h : n.All C) (hC : ∀ c, C c → C' c) : n.All C' := fun s hs => hC _ (h s hs)

end NativeMethod

namespace Engine

variable {C C' : InlineCache → Prop} {isCurrent : LookupKey → Target → Bool}

/-- Call sites are cleaned up one by one, as the caches of the interpreter are. -/
theorem all_cleanupCallSites (hC : ∀ c space, C c → C' (c.cleanup isCurrent space).2.1)
    {l : List CallSite} (hl : ∀ s ∈ l, C s.cache) (space : PicSpace) :
    ∀ s ∈ (cleanupCallSites isCurrent l space).2.1, C' s.cache := by
  induction l generalizing space with
  | nil => exact fun s hs => by cases hs
  | cons a l ih =>
    intro s hs
    rcases List.mem_cons.1 hs with rfl | hs
    · exact hC a.cache space (hl a List.mem_cons_self)
    · exact ih (fun s hs => hl s (List.mem_cons_of_mem a hs)) _ s hs

/-- A cleanup changes nothing but caches: those of valid code are cleaned up, and
    those of invalid code stay. -/
structure CleanedCode (isCurrent : LookupKey → Target → Bool) (n n' : NativeMethod) : Prop where
  same : n' = { n with sites := n'.sites }
  valid : n.isValid → ∀ C C', (∀ c space, C c → C' (c.cleanup isCurrent space).2.1) →
    n.All C → n'.All C'
  invalid : ¬n.isValid → n' = n

/-- Code stays where it is in a cleanup. The caches of valid code are cleaned up, those of invalid
    code are left alone. -/
theorem cleanupNatives_cases (isCurrent : LookupKey → Target → Bool) (l : List NativeMethod)
    (space : PicSpace) (i : Nat) :
    (∃ n n', l[i]? = some n ∧ (cleanupNatives isCurrent l space).2.1[i]? = some n' ∧
      CleanedCode isCurrent n n') ∨
      l[i]? = none ∧ (cleanupNatives isCurrent l space).2.1[i]? = none := by
  induction l generalizing space i with
  | nil => exact .inr ⟨rfl, rfl⟩
  | cons n l ih =>
    cases i with
    | zero =>
      by_cases hvalid : n.isValid
      · rw [cleanupNatives, if_pos hvalid]
        refine .inl ⟨n, _, rfl, rfl, rfl, fun _ C C' hC hn => ?_, fun h => absurd hvalid h⟩
        exact all_cleanupCallSites hC hn space
      · rw [cleanupNatives, if_neg hvalid]
        exact .inl ⟨n, n, rfl, rfl, rfl, fun h => absurd h hvalid, fun _ => rfl⟩
    | succ i => exact ih _ i

end Engine

end Warmup
