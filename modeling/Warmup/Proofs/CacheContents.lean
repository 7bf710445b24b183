import Warmup.Proofs.Basic
import Warmup.Proofs.PicLedger

/-!
# What a cache contains

Entries are lost only where the space for pics is exhausted. As long as there is space, the
classes that messages were sent to say all about a cache, and a cleanup takes from it what is
no longer current and nothing else.

* `InlineCache.sendAll`: sends through a cache one after the other, in one space;
* `seen`: the classes that understood the message, in the order in which they came;
* `Transition.after`: what a send does, given the classes seen before it;
* `Tracks`: the entries of a cache are the classes seen, unless these are too many for it. Every
  send keeps this up (`Tracks.dispatch`), and so does a sequence of sends (`seen_sendAll`);
* `cleanup_exact`: what a cleanup leaves, and what it costs or gives back.
-/

namespace Warmup

/-! ## Space -/

namespace PicSpace

/-- An allocation that fails is counted, and no booking takes that back. -/
theorem failures_le_performAll (s : PicSpace) (ops : List Booking) :
    s.failures ≤ (s.performAll ops).failures := by
  induction ops generalizing s with
  | nil => exact Nat.le_refl _
  | cons op ops ih =>
    refine Nat.le_trans ?_ (ih (s.perform op))
    cases op with
    | allocate p =>
      rw [perform, PicSpace.allocate]
      split
      · exact Nat.le_refl _
      · exact Nat.le_succ _
    | free p => exact Nat.le_refl _

end PicSpace

namespace InlineCache

variable {c : InlineCache} {p : Pic} {space : PicSpace} {t : Target}

/-- The space that the pic of a cache takes. -/
def footprint (c : InlineCache) : Nat := Pic.total c.pics

/-- What a cache gives back when it is released. -/
theorem space_release (c : InlineCache) (space : PicSpace) : (c.release space).2 =
    { space with used := space.used - c.footprint, frees := space.frees + c.pics.length } := by
  rcases c with ⟨s, start, flags, _ | e | p, hits, misses⟩
  · rfl
  · rfl
  · rfl

/-- A pic is installed if it fits once the old one is released. -/
theorem install_of_admits (h : (c.release space).2.admits p) :
    c.install p space = (true, { c with dest := .pic p }, { (c.release space).2 with
      used := space.used - c.footprint + p.footprint, allocations := space.allocations + 1 }) := by
  rw [install]
  simp only [PicSpace.allocate, if_pos h]
  rw [space_release]
  rfl

/-- A pic takes the place of the destination if no failure was counted. -/
theorem exists_install_of_failures (h : (c.install p space).2.2.failures = space.failures) :
    ∃ rest, c.install p space = (true, { c with dest := .pic p }, rest) := by
  by_cases hadmits : (c.release space).2.admits p
  · exact ⟨_, install_of_admits hadmits⟩
  · have hfailed : (c.install p space).2.2.failures = space.failures + 1 := by
      rw [space_install, PicSpace.allocate, if_neg hadmits]
      exact congrArg (·.failures + 1) (c.space_release space)
    omega

/-- If no failure is counted, the cache has the pic that it was to get. -/
theorem exists_grow_of_failures {change : Target → Transition}
    (h : (c.grow p space change t).space.failures = space.failures) :
    ∃ rest, c.grow p space change t = ⟨change t, { c with dest := .pic p }, rest⟩ := by
  have hspace : (c.grow p space change t).space = (c.install p space).2.2 := by
    rw [grow]
    split
    · next hi => rw [hi]
    · next hi => rw [hi]
  obtain ⟨rest, hinstall⟩ := exists_install_of_failures (hspace ▸ h)
  exact ⟨rest, by rw [grow, hinstall]⟩

theorem failures_le_dispatch (c : InlineCache) (r : ClassId) (resolve : LookupKey → Option Target)
    (space : PicSpace) (n : Nat) :
    space.failures ≤ (c.dispatch r resolve space n).space.failures := by
  rw [dispatch]
  split
  · exact Nat.le_refl _
  · rw [(c.trades_miss r _ space n).result]
    exact space.failures_le_performAll _

end InlineCache

/-! ## Classes that were seen -/

/-- The classes that understood a message, each once, in the order in which they came. -/
def seen (understands : ClassId → Bool) (rs : List ClassId) : List ClassId :=
  (rs.filter understands).eraseDups

/-- How much a cache has seen that knows `k` classes. -/
def CacheState.ofCount : Nat → CacheState
  | 0 => .empty
  | 1 => .monomorphic
  | _ => .polymorphic

/-- What a send to a class does after `known` classes were seen, if there is room for `n`. -/
def Transition.after (n : Nat) (known : List ClassId) (r : ClassId) : Option Target → Transition
  | none => .notUnderstood
  | some t =>
    if n < known.length then .megamorphicLookup t
    else if r ∈ known then .hit t
    else if known = [] then .filled t
    else if known.length < n then .grown t
    else .wentMegamorphic t

/-- Whether a cache had no room for a further entry. -/
def Transition.isOverflow : Transition → Bool
  | wentMegamorphic _ => true
  | _ => false

section Seen

variable {understands : ClassId → Bool} {rs : List ClassId} {r : ClassId}

/-- A class that does not understand the message is not seen. -/
theorem seen_concat_of_not (h : understands r = false) :
    seen understands (rs ++ [r]) = seen understands rs := by
  rw [seen, List.filter_append, List.filter_singleton, h]
  simp [seen]

/-- A class that understands the message is seen, and stays where it was seen first. -/
theorem seen_concat (rs : List ClassId) (h : understands r) : seen understands (rs ++ [r]) =
    if r ∈ seen understands rs then seen understands rs else seen understands rs ++ [r] := by
  have hfilter : (rs ++ [r]).filter understands = rs.filter understands ++ [r] := by
    rw [List.filter_append, List.filter_cons_of_pos h, List.filter_nil]
  have hmem : r ∈ seen understands rs ↔ r ∈ rs.filter understands := List.mem_eraseDups
  rw [seen, hfilter, List.eraseDups_append, ← seen]
  by_cases hr : r ∈ rs.filter understands
  · rw [if_pos (hmem.2 hr), List.removeAll, List.filter_cons_of_neg (by simpa [h] using hr)]
    simp
  · rw [if_neg (mt hmem.1 hr), List.removeAll, List.filter_cons_of_pos (by simpa [h] using hr)]
    rfl

/-- No class is seen twice. -/
theorem nodup_seen (understands : ClassId → Bool) (rs : List ClassId) :
    (seen understands rs).Nodup :=
  nodup_eraseDups _

/-- Classes that come later are seen after those before. -/
theorem seen_isPrefix (understands : ClassId → Bool) (rs rs' : List ClassId) :
    seen understands rs <+: seen understands (rs ++ rs') := by
  rw [seen, seen, List.filter_append, List.eraseDups_append]
  exact List.prefix_append _ _

/-- A class comes `n`-th exactly if `n` others were seen when it came first. -/
theorem getElem?_seen_iff {i n : Nat} (hi : rs[i]? = some r) (h : understands r) :
    (seen understands (rs.take i)).length = n ∧ r ∉ seen understands (rs.take i) ↔
      (seen understands rs)[n]? = some r ∧ r ∉ rs.take i := by
  have hmem : r ∈ seen understands (rs.take i) ↔ r ∈ rs.take i := by
    simp [seen, List.mem_eraseDups, h]
  have hsplit : rs = rs.take i ++ [r] ++ rs.drop (i + 1) := by
    obtain ⟨hlt, rfl⟩ := List.getElem?_eq_some_iff.1 hi
    simp
  rw [hmem]
  refine and_congr_left fun hnew => ?_
  -- What was seen before, and the class itself, come first.
  have hstart : seen understands (rs.take i) ++ [r] <+: seen understands rs := by
    have hconcat := seen_concat (rs.take i) h
    rw [if_neg (mt hmem.1 hnew)] at hconcat
    rw [← hconcat]
    conv_rhs => rw [hsplit]
    exact seen_isPrefix understands _ _
  have hat : (seen understands rs)[(seen understands (rs.take i)).length]? = some r :=
    List.prefix_iff_getElem?.1 hstart _ (by simp) |>.trans (by simp)
  constructor
  · rintro rfl
    exact hat
  · intro hn
    exact (List.getElem?_inj (List.getElem?_eq_some_iff.1 hat).1 (nodup_seen understands rs)).1
      (hat.trans hn.symm)

end Seen

/-- A cache gives up its entries at one point only: when it is full and one more class comes. -/
theorem Transition.after_eq_wentMegamorphic_iff {n : Nat} (hn : 1 ≤ n) {known : List ClassId}
    {r : ClassId} {answer : Option Target} {t : Target} :
    Transition.after n known r answer = .wentMegamorphic t ↔ (known.length = n ∧ r ∉ known) ∧
      answer = some t := by
  rcases answer with _ | t'
  · simp [after]
  · rw [after]
    split
    · next hlt => simp [Nat.ne_of_gt hlt]
    · split
      · next hr => simp [hr]
      · next hr =>
        split
        · next hnil =>
          subst hnil
          simp [(Nat.ne_of_lt hn)]
        · split
          · next hlt => simp [Nat.ne_of_lt hlt]
          · next hle hge =>
            have hlen : known.length = n := by omega
            simp [hlen, hr]

theorem Transition.isOverflow_after {n : Nat} (hn : 1 ≤ n) {known : List ClassId} {r : ClassId}
    {answer : Option Target} :
    (Transition.after n known r answer).isOverflow =
      decide ((known.length = n ∧ r ∉ known) ∧ answer.isSome) := by
  have hiff {tr : Transition} : tr.isOverflow = true ↔ ∃ t, tr = .wentMegamorphic t := by
    cases tr <;> simp [isOverflow]
  rw [Bool.eq_iff_iff, hiff, decide_eq_true_eq, Option.isSome_iff_exists]
  simp only [after_eq_wentMegamorphic_iff hn, exists_and_left]

section Overflow

variable {n : Nat} (answer : ClassId → Option Target) (hn : 1 ≤ n)
include hn

/-- What a step adds to the count of overflows is what it adds to the answer to whether more classes
    were seen than a cache can hold. -/
theorem isOverflow_seen (rs : List ClassId) (r : ClassId) :
    (if (Transition.after n (seen (fun r => (answer r).isSome) rs) r (answer r)).isOverflow then 1
      else 0) +
        (if n < (seen (fun r => (answer r).isSome) rs).length then 1 else 0) =
      if n < (seen (fun r => (answer r).isSome) (rs ++ [r])).length then 1 else 0 := by
  simp only [Transition.isOverflow_after hn, decide_eq_true_eq]
  rcases ht : answer r with _ | t
  · rw [seen_concat_of_not (by simp [ht])]
    simp
  · rw [seen_concat rs (by simp [ht])]
    generalize seen (fun r => (answer r).isSome) rs = known
    by_cases hr : r ∈ known
    · simp [hr]
    · -- A class that is new makes the difference just where the cache is full.
      rcases Nat.lt_trichotomy n known.length with hlt | rfl | hlt
      · simp [hr, hlt, Nat.ne_of_gt hlt, Nat.lt_succ_of_lt hlt]
      · simp [hr]
      · simp [hr, Nat.ne_of_lt hlt, Nat.not_lt.2 hlt, Nat.not_lt.2 (Nat.le_of_lt hlt)]

/-- At most one send is to a class that is one too many, and it comes if there is such a class. -/
theorem countP_isOverflow (rs rs' : List ClassId) :
    (rs'.mapIdx fun i r => Transition.after n
      (seen (fun r => (answer r).isSome) (rs ++ rs'.take i)) r
        (answer r)).countP Transition.isOverflow +
          (if n < (seen (fun r => (answer r).isSome) rs).length then 1 else 0) =
      if n < (seen (fun r => (answer r).isSome) (rs ++ rs')).length then 1 else 0 := by
  induction rs' generalizing rs with
  | nil => simp
  | cons r rs' ih =>
    have hrest := ih (rs ++ [r])
    simp only [List.append_assoc, List.singleton_append] at hrest
    rw [← hrest, ← isOverflow_seen answer hn rs r, List.mapIdx_cons,
      List.countP_cons, Nat.add_assoc]
    simp only [List.take_succ_cons, List.take_zero, List.append_nil]

end Overflow

namespace InlineCache

/-- Some sends through a cache: what each of them did, the cache and the space after them. -/
structure History where
  transitions : List Transition := []
  cache : InlineCache
  space : PicSpace

/-- Sends to some classes, one after the other, with the same answers of lookups. -/
def sendAll (resolve : LookupKey → Option Target) (n : Nat) (c : InlineCache) (space : PicSpace) :
    List ClassId → History
  | [] => { cache := c, space := space }
  | r :: rs =>
    let sent := c.dispatch r resolve space n
    let rest := sendAll resolve n sent.cache sent.space rs
    { rest with transitions := sent.transition :: rest.transitions }

/-- Whether lookups answer for a class. -/
def understands (c : InlineCache) (resolve : LookupKey → Option Target) (r : ClassId) : Bool :=
  (resolve (c.lookupKey r)).isSome

/-- The entries of a cache with room for `n` classes are for those in `known`. If these are too
    many, it knows only the last class that came. -/
structure Knows (n : Nat) (known : List ClassId) (last : Option ClassId) (c : InlineCache) :
    Prop where
  few : known.length ≤ n → ¬c.isMegamorphic ∧ c.entries.map (·.cls) = known
  many : n < known.length → c.dest = .pic (.megamorphic last)

variable {resolve : LookupKey → Option Target} {new c c' : InlineCache} {rs known : List ClassId}
  {last : Option ClassId} {r : ClassId} {t : Target} {n : Nat} {space : PicSpace}

theorem Knows.of_dest (h : c.Knows n known last) (hd : c'.dest = c.dest) :
    c'.Knows n known last where
  few hlen := by simpa only [isMegamorphic, entries, hd] using h.few hlen
  many hlen := hd.trans (h.many hlen)

theorem Knows.of_direct {e : CacheEntry} (hd : c.dest = .direct e) (hknown : known = [e.cls])
    (hn : 1 ≤ n) :
    c.Knows n known last where
  few _ := ⟨by simp [isMegamorphic, hd], by simp [entries, hd, hknown]⟩
  many hlt := absurd hn (by simpa [hknown] using hlt)

theorem Knows.of_entries {es : List CacheEntry} (hd : c.dest = .pic (.entries es))
    (hknown : known = es.map (·.cls)) (hlen : es.length ≤ n) : c.Knows n known last where
  few _ :=
    ⟨by simp [isMegamorphic, Pic.isMegamorphic, hd], by simp [entries, Pic.toList, hd, hknown]⟩
  many hlt := absurd hlen (by simpa [hknown] using hlt)

theorem Knows.of_megamorphic (hd : c.dest = .pic (.megamorphic last)) (hlen : n < known.length) :
    c.Knows n known last where
  few hle := absurd hle (Nat.not_le.2 hlen)
  many _ := hd

/-- A class that lookups answer for and the cache does not know is added, if there is space. -/
theorem Knows.miss (h : c.Knows n known last) (hreg : c.Regular n) (hn : 1 ≤ n)
    (hc : c.cached? r = none)
    (hspace : (c.miss r (some t) space n).space.failures = space.failures) :
    (c.miss r (some t) space n).transition = .after n known r (some t) ∧
      (c.miss r (some t) space n).cache.Knows n (if r ∈ known then known else known ++ [r])
        (some r) := by
  by_cases hlen : n < known.length
  · have hm : c.isMegamorphic := by simp [isMegamorphic, h.many hlen, Pic.isMegamorphic]
    rw [miss_of_megamorphic hm]
    refine ⟨by rw [Transition.after, if_pos hlen], .of_megamorphic rfl ?_⟩
    split
    · exact hlen
    · rw [List.length_append]
      exact Nat.lt_add_right _ hlen
  · obtain ⟨hm, hentries⟩ := h.few (Nat.le_of_not_lt hlen)
    have hnew : r ∉ known := hentries ▸ notMem_of_cached?_eq_none hc
    have hlength : c.entries.length = known.length := by rw [← hentries, List.length_map]
    rw [if_neg hnew]
    by_cases hd : c.dest = .stub
    · have hknown : known = [] := by rw [← hentries, entries, hd, List.map_nil]
      rw [Transition.after, if_neg hlen, if_neg hnew, if_pos hknown, hknown]
      rw [miss_of_stub hd] at hspace ⊢
      split
      · exact ⟨rfl, .of_direct rfl rfl hn⟩
      · next ht =>
        rw [if_neg ht] at hspace
        obtain ⟨rest, hgrow⟩ := exists_grow_of_failures hspace
        rw [hgrow]
        exact ⟨rfl, .of_entries rfl rfl hn⟩
    · have hknown : known ≠ [] := by
        rw [← hentries]
        simpa using entries_ne_nil hreg hd hm
      rw [Transition.after, if_neg hlen, if_neg hnew, if_neg hknown]
      by_cases hroom : known.length < n
      · rw [if_pos hroom]
        rw [miss_of_room hd hm (hlength ▸ hroom)] at hspace ⊢
        obtain ⟨rest, hgrow⟩ := exists_grow_of_failures hspace
        rw [hgrow]
        refine ⟨rfl, .of_entries rfl ?_ ?_⟩
        · rw [List.map_append, hentries, List.map_singleton]
        · rw [List.length_append, hlength]
          exact hroom
      · -- All `n` entries are taken, so this class is the one too many.
        rw [if_neg hroom]
        have hfull : n ≤ c.entries.length := hlength ▸ Nat.le_of_not_lt hroom
        have hfailures :
            (c.missed.install (.megamorphic (some r)) space).2.2.failures = space.failures := by
          rcases hi : c.missed.install (.megamorphic (some r)) space with ⟨_ | _, c', rest⟩
          · rwa [miss_of_full hd hm hfull r t space hi] at hspace
          · rwa [miss_of_full hd hm hfull r t space hi] at hspace
        obtain ⟨rest, hinstall⟩ := exists_install_of_failures hfailures
        rw [miss_of_full hd hm hfull r t space hinstall]
        refine ⟨rfl, .of_megamorphic rfl ?_⟩
        rw [List.length_append]
        exact Nat.lt_succ_of_le (Nat.le_of_not_lt hroom)

/-- What the cache `new` has become by sends to the classes `rs`. -/
structure Tracks (resolve : LookupKey → Option Target) (n : Nat) (new : InlineCache)
    (rs : List ClassId) (c : InlineCache) : Prop where
  regular : c.Regular n
  lookupKey : c.lookupKey = new.lookupKey
  holds : c.Holds fun k t => resolve k = some t
  knows :
    c.Knows n (seen (new.understands resolve) rs) (rs.filter (new.understands resolve)).getLast?

/-- A send for which there is space does what the classes seen before say. -/
theorem Tracks.dispatch (h : Tracks resolve n new rs c) (hn : 1 ≤ n)
    (hspace : (c.dispatch r resolve space n).space.failures = space.failures) :
    (c.dispatch r resolve space n).transition =
        .after n (seen (new.understands resolve) rs) r (resolve (new.lookupKey r)) ∧
      Tracks resolve n new (rs ++ [r]) (c.dispatch r resolve space n).cache := by
  have hages := c.ages_dispatch r resolve space n
  have hkey : (c.dispatch r resolve space n).cache.lookupKey = new.lookupKey :=
    (funext (lookupKey_congr hages.selector hages.superClass)).trans h.lookupKey
  suffices hknows : (c.dispatch r resolve space n).transition =
        .after n (seen (new.understands resolve) rs) r (resolve (new.lookupKey r)) ∧
      (c.dispatch r resolve space n).cache.Knows n (seen (new.understands resolve) (rs ++ [r]))
        ((rs ++ [r]).filter (new.understands resolve)).getLast? from
    ⟨hknows.1, h.regular.dispatch hn r resolve space, hkey, h.holds.dispatch r space n, hknows.2⟩
  rw [← h.lookupKey]
  rcases hc : c.cached? r with _ | t
  · rcases ht : resolve (c.lookupKey r) with _ | t
    · have hnot : new.understands resolve r = false := by rw [understands, ← h.lookupKey, ht]; rfl
      rw [InlineCache.dispatch, hc, ht, seen_concat_of_not hnot, List.filter_append,
        List.filter_cons_of_neg (by simp [hnot]), List.filter_nil, List.append_nil]
      exact ⟨rfl, h.knows.of_dest rfl⟩
    · have hunderstood : new.understands resolve r := by rw [understands, ← h.lookupKey, ht]; rfl
      rw [InlineCache.dispatch, hc, ht] at hspace
      rw [InlineCache.dispatch, hc, ht, seen_concat rs hunderstood, List.filter_append,
        List.filter_cons_of_pos hunderstood, List.filter_nil, List.getLast?_append]
      exact h.knows.miss h.regular hn hc hspace
  · have ht : resolve (c.lookupKey r) = some t := h.holds.cached hc
    have hunderstood : new.understands resolve r := by rw [understands, ← h.lookupKey, ht]; rfl
    -- A cache that knows a class has entries, so it is not megamorphic.
    have hlen : ¬n < (seen (new.understands resolve) rs).length := by
      intro hlt
      simp [cached?, h.knows.many hlt, Pic.find?, Pic.toList] at hc
    have hr : r ∈ seen (new.understands resolve) rs := by
      rw [← (h.knows.few (Nat.le_of_not_lt hlen)).2]
      exact List.mem_map.2 ⟨_, mem_entries_of_cached hc, rfl⟩
    rw [InlineCache.dispatch, hc, ht, seen_concat rs hunderstood, if_pos hr,
      Transition.after, if_neg hlen, if_pos hr]
    refine ⟨rfl, ?_, fun hlt => absurd hlt hlen⟩
    exact (h.knows.of_dest rfl).few

theorem failures_le_sendAll (resolve : LookupKey → Option Target) (n : Nat) (c : InlineCache)
    (space : PicSpace) (rs : List ClassId) :
    space.failures ≤ (c.sendAll resolve n space rs).space.failures := by
  induction rs generalizing c space with
  | nil => exact Nat.le_refl _
  | cons r rs ih => exact Nat.le_trans (c.failures_le_dispatch r resolve space n) (ih _ _)

/-- Sends for which there is space do what the classes seen before each of them say. -/
theorem Tracks.sendAll (h : Tracks resolve n new rs c) (hn : 1 ≤ n) {rs' : List ClassId}
    (hspace : (c.sendAll resolve n space rs').space.failures = space.failures) :
    (c.sendAll resolve n space rs').transitions = rs'.mapIdx (fun i r =>
        .after n (seen (new.understands resolve) (rs ++ rs'.take i)) r
          (resolve (new.lookupKey r))) ∧
      Tracks resolve n new (rs ++ rs') (c.sendAll resolve n space rs').cache := by
  induction rs' generalizing rs c space with
  | nil => exact ⟨rfl, by rwa [List.append_nil]⟩
  | cons r rs' ih =>
    have hle := c.failures_le_dispatch r resolve space n
    have hle' := failures_le_sendAll resolve n (c.dispatch r resolve space n).cache
      (c.dispatch r resolve space n).space rs'
    -- Failures are never taken back, so there was none at the first send either.
    have hfirst : (c.dispatch r resolve space n).space.failures = space.failures :=
      Nat.le_antisymm (Nat.le_trans hle' (Nat.le_of_eq hspace)) hle
    obtain ⟨htransition, htracks⟩ := h.dispatch hn hfirst
    obtain ⟨htransitions, htracks⟩ := ih htracks (hspace.trans hfirst.symm)
    rw [List.append_assoc, List.singleton_append] at htracks
    refine ⟨?_, htracks⟩
    rw [List.mapIdx_cons, InlineCache.sendAll, htransition, htransitions,
      List.take_zero, List.append_nil]
    simp only [List.take_succ_cons, List.append_assoc, List.singleton_append]

/-- The state of a cache that is not megamorphic is the number of its entries. -/
theorem Regular.state_eq (h : c.Regular n) (hm : ¬c.isMegamorphic) :
    c.state = .ofCount c.entries.length := by
  rcases c with ⟨s, start, flags, _ | e | es | last, hits, misses⟩
  · rfl
  · rfl
  · rcases es with _ | ⟨e, _ | ⟨e', es⟩⟩
    · exact absurd rfl h.nonempty
    · rfl
    · rfl
  · exact absurd rfl hm

theorem tracks_new {s : Selector} {start : Option ClassId} (h : new.New s start) :
    Tracks resolve n new [] new where
  regular := .of_stub h.dest h.megamorphic
  lookupKey := rfl
  holds := .of_stub h.dest
  knows := ⟨fun _ => ⟨by simp [isMegamorphic, h.dest], by simp [entries, h.dest, seen]⟩,
    fun hlt => absurd hlt (Nat.not_lt_zero n)⟩

/-- The classes that were seen say what becomes of a cache, as long as there is space. If there
    is room for them, they are its entries, with what lookups answer; otherwise it knows
    only the last class that understood the message. They say what each send does, too: the
    first send to the class that is one too many makes the cache megamorphic, and after that
    every send is looked up. -/
theorem seen_sendAll (s : Selector) (start : Option ClassId) (flags : List CacheFlags)
    (resolve : LookupKey → Option Target) (hn : 1 ≤ n) (rs : List ClassId) {space : PicSpace}
    (hspace : ((made s start flags).sendAll resolve n space rs).space.failures = space.failures) :
    let new := made s start flags
    let history := new.sendAll resolve n space rs
    let known := seen (new.understands resolve) rs
    (known.length ≤ n → history.cache.entries.map (·.cls) = known ∧
      (∀ e ∈ history.cache.entries, resolve (new.lookupKey e.cls) = some e.target) ∧
      history.cache.state = .ofCount known.length) ∧
    (n < known.length → history.cache.state = .megamorphic ∧
      history.cache.dest = .pic (.megamorphic (rs.filter (new.understands resolve)).getLast?)) ∧
    history.transitions = rs.mapIdx (fun i r =>
      .after n (seen (new.understands resolve) (rs.take i)) r (resolve (new.lookupKey r))) ∧
    history.transitions.countP Transition.isOverflow = (if n < known.length then 1 else 0) ∧
    ∀ i r t, rs[i]? = some r → resolve (new.lookupKey r) = some t →
      (history.transitions[i]? = some (.wentMegamorphic t) ↔ known[n]? = some r ∧ r ∉ rs.take i) ∧
      ∀ j t', j < i → history.transitions[j]? = some (.wentMegamorphic t') →
        history.transitions[i]? = some (.megamorphicLookup t) := by
  intro new history known
  obtain ⟨htransitions, htracks⟩ := (tracks_new (new_made s start flags)).sendAll hn hspace
  simp only [List.nil_append] at htransitions htracks
  have htransition (i : Nat) (r : ClassId) (hr : rs[i]? = some r) : history.transitions[i]? =
      some
      (.after n (seen (new.understands resolve) (rs.take i)) r (resolve (new.lookupKey r))) := by
    rw [htransitions, List.getElem?_mapIdx, hr, Option.map_some]
  refine ⟨fun hlen => ?_, fun hlt => ?_, htransitions, ?_,
    fun i r t hr ht => ⟨?_, fun j t' hj hwent => ?_⟩⟩
  · obtain ⟨hm, hentries⟩ := htracks.knows.few hlen
    refine ⟨hentries, fun e he => htracks.lookupKey ▸ htracks.holds e he, ?_⟩
    rw [htracks.regular.state_eq hm, ← List.length_map (·.cls), hentries]
  · have hdest := htracks.knows.many hlt
    exact ⟨by rw [state, hdest]; rfl, hdest⟩
  · rw [htransitions]
    exact countP_isOverflow (fun r => resolve (new.lookupKey r)) hn [] rs
  · have hunderstood : new.understands resolve r := by rw [understands, ht]; rfl
    rw [htransition i r hr, Option.some_inj, Transition.after_eq_wentMegamorphic_iff hn,
      getElem?_seen_iff hr hunderstood]
    exact and_iff_left ht
  · obtain ⟨r', hr'⟩ : ∃ r', rs[j]? = some r' :=
      ⟨_, List.getElem?_eq_getElem (Nat.lt_trans hj (List.getElem?_eq_some_iff.1 hr).1)⟩
    rw [htransition j r' hr', Option.some_inj, Transition.after_eq_wentMegamorphic_iff hn] at hwent
    obtain ⟨⟨hlen, hnew⟩, ht'⟩ := hwent
    have hunderstood : new.understands resolve r' := by rw [understands, ht']; rfl
    -- The class of the earlier send is one too many, and it was seen before this send.
    have hlater : n < (seen (new.understands resolve) (rs.take i)).length := by
      have hconcat := seen_concat (rs.take j) hunderstood
      rw [if_neg hnew] at hconcat
      have hstart : rs.take j ++ [r'] <+: rs.take i := by
        rw [← Option.toList_some, ← hr', ← List.take_add_one]
        exact List.take_prefix_take_left hj
      obtain ⟨rest, hrest⟩ := hstart
      have hle := (seen_isPrefix (new.understands resolve) (rs.take j ++ [r']) rest).length_le
      rw [hrest, hconcat, List.length_append, hlen] at hle
      exact hle
    rw [htransition i r hr, ht, Transition.after, if_pos hlater]

/-- Four classes, of which the second one understands nothing. -/
def mixedReceivers : List ClassId := [⟨10⟩, ⟨9⟩, ⟨11⟩, ⟨10⟩, ⟨12⟩, ⟨9⟩, ⟨11⟩]

/-- The third class that understands the message is one too many for a cache with room for two. -/
theorem seen_sendAll_mixedReceivers :
    let new := made ⟨0⟩ none []
    let history := new.sendAll methodByClass 2 {} mixedReceivers
    history.space.failures = 0 ∧
      seen (new.understands methodByClass) mixedReceivers = [⟨10⟩, ⟨11⟩, ⟨12⟩] ∧
      history.cache.dest = .pic (.megamorphic (some ⟨11⟩)) ∧
      history.transitions.countP Transition.isOverflow = 1 ∧
      history.transitions[4]? = some (.wentMegamorphic (.interpreted ⟨12⟩)) ∧
      history.transitions[6]? = some (.megamorphicLookup (.interpreted ⟨11⟩)) := by
  have hspace : ((made ⟨0⟩ none []).sendAll methodByClass 2 {} mixedReceivers).space.failures = 0 :=
    rfl
  have hseen : seen ((made ⟨0⟩ none []).understands methodByClass) mixedReceivers =
      [⟨10⟩, ⟨11⟩, ⟨12⟩] := rfl
  have hall := seen_sendAll ⟨0⟩ none [] methodByClass (by decide : 1 ≤ 2) mixedReceivers hspace
  simp only [hseen] at hall
  obtain ⟨-, hmany, -, hcount, hsends⟩ := hall
  have hwent := (hsends 4 ⟨12⟩ (.interpreted ⟨12⟩) rfl rfl).1.2 ⟨rfl, by decide⟩
  exact ⟨hspace, hseen, (hmany (by decide)).2, hcount, hwent,
    (hsends 6 ⟨11⟩ (.interpreted ⟨11⟩) rfl rfl).2 4 _ (by decide) hwent⟩

/-! ## Cleanup -/

section Cleanup

variable {isCurrent : LookupKey → Target → Bool}

/-- What a cleanup that drops `removed` entries leaves of a cache and of the space. -/
structure Purged (c : InlineCache) (isCurrent : LookupKey → Target → Bool) (space : PicSpace)
    (removed : Nat) (c' : InlineCache) (space' : PicSpace) : Prop where
  /-- The entries that are current, in their order. -/
  entries : c'.entries = c.entries.filter fun e => isCurrent (c.lookupKey e.cls) e.target
  removed : removed = c.entries.countP fun e => !isCurrent (c.lookupKey e.cls) e.target
  /-- Nothing else about the cache changes, but for one flag. -/
  rest :
    c' = { c with dest := c'.dest, flags := { c.flags with megamorphic := c'.flags.megamorphic } }
  used : space'.used + c.footprint = space.used + c'.footprint
  capacity : space'.capacity = space.capacity
  failures : space'.failures = space.failures

/-- A cleanup does nothing to a cache whose entries are all current. -/
theorem cleanup_of_current (h : ∀ e ∈ c.entries, isCurrent (c.lookupKey e.cls) e.target)
    (space : PicSpace) :
    c.cleanup isCurrent space = (0, c, space) := by
  have hlive : c.entries.filter (fun e => isCurrent (c.lookupKey e.cls) e.target) = c.entries :=
    List.filter_eq_self.2 h
  rw [cleanup]
  simp only [hlive, Nat.sub_self, if_true]

/-- What is left of the entries, and how many are dropped, adds up. -/
theorem length_filter_add_countP (l : List CacheEntry) (p : CacheEntry → Bool) :
    l.length - (l.filter p).length = l.countP fun e => !p e := by
  have hsum := l.length_eq_countP_add_countP p
  simp only [Bool.not_eq_true, Bool.decide_eq_false] at hsum
  rw [← List.countP_eq_length_filter]
  omega

/-- Several entries are in a pic, which takes as much space as there are entries. -/
theorem footprint_of_several (h : 1 < c.entries.length) : c.footprint = c.entries.length := by
  rcases c with ⟨s, start, flags, _ | e | es | last, hits, misses⟩
  · cases h
  · exact absurd h (Nat.lt_irrefl 1)
  · rfl
  · cases h

section Purged

variable {live : List CacheEntry} {removed : Nat} (hused : c.footprint ≤ space.used)
  (hlive : c.entries.filter (fun e => isCurrent (c.lookupKey e.cls) e.target) = live)
  (hremoved : removed = c.entries.countP fun e => !isCurrent (c.lookupKey e.cls) e.target)
include hused hlive hremoved

/-- The pic is given back, and nothing takes its place in the space. -/
theorem Purged.of_release (hentries : c'.entries = live)
    (hrest : c' = { c with
      dest := c'.dest, flags := { c.flags with megamorphic := c'.flags.megamorphic } })
    (hpics : c'.pics = []) : c.Purged isCurrent space removed c' (c.release space).2 where
  entries := hentries.trans hlive.symm
  removed := hremoved
  rest := hrest
  used := by
    rw [space_release, footprint, footprint, hpics]
    exact Nat.sub_add_cancel hused
  capacity := by rw [space_release]
  failures := by rw [space_release]

/-- A smaller pic takes the place of the one that is given back. -/
theorem Purged.of_install (hfits : space.used ≤ space.capacity) (hne : live ≠ [])
    (hlt : live.length < c.entries.length) : c.Purged isCurrent space removed
      (c.install (.entries live) space).2.1 (c.install (.entries live) space).2.2 := by
  have hpos := List.length_pos_iff.2 hne
  have hfootprint : c.footprint = c.entries.length := footprint_of_several (by omega)
  have hadmits : (c.release space).2.admits (.entries live) := by
    have hroom : space.used - c.footprint + live.length ≤ space.capacity := by omega
    rw [space_release]
    exact Bool.and_eq_true_iff.2 ⟨rfl, decide_eq_true hroom⟩
  rw [install_of_admits hadmits, space_release]
  refine ⟨hlive.symm, hremoved, rfl, ?_, rfl, rfl⟩
  show space.used - c.footprint + live.length + c.footprint = space.used + live.length
  omega

end Purged

/-- A pic that is rebuilt is smaller than the one that it replaces, so there is space for it. -/
theorem purged_cleanup (isCurrent : LookupKey → Target → Bool) (hused : c.footprint ≤ space.used)
    (hfits : space.used ≤ space.capacity) :
    c.Purged isCurrent space (c.cleanup isCurrent space).1 (c.cleanup isCurrent space).2.1
      (c.cleanup isCurrent space).2.2 := by
  have hremoved := length_filter_add_countP c.entries fun e => isCurrent
    (c.lookupKey e.cls) e.target
  by_cases hall : ∀ e ∈ c.entries, isCurrent (c.lookupKey e.cls) e.target
  · rw [cleanup_of_current hall]
    refine ⟨(List.filter_eq_self.2 hall).symm, ?_, rfl, rfl, rfl, rfl⟩
    rw [← hremoved, List.filter_eq_self.2 hall, Nat.sub_self]
  · -- Some entry is to go, so what is left needs a smaller pic, or none.
    have hlt : (c.entries.filter fun e => isCurrent (c.lookupKey e.cls) e.target).length <
        c.entries.length :=
      Nat.lt_of_le_of_ne (List.length_filter_le _ _) (mt List.length_filter_eq_length_iff.1 hall)
    rw [cleanup]
    simp only
    generalize hlive :
      c.entries.filter (fun e => isCurrent (c.lookupKey e.cls) e.target) = live at hremoved hlt
    rw [if_neg (Nat.sub_ne_zero_of_lt hlt)]
    rcases live with _ | ⟨e, _ | ⟨e', live⟩⟩
    · exact .of_release hused hlive hremoved rfl rfl rfl
    · simp only
      split
      · exact .of_release hused hlive hremoved rfl rfl rfl
      · exact .of_install hused hlive hremoved hfits (List.cons_ne_nil _ _) hlt
    · exact .of_install hused hlive hremoved hfits (List.cons_ne_nil _ _) hlt

/-- A cleanup drops the entries that are not current, and no others, whatever has happened to the
    cache before: if the space has counted the pic of the cache and is not overdrawn, there is
    space for what is left. It says how many entries it has dropped, leaves all else about the
    cache as it was, and a megamorphic cache altogether, and the space changes by what the
    cache takes less. A second cleanup finds nothing to do. -/
theorem cleanup_exact (c : InlineCache) (isCurrent : LookupKey → Target → Bool) {space : PicSpace}
    (hused : c.footprint ≤ space.used) (hfits : space.used ≤ space.capacity) {removed : Nat}
    {c' : InlineCache} {space' : PicSpace} (h : c.cleanup isCurrent space = (removed, c', space')) :
    c'.entries = c.entries.filter (fun e => isCurrent (c.lookupKey e.cls) e.target) ∧
      removed = c.entries.countP (fun e => !isCurrent (c.lookupKey e.cls) e.target) ∧
      c' = { c with
        dest := c'.dest, flags := { c.flags with megamorphic := c'.flags.megamorphic } } ∧
      (c.isMegamorphic → removed = 0 ∧ c' = c ∧ space' = space) ∧
      space'.used + c.footprint = space.used + c'.footprint ∧ space'.capacity = space.capacity ∧
      space'.failures = space.failures ∧ c'.cleanup isCurrent space' = (0, c', space') := by
  have hpurged : c.Purged isCurrent space removed c' space' := by
    have hcleanup := purged_cleanup isCurrent hused hfits
    rwa [h] at hcleanup
  refine ⟨hpurged.entries, hpurged.removed, hpurged.rest, fun hm => ?_,
    hpurged.used, hpurged.capacity, hpurged.failures, ?_⟩
  · rw [cleanup_of_current (by simp [entries_of_megamorphic hm])] at h
    obtain ⟨rfl, rfl, rfl⟩ : 0 = removed ∧ c = c' ∧ space = space' := by simpa using h
    exact ⟨rfl, rfl, rfl⟩
  · -- What is left is current, so a second cleanup finds nothing to do.
    refine cleanup_of_current (fun e he => ?_) space'
    rw [hpurged.entries] at he
    have hkey : c'.lookupKey = c.lookupKey := by rw [hpurged.rest]; rfl
    rw [hkey]
    exact (List.mem_filter.1 he).2

end Cleanup

/-- Three classes fill a space that has room for three entries. -/
def fullHouse : History :=
  (made ⟨0⟩ none []).sendAll methodByClass 3 { capacity := 3 } [⟨10⟩, ⟨11⟩, ⟨12⟩]

/-- The second class goes, and the others stay in a smaller pic. -/
theorem cleanup_exact_fullHouse : ∃ removed c' space',
    fullHouse.cache.footprint = 3 ∧ fullHouse.space.used = 3 ∧ fullHouse.space.capacity = 3 ∧
      fullHouse.cache.cleanup (fun k _ => k.cls ≠ ⟨11⟩) fullHouse.space = (removed, c', space') ∧
      c'.entries = [⟨⟨10⟩, .interpreted ⟨10⟩⟩, ⟨⟨12⟩, .interpreted ⟨12⟩⟩] ∧ removed = 1 ∧
        space'.used + 3 = 3 + 2 ∧
      c'.cleanup (fun k _ => k.cls ≠ ⟨11⟩) space' = (0, c', space') := by
  obtain ⟨removed, c', space', h, hfootprint⟩ : ∃ removed c' space',
      fullHouse.cache.cleanup (fun k _ => k.cls ≠ ⟨11⟩) fullHouse.space = (removed, c', space') ∧
      c'.footprint = 2 :=
    ⟨_, _, _, rfl, rfl⟩
  obtain ⟨hentries, hremoved, -, -, hused, -, -, hagain⟩ :=
    cleanup_exact fullHouse.cache (fun k _ => k.cls ≠ ⟨11⟩) (by decide) (by decide) h
  rw [hfootprint] at hused
  exact ⟨removed, c', space', rfl, rfl, rfl, h, hentries, hremoved, hused, hagain⟩

end InlineCache

end Warmup
