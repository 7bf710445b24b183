import Warmup.Proofs.CacheEntries

/-!
# The life of a cache

A cache is made for its send without entries (`InlineCache.made`). After that messages are
sent through it, and now and then it is cleared or cleaned up (`CacheEvent`); in between,
other caches may use the space for pics in any way, so every event comes with a space of
its own.

* `Missed`, `Swept`: all that a miss and a cleanup can leave in a cache;
* `Regular`: what the flags, the destination and the entries of a cache have to do with
  each other, at every moment (`regular_run`);
* `target_dispatch_run`: what a send through a cache runs is what a lookup answers, however
  the send was served.
-/

namespace Warmup

/-- What happens to a cache. -/
inductive CacheEvent
  | dispatch (receiver : ClassId) (resolve : LookupKey → Option Target)
    (space : PicSpace) (maxEntries : Nat)
  | clear (space : PicSpace)
  | cleanup (isCurrent : LookupKey → Target → Bool) (space : PicSpace)

namespace CacheEvent

/-- Whether it is a send. -/
def isDispatch : CacheEvent → Bool
  | dispatch _ _ _ _ => true
  | _ => false

/-- A send has room for `n` classes. -/
def HasRoom (n : Nat) : CacheEvent → Prop
  | dispatch _ _ _ maxEntries => maxEntries = n
  | _ => True

/-- A send looks up what `resolve` says. -/
def Asks (resolve : LookupKey → Option Target) : CacheEvent → Prop
  | dispatch _ f _ _ => f = resolve
  | _ => True

end CacheEvent

/-- How much has been seen, as a number. -/
def CacheState.rank : CacheState → Nat
  | empty => 0
  | monomorphic => 1
  | polymorphic => 2
  | megamorphic => 3

namespace InlineCache

variable {c c' : InlineCache} {r : ClassId} {t : Target} {n : Nat} {tr : Transition}
  {space : PicSpace} {live : List CacheEntry}

/-- A new cache, with flags that the compiler has set in some steps. -/
def made (s : Selector) (start : Option ClassId) (flags : List CacheFlags) : InlineCache :=
  flags.foldl withFlags (freshAt s start)

/-- The cache after an event. -/
def step (c : InlineCache) : CacheEvent → InlineCache
  | .dispatch r resolve space maxEntries => (c.dispatch r resolve space maxEntries).cache
  | .clear space => (c.clear space).1
  | .cleanup isCurrent space => (c.cleanup isCurrent space).2.1

/-- The cache after some events. -/
def run (c : InlineCache) (events : List CacheEvent) : InlineCache := events.foldl step c

/-! ## What events leave -/

/-- The cache with a miss counted. -/
def missed (c : InlineCache) : InlineCache :=
  { c with misses := c.misses + 1, flags := { c.flags with dirty := true } }

/-- What a miss does, and the cache that it leaves, if the lookup has led to `t` and there is
    room for `n` classes. -/
inductive Missed (c : InlineCache) (r : ClassId) (t : Target) (n : Nat) :
    Transition → InlineCache → Prop
  | direct (hd : c.dest = .stub) (ht : t.isCompiled) :
      Missed c r t n (.filled t) { c.missed with dest := .direct ⟨r, t⟩ }
  | first (hd : c.dest = .stub) (ht : ¬t.isCompiled) :
      Missed c r t n (.filled t) { c.missed with dest := .pic (.entries [⟨r, t⟩]) }
  | further (hd : c.dest ≠ .stub) (hm : ¬c.isMegamorphic) (hn : c.entries.length < n) :
      Missed c r t n (.grown t) { c.missed with dest := .pic (.entries (c.entries ++ [⟨r, t⟩])) }
  | overflow (hm : ¬c.isMegamorphic) :
      Missed c r t n (.wentMegamorphic t) { c.missed with
        dest := .pic (.megamorphic (some r))
        flags := { c.flags with dirty := true, megamorphic := true } }
  | again (hm : c.isMegamorphic) :
      Missed c r t n (.megamorphicLookup t) { c.missed with dest := .pic (.megamorphic (some r)) }
  | fallback (hm : ¬c.isMegamorphic) : Missed c r t n (.fallback t) { c.missed with dest := .stub }

/-- The first miss of a cache gives a direct call to code, and a pic of one entry otherwise. -/
theorem miss_of_stub (hd : c.dest = .stub) (r : ClassId) (t : Target) (space : PicSpace) (n : Nat) :
    c.miss r (some t) space n =
      if t.isCompiled then ⟨.filled t, { c.missed with dest := .direct ⟨r, t⟩ }, space⟩
      else c.missed.grow (.entries [⟨r, t⟩]) space .filled t := by
  rcases c with ⟨s, start, flags, dest, hits, misses⟩
  obtain rfl : dest = .stub := hd
  rfl

/-- A megamorphic cache remembers the last class only. -/
theorem miss_of_megamorphic (hm : c.isMegamorphic) (r : ClassId) (t : Target) (space : PicSpace)
    (n : Nat) :
    c.miss r (some t) space n =
      ⟨.megamorphicLookup t, { c.missed with dest := .pic (.megamorphic (some r)) }, space⟩ := by
  rcases c with ⟨s, start, flags, _ | e | es | last, hits, misses⟩
  · cases hm
  · cases hm
  · cases hm
  · rfl

/-- A cache with room gets one more entry, if there is space. -/
theorem miss_of_room (hd : c.dest ≠ .stub) (hm : ¬c.isMegamorphic) (hn : c.entries.length < n)
    (r : ClassId) (t : Target) (space : PicSpace) :
    c.miss r (some t) space n =
      c.missed.grow (.entries (c.entries ++ [⟨r, t⟩])) space .grown t := by
  have hlen : (c.entries ++ [CacheEntry.mk r t]).length ≤ n := by simpa using Nat.succ_le_of_lt hn
  rcases c with ⟨s, start, flags, _ | e | es | last, hits, misses⟩
  · exact absurd rfl hd
  · exact if_pos hlen
  · exact if_pos hlen
  · exact absurd rfl hm

/-- A cache without room gives up its entries, whether or not it gets another pic for them. -/
theorem miss_of_full (hd : c.dest ≠ .stub) (hm : ¬c.isMegamorphic) (hn : n ≤ c.entries.length)
    (r : ClassId) (t : Target) (space : PicSpace) {done : Bool} {c' : InlineCache} {rest : PicSpace}
    (h : c.missed.install (.megamorphic (some r)) space = (done, c', rest)) :
    c.miss r (some t) space n =
      if done then
        ⟨.wentMegamorphic t, { c' with flags := { c'.flags with megamorphic := true } }, rest⟩
      else ⟨.fallback t, c', rest⟩ := by
  have hlen : ¬(c.entries ++ [CacheEntry.mk r t]).length ≤ n := by simpa using Nat.lt_succ_of_le hn
  rcases c with ⟨s, start, flags, _ | e | es | last, hits, misses⟩
  · exact absurd rfl hd
  pick_goal 3
  · exact absurd rfl hm
  -- One entry and a pic are given up in the same way.
  all_goals
    refine (if_neg hlen).trans ?_
    split
    · next hi =>
      cases hi.symm.trans h
      rfl
    · next hi =>
      cases hi.symm.trans h
      rfl

/-- A miss does one of the things that `Missed` lists. -/
theorem missed_miss (c : InlineCache) (r : ClassId) (t : Target) (space : PicSpace) (n : Nat) :
    c.Missed r t n (c.miss r (some t) space n).transition (c.miss r (some t) space n).cache := by
  by_cases hm : c.isMegamorphic
  · rw [miss_of_megamorphic hm]
    exact .again hm
  · by_cases hd : c.dest = .stub
    · rw [miss_of_stub hd]
      split
      · next ht => exact .direct hd ht
      · next ht =>
        rcases c.missed.grow_cases (.entries [⟨r, t⟩]) space .filled t with ⟨rest, h⟩ | ⟨rest, h⟩
        · rw [h]
          exact .first hd ht
        · rw [h]
          exact .fallback hm
    · -- Whether there is room in the cache comes first, and then whether there is space for the
      -- pic.
      rcases Nat.lt_or_ge c.entries.length n with hn | hn
      · rw [miss_of_room hd hm hn]
        rcases c.missed.grow_cases (.entries (c.entries ++ [⟨r, t⟩])) space .grown t
          with ⟨rest, h⟩ | ⟨rest, h⟩
        · rw [h]
          exact .further hd hm hn
        · rw [h]
          exact .fallback hm
      · rcases c.missed.install_cases (.megamorphic (some r)) space with ⟨rest, h⟩ | ⟨rest, h⟩
        · rw [miss_of_full hd hm hn r t space h]
          exact .overflow hm
        · rw [miss_of_full hd hm hn r t space h]
          exact .fallback hm

/-- The cache that a cleanup leaves, if the entries in `live` are current. -/
inductive Swept (c : InlineCache) (live : List CacheEntry) : InlineCache → Prop
  | same (h : live = c.entries) : Swept c live c
  | emptied (h : live = []) :
    Swept c live { c with dest := .stub, flags := { c.flags with megamorphic := false } }
  | direct {e : CacheEntry} (hm : ¬c.isMegamorphic) (h : live = [e]) (he : e.target.isCompiled) :
      Swept c live { c with dest := .direct e }
  | pic (hm : ¬c.isMegamorphic) (hne : live ≠ [])
      (hsingle : ∀ e, live = [e] → ¬e.target.isCompiled) :
      Swept c live { c with dest := .pic (.entries live) }
  | failed (hm : ¬c.isMegamorphic) : Swept c live { c with dest := .stub }

theorem entries_of_megamorphic (hm : c.isMegamorphic) : c.entries = [] := by
  rcases c with ⟨s, start, flags, _ | e | es | last, hits, misses⟩
  · cases hm
  · cases hm
  · cases hm
  · rfl

/-- What is left is put into a new pic, or lost if there is no space. -/
theorem Swept.of_install (hm : ¬c.isMegamorphic) (hne : live ≠ [])
    (hsingle : ∀ e, live = [e] → ¬e.target.isCompiled) (space : PicSpace) :
    c.Swept live (c.install (.entries live) space).2.1 := by
  rcases c.install_cases (.entries live) space with ⟨rest, h⟩ | ⟨rest, h⟩
  · rw [h]
    exact .pic hm hne hsingle
  · rw [h]
    exact .failed hm

/-- A cleanup does one of the things that `Swept` lists. -/
theorem swept_cleanup (c : InlineCache) (isCurrent : LookupKey → Target → Bool) (space : PicSpace) :
    c.Swept (c.entries.filter fun e => isCurrent (c.lookupKey e.cls) e.target)
      (c.cleanup isCurrent space).2.1 := by
  have hlen := List.length_filter_le (fun e => isCurrent (c.lookupKey e.cls) e.target) c.entries
  rw [cleanup]
  simp only
  split
  · next h => exact .same (List.filter_sublist.eq_of_length_le (Nat.sub_eq_zero_iff_le.1 h))
  · next h =>
    -- A cache that loses entries has some.
    have hm : ¬c.isMegamorphic := fun hm => h (by simp [entries_of_megamorphic hm])
    split
    · next hlive => exact .emptied hlive
    · next e hlive =>
      split
      · next he => exact .direct hm hlive he
      · next he =>
        rw [hlive]
        refine .of_install hm (by simp) (fun e' he' => ?_) space
        obtain rfl : e = e' := List.singleton_inj.1 he'
        exact he
    · next hne hsingle =>
      refine .of_install hm hne (fun e he => ?_) space
      exact absurd he (hsingle e)

/-! ## Regular caches -/

/-- What holds of a cache with room for `n` classes at every moment. -/
structure Regular (n : Nat) (c : InlineCache) : Prop where
  dirty : c.dest ≠ .stub → c.flags.dirty
  megamorphic : c.flags.megamorphic = c.isMegamorphic
  distinct : (c.entries.map (·.cls)).Nodup
  bounded : c.entries.length ≤ n
  direct : ∀ e, c.dest = .direct e → e.target.isCompiled
  nonempty : c.dest ≠ .pic (.entries [])
  single : ∀ e, c.dest = .pic (.entries [e]) → ¬e.target.isCompiled

theorem Regular.of_stub (hd : c.dest = .stub) (hm : c.flags.megamorphic = false) : c.Regular n where
  dirty h := absurd hd h
  megamorphic := by simp [isMegamorphic, hd, hm]
  distinct := by simp [entries, hd]
  bounded := by simp [entries, hd]
  direct e he := by cases hd.symm.trans he
  nonempty he := by cases hd.symm.trans he
  single e he := by cases hd.symm.trans he

theorem Regular.of_direct {e : CacheEntry} (hd : c.dest = .direct e) (hdirty : c.flags.dirty)
    (hm : c.flags.megamorphic = false) (hn : 1 ≤ n) (ht : e.target.isCompiled) : c.Regular n where
  dirty _ := hdirty
  megamorphic := by simp [isMegamorphic, hd, hm]
  distinct := by simp [entries, hd]
  bounded := by simpa [entries, hd] using hn
  direct e' he := by
    obtain rfl : e = e' := by simpa [hd] using he
    exact ht
  nonempty he := by cases hd.symm.trans he
  single e' he := by cases hd.symm.trans he

theorem Regular.of_entries {es : List CacheEntry} (hd : c.dest = .pic (.entries es))
    (hdirty : c.flags.dirty) (hm : c.flags.megamorphic = false) (hdistinct : (es.map (·.cls)).Nodup)
    (hlen : es.length ≤ n) (hne : es ≠ []) (hsingle : ∀ e, es = [e] → ¬e.target.isCompiled) :
    c.Regular n where
  dirty _ := hdirty
  megamorphic := by simp [isMegamorphic, Pic.isMegamorphic, hd, hm]
  distinct := by simpa [entries, hd, Pic.toList] using hdistinct
  bounded := by simpa [entries, hd, Pic.toList] using hlen
  direct e he := by cases hd.symm.trans he
  nonempty he := hne (by simpa [hd] using he)
  single e he := hsingle e (by simpa [hd] using he)

theorem Regular.of_megamorphic {last : Option ClassId} (hd : c.dest = .pic (.megamorphic last))
    (hdirty : c.flags.dirty) (hm : c.flags.megamorphic = true) : c.Regular n where
  dirty _ := hdirty
  megamorphic := by simp [isMegamorphic, Pic.isMegamorphic, hd, hm]
  distinct := by simp [entries, hd, Pic.toList]
  bounded := by simp [entries, hd, Pic.toList]
  direct e he := by cases hd.symm.trans he
  nonempty he := by cases hd.symm.trans he
  single e he := by cases hd.symm.trans he

/-- A class that a cache does not know is the class of none of its entries. -/
theorem notMem_of_cached?_eq_none (h : c.cached? r = none) : r ∉ c.entries.map (·.cls) := by
  intro hr
  obtain ⟨e, he, rfl⟩ := List.mem_map.1 hr
  rw [entries] at he
  rw [cached?] at h
  -- There are no entries, one that is called directly, or those of a pic.
  split at h
  · next hd => simp [hd] at he
  · next e' hd =>
    rw [hd, List.mem_singleton] at he
    simp [he] at h
  · next p hd =>
    rw [hd] at he
    simpa using List.find?_eq_none.1 (Option.map_eq_none_iff.1 h) e he

/-- A cache that is neither empty nor megamorphic has entries. -/
theorem entries_ne_nil (h : c.Regular n) (hd : c.dest ≠ .stub) (hm : ¬c.isMegamorphic) :
    c.entries ≠ [] := by
  rcases c with ⟨s, start, flags, _ | e | es | last, hits, misses⟩
  · exact absurd rfl hd
  · exact List.cons_ne_nil e []
  · exact fun hes => h.nonempty (congrArg (fun es => Destination.pic (.entries es)) hes)
  · exact absurd rfl hm

theorem Regular.flags_of_not (h : c.Regular n) (hm : ¬c.isMegamorphic) :
    c.flags.megamorphic = false := by
  rw [h.megamorphic]
  exact Bool.eq_false_of_not_eq_true hm

/-- A miss keeps caches regular. -/
theorem Regular.miss (h : c.Regular n) (hn : 1 ≤ n) (hc : c.cached? r = none)
    (hmiss : c.Missed r t n tr c') :
    c'.Regular n := by
  have hstub (hd : c.dest = .stub) : ¬c.isMegamorphic := by simp [isMegamorphic, hd]
  cases hmiss with
  | direct hd ht => exact .of_direct rfl rfl (h.flags_of_not (hstub hd)) hn ht
  | first hd ht =>
    refine .of_entries rfl rfl (h.flags_of_not (hstub hd)) (List.nodup_singleton _) hn
      (by simp) fun e he => ?_
    obtain rfl := List.singleton_inj.1 he
    exact ht
  | further hd hm hlen =>
    refine .of_entries rfl rfl (h.flags_of_not hm) ?_ (by simpa using Nat.succ_le_of_lt hlen)
      (by simp) fun e he => ?_
    · -- The class is new to the cache.
      rw [List.map_append, List.nodup_append_comm, List.map_singleton, List.singleton_append,
        List.nodup_cons]
      exact ⟨notMem_of_cached?_eq_none hc, h.distinct⟩
    · -- There was an entry before, so there are two now.
      have hne := List.length_pos_iff.2 (entries_ne_nil h hd hm)
      have hone := congrArg List.length he
      simp only [List.length_append, List.length_singleton] at hone
      omega
  | overflow hm => exact .of_megamorphic rfl rfl rfl
  | again hm => exact .of_megamorphic rfl rfl (h.megamorphic.trans hm)
  | fallback hm => exact .of_stub rfl (h.flags_of_not hm)

theorem Regular.dispatch (h : c.Regular n) (hn : 1 ≤ n) (r : ClassId)
    (resolve : LookupKey → Option Target) (space : PicSpace) :
    (c.dispatch r resolve space n).cache.Regular n := by
  rw [InlineCache.dispatch]
  split
  · exact ⟨h.dirty, h.megamorphic, h.distinct, h.bounded, h.direct, h.nonempty, h.single⟩
  · next hc =>
    cases resolve (c.lookupKey r) with
    | none =>
      exact ⟨fun _ => rfl, h.megamorphic, h.distinct, h.bounded, h.direct, h.nonempty, h.single⟩
    | some t => exact h.miss hn hc (c.missed_miss r t space n)

theorem Regular.sweep (h : c.Regular n) (hlive : live.Sublist c.entries) (hs : c.Swept live c') :
    c'.Regular n := by
  have hbounded : live.length ≤ n := hlive.length_le.trans h.bounded
  -- What is left of a cache that has entries is dirty.
  have hdirty (hne : live ≠ []) : c.flags.dirty := by
    refine h.dirty fun hd => hne ?_
    simpa [entries, hd] using hlive
  cases hs with
  | same _ => exact h
  | emptied _ => exact .of_stub rfl rfl
  | direct hm hl he =>
    subst hl
    exact .of_direct rfl (hdirty (by simp)) (h.flags_of_not hm) hbounded he
  | pic hm hne hsingle =>
    exact .of_entries rfl (hdirty hne) (h.flags_of_not hm)
      (h.distinct.sublist (hlive.map _)) hbounded hne hsingle
  | failed hm => exact .of_stub rfl (h.flags_of_not hm)

/-- A cache is regular after an event, if it was before. -/
theorem Regular.step (h : c.Regular n) (hn : 1 ≤ n) {ev : CacheEvent} (hev : ev.HasRoom n) :
    (c.step ev).Regular n := by
  cases ev with
  | dispatch r resolve space maxEntries =>
    obtain rfl : maxEntries = n := hev
    exact h.dispatch hn r resolve space
  | clear space => exact .of_stub rfl rfl
  | cleanup isCurrent space => exact h.sweep List.filter_sublist (c.swept_cleanup isCurrent space)

/-- A cache is regular at every moment of its life. -/
theorem Regular.run (h : c.Regular n) (hn : 1 ≤ n) {events : List CacheEvent}
    (hev : ∀ ev ∈ events, ev.HasRoom n) :
    (c.run events).Regular n := by
  induction events generalizing c with
  | nil => exact h
  | cons ev events ih =>
    exact ih (h.step hn (hev ev List.mem_cons_self)) fun ev' hev' => hev ev'
      (List.mem_cons_of_mem ev hev')

/-! ## What never changes -/

/-- The cache `k` sends later. -/
structure Ages (k : Nat) (c c' : InlineCache) : Prop where
  selector : c'.selector = c.selector
  superClass : c'.superClass = c.superClass
  flags : c'.flags = { c.flags with dirty := c'.flags.dirty, megamorphic := c'.flags.megamorphic }
  dirty : c.flags.dirty → c'.flags.dirty
  sends : c'.hits + c'.misses = c.hits + c.misses + k

theorem Ages.refl (c : InlineCache) : c.Ages 0 c := ⟨rfl, rfl, rfl, fun h => h, rfl⟩

theorem Ages.trans {k k' : Nat} {c'' : InlineCache} (h : c.Ages k c') (h' : c'.Ages k' c'') :
    c.Ages (k + k') c'' where
  selector := h'.selector.trans h.selector
  superClass := h'.superClass.trans h.superClass
  flags := by rw [h'.flags, h.flags]
  dirty := h'.dirty ∘ h.dirty
  sends := by rw [h'.sends, h.sends, Nat.add_assoc]

/-- A miss is counted, sets flags, and leaves alone what the send is. -/
theorem Missed.ages (h : c.Missed r t n tr c') : c.Ages 1 c' := by
  cases h <;> exact ⟨rfl, rfl, rfl, fun _ => rfl, rfl⟩

theorem Swept.ages (h : c.Swept live c') : c.Ages 0 c' := by
  cases h <;> exact ⟨rfl, rfl, rfl, fun h => h, rfl⟩

/-- Every send is counted, as a hit or as a miss. -/
theorem ages_dispatch (c : InlineCache) (r : ClassId) (resolve : LookupKey → Option Target)
    (space : PicSpace) (n : Nat) : c.Ages 1 (c.dispatch r resolve space n).cache := by
  rw [dispatch]
  split
  · exact ⟨rfl, rfl, rfl, fun h => h, Nat.succ_add c.hits c.misses⟩
  · cases resolve (c.lookupKey r) with
    | none => exact ⟨rfl, rfl, rfl, fun _ => rfl, rfl⟩
    | some t => exact (c.missed_miss r t space n).ages

theorem ages_step (c : InlineCache) (ev : CacheEvent) :
    c.Ages (if ev.isDispatch then 1 else 0) (c.step ev) := by
  cases ev with
  | dispatch r resolve space maxEntries => exact c.ages_dispatch r resolve space maxEntries
  | clear space => exact ⟨rfl, rfl, rfl, fun h => h, rfl⟩
  | cleanup isCurrent space => exact (c.swept_cleanup isCurrent space).ages

/-- In a life of a cache its sends are counted. -/
theorem ages_run (c : InlineCache) (events : List CacheEvent) :
    c.Ages (events.countP CacheEvent.isDispatch) (c.run events) := by
  induction events generalizing c with
  | nil => exact .refl c
  | cons ev events ih =>
    rw [List.countP_cons, Nat.add_comm]
    exact (c.ages_step ev).trans (ih (c.step ev))

/-- A cache as the compiler makes it. -/
structure New (s : Selector) (start : Option ClassId) (c : InlineCache) : Prop where
  selector : c.selector = s
  superClass : c.superClass = start
  dest : c.dest = .stub
  dirty : c.flags.dirty = false
  megamorphic : c.flags.megamorphic = false
  sends : c.hits + c.misses = 0

/-- A cache that the compiler has set flags of is still new. -/
theorem new_made (s : Selector) (start : Option ClassId) (flags : List CacheFlags) :
    (made s start flags).New s start := by
  have hfresh : (freshAt s start).New s start := by
    cases start with
    | none => exact ⟨rfl, rfl, rfl, rfl, rfl, rfl⟩
    | some d => exact ⟨rfl, rfl, rfl, rfl, rfl, rfl⟩
  rw [made]
  generalize freshAt s start = c at hfresh
  induction flags generalizing c with
  | nil => exact hfresh
  | cons f flags ih =>
    refine ih (c.withFlags f) ?_
    exact ⟨hfresh.selector, hfresh.superClass, hfresh.dest, hfresh.dirty,
      hfresh.megamorphic, hfresh.sends⟩

/-! ## The order of states -/

/-- Caches that are not megamorphic rank below those that are. -/
theorem Regular.rank_state_le (h : c.Regular n) (hm : ¬c.isMegamorphic) : c.state.rank ≤ 2 := by
  rcases c with ⟨s, start, flags, _ | e | es | last, hits, misses⟩
  · exact Nat.zero_le 2
  · exact Nat.le_succ 1
  · rcases es with _ | ⟨e, _ | ⟨e', es⟩⟩
    · exact absurd rfl h.nonempty
    · exact Nat.le_succ 1
    · exact Nat.le_refl 2
  · exact absurd rfl hm

theorem rank_state_le_three (c : InlineCache) : c.state.rank ≤ 3 := by
  cases c.state <;> decide

/-- Only a send for which there is no space takes a cache to an earlier state. -/
theorem Regular.rank_state_miss (h : c.Regular n) (hmiss : c.Missed r t n tr c')
    (htr : ∀ t, tr ≠ .fallback t) :
    c.state.rank ≤ c'.state.rank := by
  have hstub (hd : c.dest = .stub) : c.state.rank = 0 := by rw [state, hd]; rfl
  cases hmiss with
  | direct hd ht => rw [hstub hd]; exact Nat.zero_le _
  | first hd ht => rw [hstub hd]; exact Nat.zero_le _
  -- With one more entry there are at least two.
  | further hd hm hlen =>
    refine (h.rank_state_le hm).trans ?_
    rcases hes : c.entries with _ | ⟨e, _ | ⟨e', es⟩⟩
    · exact absurd hes (entries_ne_nil h hd hm)
    · exact Nat.le_refl 2
    · exact Nat.le_refl 2
  | overflow hm => exact c.rank_state_le_three
  | again hm => exact c.rank_state_le_three
  | fallback hm => exact absurd rfl (htr t)

/-- A send never brings a cache back to an earlier state, unless there is no space for a pic. -/
theorem Regular.rank_state_dispatch (h : c.Regular n) (r : ClassId)
    (resolve : LookupKey → Option Target) (space : PicSpace)
    (htr : ∀ t, (c.dispatch r resolve space n).transition ≠ .fallback t) :
    c.state.rank ≤ (c.dispatch r resolve space n).cache.state.rank := by
  rw [InlineCache.dispatch] at htr ⊢
  split
  · exact Nat.le_refl _
  · next hc =>
    rw [hc] at htr
    rcases hr : resolve (c.lookupKey r) with _ | t
    · exact Nat.le_refl _
    · rw [hr] at htr
      exact h.rank_state_miss (c.missed_miss r t space n) htr

/-- A cache is regular at every moment: whatever lookups have answered and whatever space there
    was, its flags say what has become of it, and its entries are of different classes and
    not too many. What it looks for and what the compiler has said of it stays, it counts its
    sends, it never forgets that it has missed, and a send does not take it to an earlier state
    unless there is no space. -/
theorem regular_run (hn : 1 ≤ n) (s : Selector) (start : Option ClassId) (flags : List CacheFlags)
    {events : List CacheEvent} (hev : ∀ ev ∈ events, ev.HasRoom n) :
    let new := made s start flags
    let c := new.run events
    c.Regular n ∧ c.selector = s ∧ c.superClass = start ∧
      c.flags = { new.flags with dirty := c.flags.dirty, megamorphic := c.flags.megamorphic } ∧
      c.hits + c.misses = events.countP CacheEvent.isDispatch ∧
      (c.flags.dirty → ∀ later, (c.run later).flags.dirty) ∧
      ∀ r resolve space, (∀ t, (c.dispatch r resolve space n).transition ≠ .fallback t) →
        c.state.rank ≤ (c.dispatch r resolve space n).cache.state.rank := by
  intro new c
  have hnew : new.New s start := new_made s start flags
  have hages : new.Ages (events.countP CacheEvent.isDispatch) c := new.ages_run events
  have hregular : c.Regular n := (Regular.of_stub hnew.dest hnew.megamorphic).run hn hev
  refine ⟨hregular, hages.selector.trans hnew.selector, hages.superClass.trans hnew.superClass,
    hages.flags, ?_, ?_, ?_⟩
  · rw [hages.sends, hnew.sends, Nat.zero_add]
  · exact fun hdirty later => (c.ages_run later).dirty hdirty
  · exact fun r resolve space htr => hregular.rank_state_dispatch r resolve space htr

/-- Two classes are sent to, one with native code; the other one is dropped, comes back, and is
    followed by a third one. -/
def crowdedSite : List CacheEvent := [
  .dispatch ⟨9⟩ (fun _ => some (.interpreted ⟨3⟩)) {} 2, .dispatch ⟨10⟩
    (fun _ => some (.compiled ⟨0⟩)) {} 2,
  .cleanup (fun _ t => t.isCompiled) {}, .dispatch ⟨10⟩ (fun _ => none) {} 2,
  .dispatch ⟨9⟩ (fun _ => some (.interpreted ⟨4⟩)) {} 2]

/-- After that the cache has two entries. The third class makes it megamorphic. -/
theorem regular_crowdedSite :
    let c := (made ⟨0⟩ none [{ optimized := true, dirty := true }]).run crowdedSite
    (∀ ev ∈ crowdedSite, ev.HasRoom 2) ∧
      c.dest = .pic (.entries [⟨⟨10⟩, .compiled ⟨0⟩⟩, ⟨⟨9⟩, .interpreted ⟨4⟩⟩]) ∧ c.Regular 2 ∧
      c.flags = { optimized := true, dirty := true } ∧ c.hits + c.misses = 4 ∧
      (c.dispatch ⟨11⟩ (fun _ => some (.compiled ⟨1⟩)) {} 2).cache.state = .megamorphic ∧
      c.state.rank ≤ (c.dispatch ⟨11⟩ (fun _ => some (.compiled ⟨1⟩)) {} 2).cache.state.rank :=
  have hev : ∀ ev ∈ crowdedSite, ev.HasRoom 2 := by simp [crowdedSite, CacheEvent.HasRoom]
  have h := regular_run (by decide) ⟨0⟩ none [{ optimized := true, dirty := true }] hev
  ⟨hev, rfl, h.1, rfl, h.2.2.2.2.1, rfl, h.2.2.2.2.2.2 ⟨11⟩ _ {} fun t ht => by cases ht⟩

/-! ## Transparency -/

/-- If every entry is what a lookup answers, that is so after a send. -/
theorem Holds.dispatch {resolve : LookupKey → Option Target}
    (h : c.Holds fun k t => resolve k = some t) (r : ClassId) (space : PicSpace) (n : Nat) :
    (c.dispatch r resolve space n).cache.Holds fun k t => resolve k = some t := by
  rw [InlineCache.dispatch]
  split
  · next t _ => exact h.hit t space
  · exact h.miss (fun t ht => ht) space n

/-- Entries that are what lookups answer stay so while the answers stay the same. -/
theorem Holds.run {resolve : LookupKey → Option Target} (h : c.Holds fun k t => resolve k = some t)
    {events : List CacheEvent} (hev : ∀ ev ∈ events, ev.Asks resolve) :
    (c.run events).Holds fun k t => resolve k = some t := by
  induction events generalizing c with
  | nil => exact h
  | cons ev events ih =>
    refine ih ?_ fun ev' hev' => hev ev' (List.mem_cons_of_mem ev hev')
    cases ev with
    | dispatch r f space maxEntries =>
      obtain rfl : f = resolve := hev _ List.mem_cons_self
      exact h.dispatch r space maxEntries
    | clear space => exact .of_stub rfl
    | cleanup isCurrent space => exact (h.cleanup isCurrent space).mono fun k t ht => ht.1

/-- If every entry is what a lookup answers, a send runs what a lookup answers. -/
theorem Holds.target_dispatch {resolve : LookupKey → Option Target}
    (h : c.Holds fun k t => resolve k = some t) (r : ClassId) (space : PicSpace) (n : Nat) :
    (c.dispatch r resolve space n).transition.target? = resolve (c.lookupKey r) := by
  rw [InlineCache.dispatch]
  split
  · next hc => exact (h.cached hc).symm
  · rcases resolve (c.lookupKey r) with _ | t
    · rfl
    · exact (c.learned_miss r t space n).target

/-- As long as lookups answer the same, a send through a cache runs what the lookup of its key
    answers, whatever has been sent through the cache before, how often it was cleared or
    cleaned up, how many classes it had room for and how much space there was. -/
theorem target_dispatch_run (s : Selector) (start : Option ClassId) (flags : List CacheFlags)
    {resolve : LookupKey → Option Target} {events : List CacheEvent}
    (hev : ∀ ev ∈ events, ev.Asks resolve) (r : ClassId) (space : PicSpace) (n : Nat) :
    let c := (made s start flags).run events
    c.lookupKey r = .send (start.getD r) s ∧
      (c.dispatch r resolve space n).transition.target? = resolve (c.lookupKey r) := by
  intro c
  have hnew : (made s start flags).New s start := new_made s start flags
  have hages := (made s start flags).ages_run events
  have hholds : c.Holds fun k t => resolve k = some t := (Holds.of_stub hnew.dest).run hev
  refine ⟨?_, hholds.target_dispatch r space n⟩
  rw [lookupKey, hages.superClass, hages.selector, hnew.superClass, hnew.selector]

/-- A lookup that finds a method of its own for every class but one. -/
def methodByClass (k : LookupKey) : Option Target :=
  if k.cls.index = 9 then none else some (.interpreted ⟨k.cls.index⟩)

/-- Sends to three classes through a cache with room for one of them, in a space for one entry. -/
def tightSite : List CacheEvent := [
  .dispatch ⟨10⟩ methodByClass { capacity := 1 } 1, .dispatch ⟨9⟩ methodByClass
    { capacity := 1, used := 1 } 1,
  .dispatch ⟨11⟩ methodByClass { capacity := 1, megamorphicStubs := false, used := 1 } 1,
  .dispatch ⟨11⟩ methodByClass { capacity := 1, megamorphicStubs := false } 1]

/-- The cache has lost the first class and learned another one. To the first class the send goes
    through without an entry, to the other one it is a hit. -/
theorem target_dispatch_tightSite :
    let c := (made ⟨0⟩ none []).run tightSite
    let full : PicSpace := { capacity := 1, megamorphicStubs := false, used := 1 }
    (∀ ev ∈ tightSite, ev.Asks methodByClass) ∧
      (c.dispatch ⟨10⟩ methodByClass full 1).transition = .fallback (.interpreted ⟨10⟩) ∧
      (c.dispatch ⟨10⟩ methodByClass full 1).transition.target? = methodByClass (c.lookupKey ⟨10⟩) ∧
      (c.dispatch ⟨11⟩ methodByClass full 1).transition = .hit (.interpreted ⟨11⟩) ∧
      (c.dispatch ⟨11⟩ methodByClass full 1).transition.target? =
        methodByClass (c.lookupKey ⟨11⟩) :=
  have hev : ∀ ev ∈ tightSite, ev.Asks methodByClass := by simp [tightSite, CacheEvent.Asks]
  ⟨hev, rfl, (target_dispatch_run ⟨0⟩ none [] hev ⟨10⟩ _ 1).2, rfl,
    (target_dispatch_run ⟨0⟩ none [] hev ⟨11⟩ _ 1).2⟩

end InlineCache

end Warmup
