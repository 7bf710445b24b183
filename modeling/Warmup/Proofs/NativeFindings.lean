import Warmup.Proofs.Findings
import Warmup.Proofs.Reconstruction

/-!
# Findings of native code

What native code shows about a send of one of its scopes (`NativeMethod.Finds`): the
callees that were inlined there, a trap in its place, and its cache. A cache is heard
only if it has few enough classes, and what it says about a callee that was compiled is
what the code of the callee says (`Evidence.Hears`). This is all that the feedback tree of
the code says about the scope with the same number (`Evidence.finds_treeOfNative`). If all
caches count, and have interpreted methods only, it is what the code shows
(`Evidence.finds_treeOfNative_of_trusts`).
-/

namespace Warmup

/-- A cache whose classes are known and not too many. -/
def InlineCache.Counts (c : InlineCache) : Prop :=
  ¬c.neverExecuted ∧ ¬c.isMegamorphic ∧ ¬c.flags.uninlinable ∧ ¬c.isEmpty

/-- What a cache shows about its send. -/
def InlineCache.Shows (c : InlineCache) : Finding → Prop
  | .seen k => c.Counts ∧ ∃ x ∈ c.entries, k = .send x.cls c.selector
  | .untaken => c.neverExecuted
  | .uninlinable => ¬c.neverExecuted ∧ (c.isMegamorphic ∨ c.flags.uninlinable)
  | .complete => c.Counts
  | .uncommon => False

namespace InlineCache

variable {c : InlineCache} {f : Finding}

/-- A cache that has served no send shows that the send is untaken, and nothing else. -/
theorem shows_of_neverExecuted (h : c.neverExecuted) : c.Shows f ↔ f = .untaken := by
  rcases f <;> simp [Shows, Counts, h]

/-- A cache that gave up, or was told to, shows that the send cannot be inlined. -/
theorem shows_of_flagged (hnever : ¬c.neverExecuted) (h : c.isMegamorphic ∨ c.flags.uninlinable) :
    c.Shows f ↔ f = .uninlinable := by
  have hcounts : ¬c.Counts := fun hc => h.elim hc.2.1 hc.2.2.1
  rcases f <;> simp [Shows, hcounts, hnever, h]

theorem shows_of_isEmpty (hnever : ¬c.neverExecuted)
    (hflag : ¬(c.isMegamorphic ∨ c.flags.uninlinable)) (h : c.isEmpty) : ¬c.Shows f := by
  have hcounts : ¬c.Counts := fun hc => hc.2.2.2 h
  rcases f <;> simp [Shows, hcounts, hnever, hflag]

/-- A cache that counts shows its classes, and that there are no others. -/
theorem shows_of_counts (h : c.Counts) :
    c.Shows f ↔ f = .complete ∨ ∃ x ∈ c.entries, f = .seen (.send x.cls c.selector) := by
  obtain ⟨hnever, hmega, hflag, -⟩ := id h
  rcases f <;> simp [Shows, h, hnever, hmega, hflag]

end InlineCache

/-- What a trap shows about its send. -/
def TrapSite.Shows (s : TrapSite) (f : Finding) : Prop := f = if s.used then .uncommon else .untaken

/-- What native code shows about a send that is left in one of its scopes. -/
def NativeMethod.Observes (n : NativeMethod) (o : Offset) (bci : Bci) (f : Finding) : Prop :=
  (∃ s ∈ n.traps, s.scope = o ∧ s.bci = bci ∧ s.Shows f) ∨ ∃ s ∈ n.sites, s.scope = o ∧
    s.bci = bci ∧ s.cache.Shows f

/-- What native code shows about a send of one of its scopes. -/
def NativeMethod.Finds (n : NativeMethod) (o : Offset) (bci : Bci) (f : Finding) : Prop :=
  (∃ d ∈ n.scopes, d.sender = some (o, bci) ∧ f = .seen d.key) ∨ n.Observes o bci f

/-- The key of the outermost scope of native code. -/
def NativeMethod.rootKey? (n : NativeMethod) : Option LookupKey :=
  ((n.scopes.mergeSort fun a b => a.offset ≤ b.offset).find? (·.sender.isNone)).map (·.key)

namespace Evidence

open FeedbackTree

/-- The key under which the callee of a cache entry is seen, if there is one: that of the
    send, or that of the code of the callee if this is walked. -/
def calleeKey? (e : Evidence) (walks trusted : Bool) (selector : Selector) (entry : CacheEntry) :
    Option LookupKey :=
  match entry.target with
  | .interpreted _ => some (.send entry.cls selector)
  | .compiled id =>
    ((e.code.get? id).filter (·.isValid)).bind fun n =>
      if walks && trusted && e.isYoung n && e.isHot n then n.rootKey?
        else some (.send entry.cls selector)

/-- What a cache adds to what is known about its send. -/
def Hears (e : Evidence) (walks trusted : Bool) (c : InlineCache) : Finding → Prop
  | .seen k =>
    (c.Counts ∧ e.trusts trusted c) ∧ ∃ x ∈ c.entries,
      e.calleeKey? walks trusted c.selector x = some k
  | .untaken => c.neverExecuted
  | .uninlinable => ¬c.neverExecuted ∧ (c.isMegamorphic ∨ c.flags.uninlinable)
  | .complete => c.Counts ∧ e.trusts trusted c
  | .uncommon => False

variable {e : Evidence} {outer : LookupKey} {trusted : Bool} {level : Nat} {deeper : Option Attach}
  {t : FeedbackTree} {s o : ScopeId} {b bci : Bci} {f : Finding}

section Hears

variable {walks : Bool} {c : InlineCache}

theorem hears_of_neverExecuted (h : c.neverExecuted) :
    e.Hears walks trusted c f ↔ f = .untaken := by
  rcases f <;> simp [Hears, InlineCache.Counts, h]

theorem hears_of_flagged (hnever : ¬c.neverExecuted) (h : c.isMegamorphic ∨ c.flags.uninlinable) :
    e.Hears walks trusted c f ↔ f = .uninlinable := by
  have hcounts : ¬c.Counts := fun hc => h.elim hc.2.1 hc.2.2.1
  rcases f <;> simp [Hears, hcounts, hnever, h]

/-- Nothing is heard of a cache that is empty or has too many classes. -/
theorem not_hears (hnever : ¬c.neverExecuted) (hflag : ¬(c.isMegamorphic ∨ c.flags.uninlinable))
    (h : c.isEmpty ∨ ¬e.trusts trusted c) : ¬e.Hears walks trusted c f := by
  have hcounts : ¬(c.Counts ∧ e.trusts trusted c) := fun hc => h.elim hc.1.2.2.2 (fun h => h hc.2)
  rcases f <;> simp [Hears, hcounts, hnever, hflag]

/-- A cache that counts and has few enough classes is heard with the keys of its callees. -/
theorem hears_of_counts (h : c.Counts) (htrusts : e.trusts trusted c) : e.Hears walks trusted c f ↔
    f = .complete ∨ ∃ x ∈ c.entries, ∃ k, e.calleeKey? walks trusted c.selector x = some k ∧
      f = .seen k := by
  obtain ⟨hnever, hmega, hflag, -⟩ := id h
  rcases f <;> simp [Hears, h, htrusts, hnever, hmega, hflag]

/-- Where all entries are interpreted methods, a cache that is trusted is heard as it is. -/
theorem hears_iff_shows (hinterpreted : ∀ x ∈ c.entries, ∃ m, x.target = .interpreted m)
    (htrusts : e.trusts trusted c) : e.Hears walks trusted c f ↔ c.Shows f := by
  rcases f with k | _ | _ | _ | _
  case seen =>
    simp only [Hears, InlineCache.Shows, htrusts, and_true]
    refine and_congr_right fun _ => exists_congr fun x => and_congr_right fun hx => ?_
    obtain ⟨m, hm⟩ := hinterpreted x hx
    rw [calleeKey?, hm, Option.some.injEq, eq_comm]
  case complete => simp only [Hears, InlineCache.Shows, htrusts, and_true]
  all_goals rfl

end Hears

/-! ## Callees that were compiled -/

/-- Of the scopes of native code that are placed below a send, only the outermost one is seen
    there. -/
theorem finds_foldl_step {n : NativeMethod} {p : Placed} (hp : Placing (some (s, bci)) t p)
    (hlevel : 0 < level) (ho : o.index < t.scopes.length) (l : List ScopeDesc) :
    (l.foldl (Placed.step n level (some (s, bci))) p).tree.Finds o b f ↔ p.tree.Finds o b f ∨
      p.ids = [] ∧ o = s ∧ b = bci ∧ ∃ d, l.find? (·.sender.isNone) = some d ∧ f = .seen d.key := by
  have ho' : o.index < p.tree.scopes.length := Nat.lt_of_lt_of_le ho hp.gains.length_le
  induction l generalizing p with
  | nil => simp
  | cons d l ih =>
    have hstep := hp.step (n := n) hlevel d
    refine (ih hstep (Nat.lt_of_lt_of_le ho hstep.gains.length_le)).trans ?_
    rw [Placed.step]
    rcases hd : d.sender with _ | ⟨sender, b'⟩
    · rw [List.find?_cons_of_pos (by simp [hd])]
      by_cases hids : p.ids = []
      · -- It is the first one, and comes to the send.
        have hkey : (Knowledge.inlined d.key d.method n.id d.offset d.lite).key? = some d.key := rfl
        simp only [hids, List.isEmpty_nil, if_true, Placed.add, finds_add _ _ ho',
          Knowledge.shows_of_key? hkey]
        simp
      · have hempty : p.ids.isEmpty = false := List.isEmpty_eq_false_iff.2 hids
        simp [hids, hempty]
    · rw [List.find?_cons_of_neg (by simp [hd])]
      simp only
      split
      · rfl
      · next s' rest hdrop =>
        -- It is put below one that has been placed before it.
        have hmem : s' ∈ p.opened := (List.dropWhile_sublist _).subset (hdrop ▸ List.mem_cons_self)
        have hids : p.ids ≠ [] := fun hids => by simp [hp.start hids] at hmem
        have hne : o ≠ s'.2 := fun heq => Nat.not_lt.2 (hp.opened s' hmem) (heq ▸ ho)
        simp only [Placed.add, finds_add _ _ ho', hne, hids, false_and, or_false, reduceCtorEq]

/-- Walking the code of a callee adds one finding to the scopes that were there: the key of its
    root, at the send that it hangs at. -/
theorem finds_walkNative {attach : Attach} {speaks : InlineCache → Prop}
    (hattach : ∀ t s bci c, Gains (Says speaks s bci c) t (attach t s bci c)) (n : NativeMethod)
    (hlevel : 0 < level) (ho : o.index < t.scopes.length) :
    (walkNative attach n level (some (s, bci)) t).Finds o b f ↔
      t.Finds o b f ∨ o = s ∧ b = bci ∧ ∃ k, n.rootKey? = some k ∧ f = .seen k := by
  have hplaced : Placing (some (s, bci)) t (placeScopes n level (some (s, bci)) t) :=
    placing_placeScopes hlevel t
  have hrecords :
      Gains _ _ (walkNative attach n level (some (s, bci)) t) := gains_records hattach n level
    (placeScopes n level (some (s, bci)) t).tree
  -- The sites attach to scopes of the callee only, so placing them is all that counts.
  have hstart : Placing (some (s, bci)) t { tree := t } :=
    ⟨.refl t, by rintro _ ⟨⟩, by rintro _ ⟨⟩, fun _ => rfl⟩
  refine (hrecords.finds_iff (Nat.lt_of_lt_of_le ho hplaced.gains.length_le) ?_).trans ?_
  · rintro bci w ⟨x, hx, -⟩
    obtain ⟨l, l', hids, -⟩ := List.lookup_eq_some_iff.1 hx
    exact absurd ho (Nat.not_lt.2 (hplaced.ids (x, o) (by simp [hids])))
  · rw [placeScopes, finds_foldl_step hstart hlevel ho, NativeMethod.rootKey?]
    simp

/-! ## Caches -/

section Caches

variable (hdatabase : e.database = none)
  (hdeeper : ∀ attach ∈ deeper, ∀ t s bci c,
    Gains (Says (e.Speaks trusted) s bci c) t (attach t s bci c))
include hdatabase hdeeper

/-- The callee of a cache entry shows its key, whatever hangs below it. -/
theorem finds_attachEntry (entry : CacheEntry) (selector : Selector)
    (ho : o.index < t.scopes.length) :
    (e.attachEntry outer trusted level deeper s bci selector t entry).Finds o b f ↔ t.Finds o b f ∨
      o = s ∧ b = bci ∧ ∃ k, e.calleeKey? deeper.isSome trusted selector entry = some k ∧
        f = .seen k := by
  have hadd (w : Knowledge) {k : LookupKey} (hw : w.key? = some k) :
      (t.add w (some (s, bci)) (level + 1)).1.Finds o b f ↔
        t.Finds o b f ∨ o = s ∧ b = bci ∧ ∃ k', some k = some k' ∧ f = .seen k' := by
    rw [finds_add _ _ ho, Knowledge.shows_of_key? hw]
    simp
  rw [attachEntry, calleeKey?]
  -- A callee is walked, or else added with its key alone.
  rcases entry.target with id | m
  · simp only [hdatabase, Option.bind_none]
    rcases hfound : Option.filter (fun n => n.isValid) (e.code.get? id) with _ | n
    · simp [hfound]
    · simp only [hfound, Option.bind_some]
      rcases deeper with _ | attach
      · exact hadd _ rfl
      · by_cases hwalks : (trusted && e.isYoung n && e.isHot n) = true
        · simp only [Option.filter_some, hwalks, Option.isSome_some, Bool.true_and, if_true]
          exact finds_walkNative (hdeeper attach rfl) n (Nat.succ_pos level) ho
        · simp only [Option.filter_some, hwalks, Option.isSome_some, Bool.true_and,
            if_false, Bool.false_eq_true]
          exact hadd _ rfl
  · simp only [hdatabase, Option.bind_none]
    split
    · next attach hattach =>
      have hgains := gains_walkInterpreted
        (hdeeper attach (Option.filter_eq_some_iff.1 hattach).1) e m
        (t.add (.interpreted (.send entry.cls selector) m trusted) (some (s, bci)) (level + 1)).1
        ⟨t.scopes.length⟩
      have hlt :
          o.index < (t.add (.interpreted (.send entry.cls selector) m trusted) (some (s, bci))
          (level + 1)).1.scopes.length := by
        rw [add, List.length_append]
        exact Nat.lt_add_right _ ho
      have hne : o ≠ ⟨t.scopes.length⟩ := fun heq => Nat.lt_irrefl _ (heq ▸ ho)
      exact (hgains.finds_iff hlt fun _ _ => hne).trans (hadd _ rfl)
    · exact hadd _ rfl

/-- A cache adds what it is heard to say, unless a trap in its place has fired. -/
theorem adds_attachAt {n : Nat} (c : InlineCache) (hl : t.Linked) (hn : n ≤ t.scopes.length)
    (hs : s.index < n) (hun : ¬t.Finds s bci .uncommon) :
    Adds n (fun o b f => o = s ∧ b = bci ∧ e.Hears deeper.isSome trusted c f) t
      (e.attachAt outer trusted level deeper t s bci c) := by
  intro o b f ho
  show (e.attachAt outer trusted level deeper t s bci c).Finds o b f ↔
    t.Finds o b f ∨ o = s ∧ b = bci ∧ e.Hears deeper.isSome trusted c f
  have ho' : o.index < t.scopes.length := Nat.lt_of_lt_of_le ho hn
  rw [attachAt]
  -- The cases of the cache, in the order in which it is asked.
  by_cases hnever : c.neverExecuted
  · rw [if_pos hnever, if_neg (mt isUncommon_iff.1 hun), finds_addUntaken hl _ _ ho',
      hears_of_neverExecuted hnever]
  · rw [if_neg hnever]
    by_cases hflag : c.isMegamorphic ∨ c.flags.uninlinable
    · rw [if_pos (Bool.or_eq_true_iff.2 hflag), finds_add _ _ ho', Knowledge.shows_uninlinable,
        hears_of_flagged hnever hflag]
    · rw [if_neg (mt Bool.or_eq_true_iff.1 hflag)]
      by_cases hsilent : c.isEmpty ∨ ¬e.trusts trusted c
      · rw [if_pos (by simpa using hsilent)]
        simp [not_hears hnever hflag hsilent]
      · obtain ⟨hempty, htrusts⟩ := not_or.1 hsilent
        rw [not_not] at htrusts
        have hcounts :
            c.Counts := ⟨hnever, fun h => hflag (.inl h), fun h => hflag (.inr h), hempty⟩
        have hmark : n ≤ (t.markComplete s bci).scopes.length := by
          rwa [markComplete, FeedbackTree.modify, List.length_modify]
        have hentries : Adds n (fun o b f => ∃ x ∈ c.entries, o = s ∧ b = bci ∧
              ∃ k, e.calleeKey? deeper.isSome trusted c.selector x = some k ∧ f = .seen k)
              (t.markComplete s bci)
            (c.entries.foldl (e.attachEntry outer trusted level deeper s bci c.selector)
              (t.markComplete s bci)) := by
          refine (Adds.foldl (I := fun t => n ≤ t.scopes.length)
            (fun x hx t ht => ⟨?_, fun o b f ho => ?_⟩) hmark).2
          · exact Nat.le_trans ht
              (gains_attachEntry e outer trusted hdeeper level s bci c.selector t x).length_le
          · exact finds_attachEntry hdatabase hdeeper x _ (Nat.lt_of_lt_of_le ho ht)
        rw [if_neg (by simpa using hsilent), hentries o b f ho,
          finds_markComplete (Nat.lt_of_lt_of_le hs hn), or_assoc, hears_of_counts hcounts htrusts]
        refine or_congr_right ?_
        constructor
        · rintro (⟨rfl, rfl, hf⟩ | ⟨x, hx, rfl, rfl, hf⟩)
          · exact ⟨rfl, rfl, .inl hf⟩
          · exact ⟨rfl, rfl, .inr ⟨x, hx, hf⟩⟩
        · rintro ⟨rfl, rfl, hf | ⟨x, hx, hf⟩⟩
          · exact .inl ⟨rfl, rfl, hf⟩
          · exact .inr ⟨x, hx, rfl, rfl, hf⟩

end Caches

/-- A cache adds at its send what is heard of it, whatever depth is left. -/
theorem adds_attachCache {n : Nat} (c : InlineCache) (hdatabase : e.database = none) (hl : t.Linked)
    (hn : n ≤ t.scopes.length) (hs : s.index < n) (hun : ¬t.Finds s bci .uncommon) (left : Nat) :
    Adds n (fun o b f => o = s ∧ b = bci ∧ e.Hears (0 < left) trusted c f) t
      (e.attachCache outer trusted left t s bci c) := by
  rcases left with _ | left
  · exact adds_attachAt hdatabase (by rintro _ ⟨⟩) c hl hn hs hun
  · rw [decide_eq_true (Nat.succ_pos left)]
    refine adds_attachAt hdatabase ?_ c hl hn hs hun
    rintro _ ⟨⟩
    exact e.gains_attachCache outer trusted left

/-! ## Scopes, traps and sites -/

/-- The scopes of code show the keys under which they were inlined. -/
theorem finds_rebuilt {l : List CompileScope} {n : NativeId} {o : Offset} :
    (ofScopes (l.map (·.rebuilt n))).Finds ⟨o⟩ bci f ↔
      ∃ d ∈ l.map (·.desc), d.sender = some (o, bci) ∧ f = .seen d.key := by
  -- The rebuilt scopes come without marks, so all findings are scopes.
  have hmarks : ¬∃ x, (ofScopes (l.map (·.rebuilt n))).get? ⟨o⟩ = some x ∧ x.Marks bci f := by
    rintro ⟨x, hx, hmarks⟩
    obtain ⟨k, -, rfl⟩ := List.mem_map.1 (List.mem_of_getElem? hx)
    rcases f <;> cases hmarks
  have hsender (k : CompileScope) : (k.rebuilt n).sender = some (⟨o⟩, bci) ↔
      k.sender = some (o, bci) := by
    rcases hk : k.sender with _ | ⟨p, b⟩ <;> simp [CompileScope.rebuilt, hk]
  have hshows (k : CompileScope) : (k.rebuilt n).what.Shows f ↔ f = .seen k.key :=
    Knowledge.shows_of_key? rfl f
  simp only [Finds, hmarks, or_false, scopes_ofScopes, List.mem_map, exists_exists_and_eq_and,
    hsender, hshows]
  rfl

/-- The handles of scopes give the scope of each offset that has one. -/
theorem lookup_handles {l : List (Offset × ScopeId)} (h : ∀ x ∈ l, x.2 = ⟨x.1⟩) (o : Offset) :
    l.lookup o = if o ∈ l.map Prod.fst then some ⟨o⟩ else none := by
  induction l with
  | nil => rfl
  | cons x l ih =>
    rw [List.lookup_cons, ih fun y hy => h y (List.mem_cons_of_mem x hy)]
    simp only [List.map_cons, List.mem_cons]
    by_cases hx : o = x.1
    · simp only [hx, beq_self_eq_true, true_or, if_true]
      exact congrArg some (h x List.mem_cons_self)
    · simp only [beq_false_of_ne hx, hx, false_or]

/-- A scope of code is found under its number. -/
theorem lookup_placed {l : List CompileScope} (h : Ordered l) (n : NativeId) (o : Offset) :
    (placedUpTo n l l.length).ids.lookup o = if o < l.length then some ⟨o⟩ else none := by
  have hids : (placedUpTo n l l.length).ids = (l.map handle).reverse := by
    rw [placedUpTo, List.take_length]
  have hmem : o ∈ ((l.map handle).reverse).map Prod.fst ↔ o < l.length := by
    simp only [List.map_reverse, List.mem_reverse, List.map_map, List.mem_map]
    constructor
    · rintro ⟨k, hk, rfl⟩
      obtain ⟨i, hi⟩ := List.mem_iff_getElem?.1 hk
      have hid : (handle k).1 = i := h.id_eq i k hi
      exact hid.trans_lt (List.getElem?_eq_some_iff.1 hi).1
    · intro ho
      exact ⟨l[o], List.getElem_mem ho, h.id_eq o _ (List.getElem?_eq_getElem ho)⟩
  rw [hids, lookup_handles]
  · simp only [hmem]
  · intro x hx
    obtain ⟨k, -, rfl⟩ := List.mem_map.1 (List.mem_reverse.1 hx)
    rfl

variable {ids : List (Offset × ScopeId)} {n : Nat}

/-- A trap adds at its send what it shows. -/
theorem adds_attachTrap (hids : ∀ o, ids.lookup o = if o < n then some ⟨o⟩ else none)
    (hl : t.Linked) (hn : n ≤ t.scopes.length) (x : TrapSite) :
    Adds n (fun o b f => o = ⟨x.scope⟩ ∧ b = x.bci ∧ x.Shows f) t (attachTrap ids level t x) := by
  intro o b f ho
  show (attachTrap ids level t x).Finds o b f ↔ t.Finds o b f ∨
    o = ⟨x.scope⟩ ∧ b = x.bci ∧ x.Shows f
  rw [attachTrap, hids]
  by_cases hx : x.scope < n
  · rw [if_pos hx]
    simp only [TrapSite.Shows]
    split
    · rw [finds_markUncommon (Nat.lt_of_lt_of_le hx hn)]
    · rw [finds_addUntaken hl _ _ (Nat.lt_of_lt_of_le ho hn)]
  · have hne : o ≠ ⟨x.scope⟩ := fun heq => hx (by rwa [heq] at ho)
    rw [if_neg hx]
    simp [hne]

/-- A call site adds at its send what is heard of its cache. -/
theorem adds_attachSite (outer : LookupKey) (trusted : Bool) (hdatabase : e.database = none)
    (hids : ∀ o, ids.lookup o = if o < n then some ⟨o⟩ else none) (hl : t.Linked)
    (hn : n ≤ t.scopes.length) {x : CallSite}
    (hun : x.scope < n → ¬t.Finds ⟨x.scope⟩ x.bci .uncommon) (left : Nat) :
    Adds n (fun o b f => o = ⟨x.scope⟩ ∧ b = x.bci ∧ e.Hears (0 < left) trusted x.cache f) t
      (attachSite (e.attachCache outer trusted left) ids t x) := by
  rw [attachSite, hids]
  by_cases hx : x.scope < n
  · rw [if_pos hx]
    exact adds_attachCache x.cache hdatabase hl hn hx (hun hx) left
  · intro o b f ho
    have hne : o ≠ ⟨x.scope⟩ := fun heq => hx (by rwa [heq] at ho)
    rw [if_neg hx]
    simp [hne]

/-- All traps together add what each of them shows. -/
theorem adds_traps (level : Nat) (hids : ∀ o, ids.lookup o = if o < n then some ⟨o⟩ else none)
    (ht : t.Linked ∧ n ≤ t.scopes.length) (traps : List TrapSite) :
    ((traps.foldl (attachTrap ids level) t).Linked ∧
      n ≤ (traps.foldl (attachTrap ids level) t).scopes.length) ∧
      Adds n (fun o b f => ∃ x ∈ traps, o = ⟨x.scope⟩ ∧ b = x.bci ∧ x.Shows f) t
        (traps.foldl (attachTrap ids level) t) := by
  refine Adds.foldl (I := fun t => t.Linked ∧ n ≤ t.scopes.length) (fun x _ t ht => ?_) ht
  have hgains : Gains _ t (attachTrap ids level t x) := gains_attachTrap t x
  exact ⟨⟨hgains.linked ht.1, Nat.le_trans ht.2 hgains.length_le⟩, adds_attachTrap hids ht.1 ht.2 x⟩

/-- Sites add what their caches are heard to say, as long as no trap has fired at one of
    them. -/
theorem adds_sites (outer : LookupKey) (trusted : Bool) (sites : List CallSite)
    (hdatabase : e.database = none) (hids : ∀ o, ids.lookup o = if o < n then some ⟨o⟩ else none)
    (ht : t.Linked ∧ n ≤ t.scopes.length)
    (hun : ∀ x ∈ sites, x.scope < n → ¬t.Finds ⟨x.scope⟩ x.bci .uncommon) (left : Nat) :
    Adds n (fun o b f => ∃ x ∈ sites, o = ⟨x.scope⟩ ∧ b = x.bci ∧
      e.Hears (0 < left) trusted x.cache f) t
      (sites.foldl (attachSite (e.attachCache outer trusted left) ids) t) := by
  refine (Adds.foldl (I := fun t => (t.Linked ∧ n ≤ t.scopes.length) ∧
    ∀ x ∈ sites, x.scope < n → ¬t.Finds ⟨x.scope⟩ x.bci .uncommon)
    (fun x hx t ht => ?_) ⟨ht, hun⟩).2
  have hadds := adds_attachSite outer trusted hdatabase hids ht.1.1 ht.1.2 (ht.2 x hx) left
  have hgains : Gains _ t (attachSite (e.attachCache outer trusted left) ids t x) :=
    gains_attachSite (e.gains_attachCache outer trusted left) t x
  refine ⟨⟨⟨hgains.linked ht.1.1, Nat.le_trans ht.1.2 hgains.length_le⟩, fun y hy hlt hfinds => ?_⟩,
    hadds⟩
  rcases (hadds _ _ _ hlt).1 hfinds with hfinds | ⟨-, -, ⟨⟩⟩
  exact ht.2 y hy hlt hfinds

/-- The tree of code says about a send which callees were inlined there, what its trap shows,
    and what its cache is heard to say. -/
theorem finds_treeOfNative {l : List CompileScope} {n : NativeMethod} (h : Preordered l)
    (hne : l ≠ []) (hn : n.scopes = l.map (·.desc)) (henabled : e.settings.enabled)
    (hdatabase : e.database = none)
    (hapart : ∀ x ∈ n.sites, ∀ y ∈ n.traps, ¬(y.scope = x.scope ∧ y.bci = x.bci)) {o : Offset}
    (ho : o < l.length) :
    (e.treeOfNative n trusted).Finds ⟨o⟩ bci f ↔
      (∃ d ∈ n.scopes, d.sender = some (o, bci) ∧ f = .seen d.key) ∨
        (∃ s ∈ n.traps, s.scope = o ∧ s.bci = bci ∧ s.Shows f) ∨
        ∃ s ∈ n.sites, s.scope = o ∧ s.bci = bci ∧
          e.Hears (0 < e.settings.maxDepth.toNat) trusted s.cache f := by
  have hids := lookup_placed h.toOrdered n.id
  have hplaced : (placedUpTo n.id l l.length).tree.Linked ∧
      l.length ≤ (placedUpTo n.id l l.length).tree.scopes.length := by
    rw [tree_placedUpTo, scopes_ofScopes, List.length_map]
    exact ⟨linked_ofScopes _, Nat.le_refl _⟩
  have hbase {o : Offset} {bci : Bci} {f : Finding} :
      (placedUpTo n.id l l.length).tree.Finds ⟨o⟩ bci f ↔
      ∃ d ∈ n.scopes, d.sender = some (o, bci) ∧ f = .seen d.key := by
    rw [tree_placedUpTo, hn]
    exact finds_rebuilt
  obtain ⟨ht, htraps⟩ := adds_traps 0 hids hplaced
    (n.traps.mergeSort fun a b => recordLe (a.scope, a.bci) (b.scope, b.bci))
  have hsites := adds_sites n.key trusted
    (n.sites.mergeSort fun a b => recordLe (a.scope, a.bci) (b.scope, b.bci))
    hdatabase hids ht ?_ e.settings.maxDepth.toNat
  · rw [treeOfNative_eq_walkNative h hne hn henabled, walkNative, placeScopes_eq h hn]
    simp only [hsites _ _ _ ho, htraps _ _ _ ho, hbase, List.mem_mergeSort, or_assoc,
      ScopeId.mk.injEq, @eq_comm _ o, @eq_comm _ bci]
  · -- No trap has fired at any of the sites, because none is there.
    intro x hx hlt hfinds
    rcases (htraps _ _ _ hlt).1 hfinds with hfinds | ⟨y, hy, hscope, hbci, -⟩
    · obtain ⟨-, -, -, ⟨⟩⟩ := hbase.1 hfinds
    · exact hapart x (List.mem_mergeSort.1 hx) y (List.mem_mergeSort.1 hy)
        ⟨(congrArg ScopeId.index hscope).symm, hbci.symm⟩

/-- If all its caches count and have interpreted methods, the tree of code says what the code
    shows. -/
theorem finds_treeOfNative_of_trusts {l : List CompileScope} {n : NativeMethod} (h : Preordered l)
    (hne : l ≠ []) (hn : n.scopes = l.map (·.desc)) (henabled : e.settings.enabled)
    (hdatabase : e.database = none)
    (hinterpreted : ∀ x ∈ n.sites, ∀ y ∈ x.cache.entries, ∃ m, y.target = .interpreted m)
    (htrusts : ∀ x ∈ n.sites, e.trusts trusted x.cache)
    (hapart : ∀ x ∈ n.sites, ∀ y ∈ n.traps, ¬(y.scope = x.scope ∧ y.bci = x.bci)) {o : Offset}
    (ho : o < l.length) :
    (e.treeOfNative n trusted).Finds ⟨o⟩ bci f ↔ n.Finds o bci f := by
  rw [finds_treeOfNative h hne hn henabled hdatabase hapart ho,
    NativeMethod.Finds, NativeMethod.Observes]
  refine or_congr_right (or_congr_right (exists_congr fun x => and_congr_right fun hx => ?_))
  rw [hears_iff_shows (hinterpreted x hx) (htrusts x hx)]

end Evidence

end Warmup
