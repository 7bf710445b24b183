import Warmup.Proofs.TreeShape

/-!
# What a feedback tree gains

Caches, traps and records only add to a tree: the scopes that were there keep what
is known about them, their place and their level (`FeedbackTree.Gains`), and what
hangs at a send stays filed there. The scopes that are added are below the top level, and those that
hang at a scope that was there do so for a reason, which is a parameter of the relation. Without
such a reason a scope is not changed at all.

`Evidence.gains_attachCache`: whatever the cache of a send adds, at any number of
levels, hangs at the send itself or below what was added there; that the send must
not be inlined is added only by a cache that is megamorphic or was flagged so.
-/

namespace Warmup

namespace FeedbackTree

/-- Scopes are added to a tree, each below the top level. Those that hang at older
    scopes hang there as `P` allows. -/
structure Gains (P : ScopeId → Bci → Knowledge → Prop) (t t' : FeedbackTree) : Prop where
  keeps : ∀ (i : Nat) (s : FeedbackScope), t.scopes[i]? = some s →
    ∃ s', t'.scopes[i]? = some s' ∧ s'.what = s.what ∧ s'.sender = s.sender ∧ s'.level = s.level
  gained : ∀ (i : Nat) (s : FeedbackScope), t'.scopes[i]? = some s → t.scopes.length ≤ i →
    0 < s.level ∧ ∀ (o : ScopeId) (bci : Bci), s.sender = some (o, bci) →
    o.index < t.scopes.length → P o bci s.what
  same : ∀ (i : Nat) (s : FeedbackScope), t.scopes[i]? = some s → (∀ bci w, ¬P ⟨i⟩ bci w) →
    t'.scopes[i]? = some s
  linked : t.Linked → t'.Linked

/-- A cache that speaks says something about its own send, and not every cache that it
    must not be inlined. -/
def Says (speaks : InlineCache → Prop) (s : ScopeId) (bci : Bci) (c : InlineCache) (o : ScopeId)
    (b : Bci) (w : Knowledge) : Prop :=
  o = s ∧ b = bci ∧ speaks c ∧ (w.isUninlinable → c.isMegamorphic ∨ c.flags.uninlinable)

namespace Gains

variable {P P' : ScopeId → Bci → Knowledge → Prop} {t t' t'' : FeedbackTree}

theorem refl (t : FeedbackTree) : Gains P t t where
  keeps _ s hs := ⟨s, hs, rfl, rfl, rfl⟩
  gained _ _ hs hle := absurd (List.getElem?_eq_some_iff.1 hs).1 (Nat.not_lt.2 hle)
  same _ _ hs _ := hs
  linked h := h

theorem length_le (h : Gains P t t') : t.scopes.length ≤ t'.scopes.length := by
  by_contra hlt
  obtain ⟨s, hs, -⟩ := h.keeps t'.scopes.length _ (List.getElem?_eq_getElem (Nat.lt_of_not_le hlt))
  exact absurd (List.getElem?_eq_some_iff.1 hs).1 (Nat.lt_irrefl _)

/-- A scope that was there has kept what it stands for. -/
theorem of_lt (h : Gains P t t') {i : Nat} {e : FeedbackScope} (he : t'.scopes[i]? = some e)
    (hi : i < t.scopes.length) :
    ∃ e', t.scopes[i]? = some e' ∧ e.what = e'.what ∧ e.sender = e'.sender := by
  obtain ⟨e', he', hwhat, hsender, -⟩ := h.keeps i _ (List.getElem?_eq_getElem hi)
  obtain rfl := Option.some.inj (he.symm.trans he')
  exact ⟨_, List.getElem?_eq_getElem hi, hwhat, hsender⟩

/-- Where every scope is filed, those that come later are filed too. -/
theorem filedAt (h : Gains P t t') (ht : t.Filed) {s : ScopeId} (hs : s.index < t.scopes.length) :
    t'.FiledAt s := by
  refine (h.linked ht.linked).filedAt fun x e bci he hsender => ?_
  rcases Nat.lt_or_ge x.index t.scopes.length with hlt | hge
  · obtain ⟨e', he', -, hsender'⟩ := h.of_lt he hlt
    exact Nat.le_of_lt (ht.older x e' s bci he' (hsender' ▸ hsender))
  · exact Nat.le_trans (Nat.le_of_lt hs) hge

theorem mono (h : Gains P t t')
    (hP : ∀ o bci w, o.index < t.scopes.length → P o bci w → P' o bci w) :
    Gains P' t t' where
  keeps := h.keeps
  gained i s hs hle := by
    obtain ⟨hlevel, hplace⟩ := h.gained i s hs hle
    exact ⟨hlevel, fun o bci hsender ho => hP o bci s.what ho (hplace o bci hsender ho)⟩
  same i s hs hno :=
    h.same i s hs fun bci w hw => hno bci w (hP ⟨i⟩ bci w (List.getElem?_eq_some_iff.1 hs).1 hw)
  linked := h.linked

/-- Two changes are one. What the second one adds at scopes that were there before
    the first needs a reason of the first kind. -/
theorem trans_of (h : Gains P t t') (h' : Gains P' t' t'')
    (hP : ∀ o bci w, o.index < t.scopes.length → P' o bci w → P o bci w) : Gains P t t'' where
  keeps i s hs := by
    obtain ⟨s', hs', hwhat, hsender, hlevel⟩ := h.keeps i s hs
    obtain ⟨s'', hs'', hwhat', hsender', hlevel'⟩ := h'.keeps i s' hs'
    exact ⟨s'', hs'', hwhat'.trans hwhat, hsender'.trans hsender, hlevel'.trans hlevel⟩
  gained i s hs hle := by
    rcases Nat.lt_or_ge i t'.scopes.length with hi | hi
    · -- It was added by the first change, and has kept its place.
      obtain ⟨hlevel, hplace⟩ := h.gained i _ (List.getElem?_eq_getElem hi) hle
      obtain ⟨s', hs', hwhat', hsender', hlevel'⟩ := h'.keeps i _ (List.getElem?_eq_getElem hi)
      obtain rfl := Option.some.inj (hs.symm.trans hs')
      exact ⟨hlevel' ▸ hlevel, fun o bci hsender ho => hwhat' ▸
        hplace o bci (hsender' ▸ hsender) ho⟩
    · obtain ⟨hlevel, hplace⟩ := h'.gained i s hs hi
      refine ⟨hlevel, fun o bci hsender ho => ?_⟩
      exact hP o bci s.what ho (hplace o bci hsender (Nat.lt_of_lt_of_le ho h.length_le))
  same i s hs hno :=
    h'.same i s (h.same i s hs hno) fun bci w hw => hno bci w
      (hP ⟨i⟩ bci w (List.getElem?_eq_some_iff.1 hs).1 hw)
  linked hl := h'.linked (h.linked hl)

theorem trans (h : Gains P t t') (h' : Gains P t' t'') : Gains P t t'' :=
  h.trans_of h' fun _ _ _ _ hP => hP

theorem foldl {α : Type} {step : FeedbackTree → α → FeedbackTree} {l : List α}
    (h : ∀ a ∈ l, ∀ t, Gains P t (step t a)) (t : FeedbackTree) : Gains P t (l.foldl step t) := by
  induction l generalizing t with
  | nil => exact refl t
  | cons a l ih =>
    exact (h a List.mem_cons_self t).trans
      (ih (fun b hb => h b (List.mem_cons_of_mem a hb)) (step t a))

end Gains

variable {P : ScopeId → Bci → Knowledge → Prop}

/-! ## Single changes -/

/-- A scope that is added below the top level is a gain, with its own reason. -/
theorem gains_add (t : FeedbackTree) {w : Knowledge} {sender : Option (ScopeId × Bci)} {level : Nat}
    (hlevel : 0 < level) (hP : ∀ o bci, sender = some (o, bci) → P o bci w) :
    Gains P t (t.add w sender level).1 where
  keeps i s hs := ⟨s, by rw [add, List.getElem?_append_left (List.getElem?_eq_some_iff.1 hs).1, hs],
    rfl, rfl, rfl⟩
  gained i s hs hle := by
    rw [add, List.getElem?_append_right hle] at hs
    obtain rfl := List.mem_singleton.1 (List.mem_of_getElem? hs)
    exact ⟨hlevel, fun o bci hsender _ => hP o bci hsender⟩
  same i s hs _ := by rw [add, List.getElem?_append_left (List.getElem?_eq_some_iff.1 hs).1, hs]
  linked h := h.add w sender level

/-- A mark is a gain, if there is a reason at its scope. -/
theorem gains_modify (t : FeedbackTree) {s : ScopeId} {f : FeedbackScope → FeedbackScope}
    (hf : ∀ e, (f e).what = e.what ∧ (f e).sender = e.sender ∧ (f e).level = e.level)
    (hP : ∃ bci w, P s bci w) :
    Gains P t (t.modify s f) where
  keeps i e he := by
    refine ⟨if s.index = i then f e else e, by rw [modify, List.getElem?_modify, he]; rfl, ?_⟩
    split
    · exact hf e
    · exact ⟨rfl, rfl, rfl⟩
  gained i e he hle := by
    have hlt : i < (t.modify s f).scopes.length := (List.getElem?_eq_some_iff.1 he).1
    rw [modify, List.length_modify] at hlt
    exact absurd hlt (Nat.not_lt.2 hle)
  same i e he hno := by
    obtain ⟨bci, w, hw⟩ := hP
    have hne : s.index ≠ i := fun heq => hno bci w (heq ▸ hw)
    rw [modify, List.getElem?_modify, he]
    exact congrArg some (if_neg hne)
  linked h := h.modify fun e => (hf e).2.1

theorem gains_markUncommon (t : FeedbackTree) {s : ScopeId} {w : Knowledge} {bci : Bci}
    (hP : P s bci w) :
    Gains P t (t.markUncommon s bci) := gains_modify t (fun _ => ⟨rfl, rfl, rfl⟩) ⟨bci, w, hP⟩

theorem gains_markComplete (t : FeedbackTree) {s : ScopeId} {w : Knowledge} {bci : Bci}
    (hP : P s bci w) :
    Gains P t (t.markComplete s bci) := gains_modify t (fun _ => ⟨rfl, rfl, rfl⟩) ⟨bci, w, hP⟩

theorem gains_addUntaken (t : FeedbackTree) {s : ScopeId} {bci : Bci} {why : Untaken} {level : Nat}
    (hlevel : 0 < level) (hP : P s bci (.untaken why)) :
    Gains P t (t.addUntaken s bci why level) := by
  rw [addUntaken]
  split
  · exact .refl t
  · refine gains_add t hlevel ?_
    rintro _ _ ⟨⟩
    exact hP

/-! ## Records -/

/-- Marks of a record are made at one scope. -/
theorem gains_markRecorded (t : FeedbackTree) (s : ScopeId) (level : Nat)
    (untaken uninlinable complete : List Bci) :
    Gains (fun o _ _ => o = s) t (t.markRecorded s level untaken uninlinable complete) := by
  refine .trans (.trans (.foldl (fun bci _ t => ?_) t) (.foldl (fun bci _ t => ?_) _))
    (.foldl (fun bci _ t => ?_) _)
  · exact gains_addUntaken t (Nat.succ_pos level) rfl
  · refine gains_add t (Nat.succ_pos level) ?_
    rintro _ _ ⟨⟩
    rfl
  · exact gains_markComplete t (w := .nothing) rfl

mutual

/-- What is recorded about a scope hangs at the scope or below. -/
theorem gains_fill (c : ClassTable) (n : Database.Node) (t : FeedbackTree) (s : ScopeId)
    (level : Nat) :
    Gains (fun o _ _ => o = s) t (fill c n t s level) := by
  rcases n with ⟨children, untaken, uninlinable, complete⟩
  rw [fill]
  exact (gains_markRecorded t s level untaken uninlinable complete).trans
    (gains_fillCallees c children _ s level)
termination_by structural n

/-- Callees of a record hang at one scope, and what comes below them at scopes that are new. -/
theorem gains_fillCallees (c : ClassTable) (cs : List (Bci × NamedKey × Database.Node))
    (t : FeedbackTree) (s : ScopeId) (level : Nat) :
    Gains (fun o _ _ => o = s) t (fillCallees c cs t s level) := by
  rcases cs with _ | ⟨⟨bci, name, n⟩, cs⟩
  · rw [fillCallees]
    exact .refl t
  · rw [fillCallees]
    rcases resolveNames c name with _ | ⟨key, method⟩
    · exact gains_fillCallees c cs t s level
    · have hadd : Gains (fun o _ _ => o = s) t
          (t.add (.recorded key method) (some (s, bci)) (level + 1)).1 := by
        refine gains_add t (Nat.succ_pos level) ?_
        rintro _ _ ⟨⟩
        rfl
      have hfill := gains_fill c n (t.add (.recorded key method) (some (s, bci)) (level + 1)).1
        ⟨t.scopes.length⟩ (level + 1)
      refine (hadd.trans_of hfill ?_).trans (gains_fillCallees c cs _ s level)
      rintro _ _ _ ho rfl
      exact absurd ho (Nat.lt_irrefl _)
termination_by structural cs

end

/-- A recorded callee hangs at its send, and all else below it. -/
theorem gains_graft (c : ClassTable) (n : Database.Node) (key : LookupKey) (method : MethodId)
    (t : FeedbackTree) {sender : Option (ScopeId × Bci)} {level : Nat} (hlevel : 0 < level)
    (hP : ∀ o bci, sender = some (o, bci) → P o bci (.recorded key method)) :
    Gains P t (graft c n key method t sender level) := by
  refine (gains_add t hlevel hP).trans_of (gains_fill c n _ ⟨t.scopes.length⟩ level) ?_
  rintro _ _ _ ho rfl
  exact absurd ho (Nat.lt_irrefl _)

end FeedbackTree

namespace Evidence

open FeedbackTree

variable {P : ScopeId → Bci → Knowledge → Prop} {n : NativeMethod} {level : Nat}
  {parent : Option (ScopeId × Bci)} {ids : List (Offset × ScopeId)} {attach : Attach}

/-! ## Native code -/

/-- While scopes of native code are placed in a tree, only the first one hangs at a
    scope that was there before. -/
structure Placing (parent : Option (ScopeId × Bci)) (t : FeedbackTree) (p : Placed) : Prop where
  gains : Gains (fun o bci w => parent = some (o, bci) ∧ w.isUninlinable = false) t p.tree
  ids : ∀ x ∈ p.ids, t.scopes.length ≤ x.2.index
  opened : ∀ x ∈ p.opened, t.scopes.length ≤ x.2.index
  start : p.ids = [] → p.opened = []

/-- Placing one scope more, below one that was placed, or below the parent. -/
theorem Placing.add {t : FeedbackTree} {p : Placed} (h : Placing parent t p) (hlevel : 0 < level)
    {d : ScopeDesc} {opened : List (Offset × ScopeId)}
    (hopened : ∀ x ∈ opened, t.scopes.length ≤ x.2.index) {sender : Option (ScopeId × Bci)}
    (hsender : ∀ o bci, sender = some (o, bci) → o.index < t.scopes.length → parent = some (o, bci)) :
    Placing parent t (p.add n level d opened sender) where
  gains := by
    refine h.gains.trans_of (gains_add p.tree hlevel (P := fun o bci w => sender = some (o, bci) ∧
      w.isUninlinable = false) fun o bci hs => ⟨hs, rfl⟩) ?_
    rintro o bci w ho ⟨hs, hw⟩
    exact ⟨hsender o bci hs ho, hw⟩
  ids x hx := by
    rcases List.mem_cons.1 hx with rfl | hx
    · exact h.gains.length_le
    · exact h.ids x hx
  opened x hx := by
    rcases List.mem_cons.1 hx with rfl | hx
    · exact h.gains.length_le
    · exact hopened x hx
  start := by rintro ⟨⟩

theorem Placing.step {t : FeedbackTree} {p : Placed} (h : Placing parent t p) (hlevel : 0 < level)
    (d : ScopeDesc) :
    Placing parent t (p.step n level parent d) := by
  rw [Placed.step]
  rcases hd : d.sender with _ | ⟨sender, bci⟩
  · simp only
    split
    · exact h.add hlevel h.opened fun _ _ hs _ => hs
    · exact h
  · simp only
    split
    · exact ⟨h.gains, h.ids, by rintro _ ⟨⟩, fun _ => rfl⟩
    · next s rest hdrop =>
      -- What is still open was placed here.
      have hopened : ∀ x ∈ s :: rest, t.scopes.length ≤ x.2.index :=
        fun x hx => h.opened x ((List.dropWhile_sublist _).subset (hdrop ▸ hx))
      refine h.add hlevel hopened ?_
      rintro _ _ ⟨⟩ ho
      exact absurd ho (Nat.not_lt.2 (hopened s List.mem_cons_self))

/-- Placing all scopes adds nothing to the tree that was there, but the root at its parent. -/
theorem placing_placeScopes (hlevel : 0 < level) (t : FeedbackTree) :
    Placing parent t (placeScopes n level parent t) := by
  rw [placeScopes]
  generalize n.scopes.mergeSort _ = l
  have hstart : Placing parent t { tree := t } :=
    ⟨.refl t, by rintro _ ⟨⟩, by rintro _ ⟨⟩, fun _ => rfl⟩
  generalize ({ tree := t } : Placed) = p at hstart
  induction l generalizing p with
  | nil => exact hstart
  | cons d l ih => exact ih _ (hstart.step hlevel d)

/-- What a trap says hangs at the send of the trap. -/
theorem gains_attachTrap (t : FeedbackTree) (s : TrapSite) :
    Gains (fun o bci w => ids.lookup s.scope = some o ∧ bci = s.bci ∧ w.isUninlinable = false) t
      (attachTrap ids level t s) := by
  rw [attachTrap]
  rcases hid : ids.lookup s.scope with _ | id
  · exact .refl t
  · simp only
    split
    · exact gains_markUncommon t (w := .nothing) ⟨rfl, rfl, rfl⟩
    · exact gains_addUntaken t (Nat.succ_pos level) ⟨rfl, rfl, rfl⟩

section Attach

variable {speaks : InlineCache → Prop}
  (hattach : ∀ t s bci c, Gains (Says speaks s bci c) t (attach t s bci c))
include hattach

theorem gains_attachSite (t : FeedbackTree) (s : CallSite) :
    Gains (fun o bci w => ∃ id, ids.lookup s.scope = some id ∧ Says speaks id s.bci s.cache o bci w)
      t (attachSite attach ids t s) := by
  rw [attachSite]
  rcases hid : ids.lookup s.scope with _ | id
  · exact .refl t
  · exact (hattach t id s.bci s.cache).mono fun _ _ _ _ hsays => ⟨id, rfl, hsays⟩

/-- What the traps and caches of native code add to the places of its scopes. -/
theorem gains_records (n : NativeMethod) (level : Nat) (t : FeedbackTree) :
    Gains (fun o bci w => ∃ x, ids.lookup x = some o ∧
        ((∃ s ∈ n.traps, s.scope = x ∧ s.bci = bci ∧ w.isUninlinable = false) ∨
          ∃ s ∈ n.sites, s.scope = x ∧ s.bci = bci ∧ speaks s.cache ∧
            (w.isUninlinable → s.cache.isMegamorphic ∨ s.cache.flags.uninlinable))) t
      ((n.sites.mergeSort fun a b => recordLe (a.scope, a.bci) (b.scope, b.bci)).foldl
        (attachSite attach ids)
        ((n.traps.mergeSort fun a b => recordLe (a.scope, a.bci) (b.scope, b.bci)).foldl
          (attachTrap ids level) t)) := by
  refine .trans (.foldl (fun s hs t => ?_) t) (.foldl (fun s hs t => ?_) _)
  · refine (gains_attachTrap t s).mono ?_
    rintro o bci w - ⟨ho, rfl, hw⟩
    exact ⟨s.scope, ho, .inl ⟨s, List.mem_mergeSort.1 hs, rfl, rfl, hw⟩⟩
  · refine (gains_attachSite hattach t s).mono ?_
    rintro o bci w - ⟨id, hid, rfl, rfl, hspeaks, hw⟩
    exact ⟨s.scope, hid, .inr ⟨s, List.mem_mergeSort.1 hs, rfl, rfl, hspeaks, hw⟩⟩

/-- Walking code adds nothing to the scopes that were there, but the root at its parent. -/
theorem gains_walkNative (hlevel : 0 < level) (t : FeedbackTree) :
    Gains (fun o bci w => parent = some (o, bci) ∧ w.isUninlinable = false) t
      (walkNative attach n level parent t) := by
  have hplaced : Placing parent t (placeScopes n level parent t) := placing_placeScopes hlevel t
  refine hplaced.gains.trans_of (gains_records hattach n level _) ?_
  rintro o bci w ho ⟨x, hx, -⟩
  obtain ⟨l, l', hids, -⟩ := List.lookup_eq_some_iff.1 hx
  exact absurd ho (Nat.not_lt.2 (hplaced.ids (x, o) (by simp [hids])))

/-- Walking a method adds to its own scope only. -/
theorem gains_walkInterpreted (e : Evidence) (m : MethodId) (t : FeedbackTree) (s : ScopeId) :
    Gains (fun o _ _ => o = s) t (e.walkInterpreted attach m t s) :=
  .foldl (fun c _ t => (hattach t s c.1 c.2).mono fun _ _ _ _ hsays => hsays.1) t

end Attach

/-! ## Caches -/

/-- A cache has something to say: it never ran, must not be inlined, or has classes that count. -/
def Speaks (e : Evidence) (trusted : Bool) (c : InlineCache) : Prop :=
  c.neverExecuted ∨ (c.isMegamorphic ∨ c.flags.uninlinable) ∨ ¬c.isEmpty ∧ e.trusts trusted c

section Caches

variable (e : Evidence) (outer : LookupKey) (trusted : Bool) {deeper : Option Attach}
  (hdeeper : ∀ attach ∈ deeper, ∀ t s bci c,
    Gains (Says (e.Speaks trusted) s bci c) t (attach t s bci c))
include hdeeper

/-- An entry adds its callee at the send, and the rest below it. -/
theorem gains_attachEntry (level : Nat) (s : ScopeId) (bci : Bci) (selector : Selector)
    (t : FeedbackTree) (entry : CacheEntry) :
    Gains (fun o b w => some (s, bci) = some (o, b) ∧ w.isUninlinable = false) t
      (e.attachEntry outer trusted level deeper s bci selector t entry) := by
  have hpos : 0 < level + 1 := Nat.succ_pos level
  rw [attachEntry]
  simp only
  split
  · exact gains_graft _ _ _ _ t hpos fun o b hs => ⟨hs, rfl⟩
  · split
    · split
      · exact .refl t
      · split
        · next hattach =>
          exact gains_walkNative (hdeeper _ (Option.filter_eq_some_iff.1 hattach).1) hpos t
        · exact gains_add t hpos fun o b hs => ⟨hs, rfl⟩
    · split
      · next hattach =>
        have hattach' := hdeeper _ (Option.filter_eq_some_iff.1 hattach).1
        refine (gains_add t hpos fun o b hs => ⟨hs, rfl⟩).trans_of
          (gains_walkInterpreted hattach' e _ _ _) ?_
        rintro _ _ _ ho rfl
        exact absurd ho (Nat.lt_irrefl _)
      · exact gains_add t hpos fun o b hs => ⟨hs, rfl⟩

/-- A cache adds to its send, and only if it speaks. -/
theorem gains_attachAt (level : Nat) (t : FeedbackTree) (s : ScopeId) (bci : Bci)
    (c : InlineCache) :
    Gains (Says (e.Speaks trusted) s bci c) t
      (e.attachAt outer trusted level deeper t s bci c) := by
  have hpos : 0 < level + 1 := Nat.succ_pos level
  rw [attachAt]
  split
  · next hnever =>
    split
    · exact .refl t
    · exact gains_addUntaken t hpos ⟨rfl, rfl, .inl hnever, by rintro ⟨⟩⟩
  · split
    · -- Only here something is said to be uninlinable.
      next hflag =>
      refine gains_add t hpos ?_
      rintro _ _ ⟨⟩
      exact ⟨rfl, rfl, .inr (.inl (by simpa using hflag)), fun _ => by simpa using hflag⟩
    · split
      · exact .refl t
      · next hsilent =>
        have hspeaks : e.Speaks trusted c := .inr (.inr (by simpa using hsilent))
        refine (gains_markComplete t (w := .nothing) ⟨rfl, rfl, hspeaks, by rintro ⟨⟩⟩).trans
          (.foldl (fun entry _ t => ?_) _)
        refine (gains_attachEntry e outer trusted hdeeper level s bci c.selector t entry).mono ?_
        rintro o b w - ⟨⟨⟩, hw⟩
        exact ⟨rfl, rfl, hspeaks, fun h => by simp [hw] at h⟩

end Caches

/-- What the cache of a send adds hangs at the send or below what was added there.
    That the send must not be inlined is added only by a cache that is
    megamorphic, or that was flagged when it was compiled. -/
theorem gains_attachCache (e : Evidence) (outer : LookupKey) (trusted : Bool) (left : Nat)
    (t : FeedbackTree) (s : ScopeId) (bci : Bci) (c : InlineCache) :
    Gains (Says (e.Speaks trusted) s bci c) t (e.attachCache outer trusted left t s bci c) := by
  induction left generalizing t s bci c with
  | zero => exact gains_attachAt e outer trusted (by rintro _ ⟨⟩) _ t s bci c
  | succ left ih =>
    refine gains_attachAt e outer trusted ?_ _ t s bci c
    rintro _ ⟨⟩
    exact ih

end Evidence

end Warmup
