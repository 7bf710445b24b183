import Mathlib.Data.List.Perm.Basic
import Warmup.FeedbackTree.Evidence
import Warmup.Proofs.Basic
import Warmup.Proofs.Lookup

/-!
# The shape of feedback trees

However a feedback tree comes about, scopes are added to it one by one, and each hangs at a scope
that was there before (`FeedbackTree.Grows`). This is so for records, for native code of whatever
scopes, and for caches that lead back to the methods they were found in.

* `FeedbackTree.Linked`: what is filed at a send are the scopes that name it as their sender, which
  every change keeps so;
* `Grows.shaped`: what is built from nothing has a root, and every other scope has a sender with a
  smaller handle;
* `Shaped.preorder_perm`: going down from the root one comes across every scope, once;
* `Evidence.grows_attachCache`: callees are walked a bounded number of levels deep. Only what comes
  from the database can be deeper.
-/

namespace Warmup

namespace Knowledge

/-- Whether the method is recorded in the database. -/
def isRecorded : Knowledge → Bool
  | recorded _ _ => true
  | _ => false

/-- Whether the sends of the method were looked at. -/
def isWalked : Knowledge → Bool
  | interpreted _ _ _ | inlined _ _ _ _ _ => true
  | _ => false

end Knowledge

namespace FeedbackTree

/-! ## Links -/

/-- The scopes that are filed at a send, if each is filed at the sender that it names and that is
    there. -/
def hanging (l : List FeedbackScope) : List ((ScopeId × Bci) × ScopeId) :=
  (l.map (·.sender)).zipIdx.filterMap fun x => (x.1.filter fun d => d.1.index ≤ x.2).map (·, ⟨x.2⟩)

/-- The tree of some scopes. -/
def ofScopes (l : List FeedbackScope) : FeedbackTree := ⟨l, hanging l⟩

/-- What is filed at the sends of a tree is what hangs there. -/
def Linked (t : FeedbackTree) : Prop := t.callees = hanging t.scopes

section Linked

variable {t : FeedbackTree} {s x : ScopeId} {bci : Bci}

theorem linked_ofScopes (l : List FeedbackScope) : (ofScopes l).Linked := rfl

theorem linked_empty : empty.Linked := rfl

@[simp] theorem scopes_ofScopes (l : List FeedbackScope) : (ofScopes l).scopes = l := rfl

/-- A scope that is added is filed at its sender. -/
theorem Linked.add (h : t.Linked) (w : Knowledge) (sender : Option (ScopeId × Bci)) (level : Nat) :
    (t.add w sender level).1.Linked := by
  rw [Linked, FeedbackTree.add, h, hanging, hanging, List.map_append,
    List.zipIdx_append, List.filterMap_append]
  refine congrArg (_ ++ ·) ?_
  rcases hfiled : t.filing? sender with _ | d <;> rw [filing?] at hfiled <;> simp [hfiled]

/-- Adding to a tree that is given by its scopes is adding to the list. -/
theorem ofScopes_add (l : List FeedbackScope) (w : Knowledge) (sender : Option (ScopeId × Bci))
    (level : Nat) :
    (ofScopes l).add w sender level =
      (ofScopes (l ++ [{ what := w, sender := sender, level := level }]), ⟨l.length⟩) := by
  refine Prod.ext ?_ rfl
  have hlinked := (linked_ofScopes l).add w sender level
  rw [Linked] at hlinked
  rw [ofScopes, FeedbackTree.mk.injEq]
  exact ⟨rfl, hlinked⟩

/-- A scope that is changed keeps its place. -/
theorem Linked.modify (h : t.Linked) {f : FeedbackScope → FeedbackScope}
    (hf : ∀ e, (f e).sender = e.sender) :
    (t.modify s f).Linked := by
  have hsenders : (t.scopes.modify s.index f).map (·.sender) = t.scopes.map (·.sender) := by
    refine List.ext_getElem? fun i => ?_
    rw [List.getElem?_map, List.getElem?_map, List.getElem?_modify]
    rcases t.scopes[i]? with _ | e
    · rfl
    · rw [Option.map_eq_map, Option.map_some, Option.map_some, Option.map_some]
      split
      · rw [hf]
      · rfl
  rw [Linked, FeedbackTree.modify, hanging, hsenders]
  exact h

/-- What is filed at a send are the scopes that name it and are not older. -/
theorem Linked.mem_subscopes (h : t.Linked) :
    x ∈ t.subscopes s bci ↔ ∃ e, t.get? x = some e ∧ e.sender = some (s, bci) ∧
      s.index ≤ x.index := by
  rw [subscopes, h, hanging]
  simp only [List.mem_map, List.mem_filter, List.mem_filterMap, decide_eq_true_eq,
    List.mem_zipIdx_iff_getElem?, List.getElem?_map, Option.map_eq_some_iff,
    Option.filter_eq_some_iff]
  constructor
  · rintro ⟨_, ⟨⟨⟨_, i⟩, ⟨e, he, rfl⟩, d, ⟨hsender, hle⟩, rfl⟩, hd⟩, rfl⟩
    obtain rfl : d = (s, bci) := hd
    exact ⟨e, he, hsender, hle⟩
  · rintro ⟨e, he, hsender, hle⟩
    exact ⟨((s, bci), x), ⟨⟨(e.sender, x.index), ⟨e, he, rfl⟩, (s, bci), ⟨hsender, hle⟩, rfl⟩, rfl⟩,
      rfl⟩

/-- What hangs at a send is filed in the order of the handles. -/
theorem Linked.pairwise_subscopes (h : t.Linked) (s : ScopeId) (bci : Bci) :
    (t.subscopes s bci).Pairwise (·.index < ·.index) := by
  have hindices : ((t.scopes.map (·.sender)).zipIdx.map Prod.snd).Pairwise (· < ·) := by
    rw [List.zipIdx_map_snd]
    exact List.pairwise_lt_range'
  rw [subscopes, h, hanging]
  refine List.pairwise_map.2 (List.Pairwise.filter _ (List.pairwise_filterMap.2 ?_))
  refine (List.pairwise_map.1 hindices).imp fun {a b} hab x hx y hy => ?_
  obtain ⟨d, -, rfl⟩ := Option.map_eq_some_iff.1 hx
  obtain ⟨d', -, rfl⟩ := Option.map_eq_some_iff.1 hy
  exact hab

theorem Linked.nodup_subscopes (h : t.Linked) (s : ScopeId) (bci : Bci) :
    (t.subscopes s bci).Nodup := by
  refine (h.pairwise_subscopes s bci).imp fun {a b} hlt heq => ?_
  rw [heq] at hlt
  exact Nat.lt_irrefl _ hlt

end Linked

/-- What is filed at the sends of a scope are the scopes that name them as their senders. -/
def FiledAt (t : FeedbackTree) (s : ScopeId) : Prop :=
  ∀ bci x, x ∈ t.subscopes s bci ↔ ∃ e, t.get? x = some e ∧ e.sender = some (s, bci)

/-- A scope is filed where it hangs, if it does not hang at a younger one. -/
theorem Linked.filedAt {t : FeedbackTree} (h : t.Linked) {s : ScopeId}
    (holder : ∀ x e bci, t.get? x = some e → e.sender = some (s, bci) → s.index ≤ x.index) :
    t.FiledAt s := by
  intro bci x
  rw [h.mem_subscopes]
  exact exists_congr fun e => and_congr_right fun he => and_iff_left_of_imp (holder x e bci he)

/-- The sends of a scope are those where something is filed. -/
theorem mem_sites {t : FeedbackTree} {s : ScopeId} {bci : Bci} :
    bci ∈ t.sites s ↔ ∃ x, x ∈ t.subscopes s bci := by
  simp only [sites, subscopes, sortBcis, List.mem_eraseDups, List.mem_mergeSort,
    List.mem_map, List.mem_filter, decide_eq_true_eq, Prod.exists, Prod.mk.injEq]
  constructor
  · rintro ⟨o, b, x, ⟨hmem, rfl⟩, rfl⟩
    exact ⟨x, o, b, x, ⟨hmem, rfl, rfl⟩, rfl⟩
  · rintro ⟨x, o, b, y, ⟨hmem, rfl, rfl⟩, rfl⟩
    exact ⟨o, b, y, ⟨hmem, rfl⟩, rfl⟩

/-! ## Growth -/

/-- The scope is recorded in the database. -/
def Records (t : FeedbackTree) (s : ScopeId) : Prop := ∃ e, t.get? s = some e ∧ e.what.isRecorded

/-- A scope comes from the database: it is recorded there, or tells of a send of a recorded one. -/
def FromRecord (t : FeedbackTree) (w : Knowledge) (sender : Option (ScopeId × Bci)) : Prop :=
  w.isRecorded ∨ ∃ o bci, sender = some (o, bci) ∧ t.Records o

/-- The levels that scopes have where callees are walked `d` levels deep. -/
def Within (d : Nat) (w : Knowledge) (level : Nat) : Prop :=
  level ≤ d + 1 ∧ (w.isWalked → level ≤ d)

/-- A scope can hang at a scope that is there, and one without a sender can be the first one. -/
def Offers (t : FeedbackTree) : Option (ScopeId × Bci) → Prop
  | none => t.scopes = []
  | some (s, _) => s.index < t.scopes.length

/-- Scopes are added to a tree one by one, and sends are marked. A scope is recorded only if `R`
    holds, and if it does not come from the database, its level is limited. -/
inductive Grows (R : Prop) (d : Nat) (t : FeedbackTree) : FeedbackTree → Prop
  | refl : Grows R d t t
  | add {t' : FeedbackTree} {w : Knowledge} {sender : Option (ScopeId × Bci)} {level : Nat} :
    Grows R d t t' →
    t'.Offers sender → (w.isRecorded → R) → (t'.FromRecord w sender ∨ Within d w level) →
    Grows R d t (t'.add w sender level).1
  | mark {t' : FeedbackTree} {s : ScopeId} {f : FeedbackScope → FeedbackScope} : Grows R d t t' →
    (∀ e, (f e).what = e.what ∧ (f e).sender = e.sender ∧ (f e).level = e.level) →
      Grows R d t (t'.modify s f)

variable {R : Prop} {d : Nat} {t t' t'' : FeedbackTree} {s : ScopeId}

/-- A new scope gets the next number. -/
theorem get?_add (t : FeedbackTree) (w : Knowledge) (sender : Option (ScopeId × Bci)) (level : Nat)
    (x : ScopeId) :
    (t.add w sender level).1.get? x =
      if x.index = t.scopes.length then some { what := w, sender := sender, level := level }
        else t.get? x := by
  rcases Nat.lt_trichotomy x.index t.scopes.length with h | h | h
  · rw [if_neg (Nat.ne_of_lt h)]
    exact List.getElem?_append_left h
  · rw [if_pos h]
    simp [get?, add, h]
  · rw [if_neg (Nat.ne_of_gt h), get?, get?,
      List.getElem?_eq_none (by simpa [add] using Nat.succ_le_of_lt h),
      List.getElem?_eq_none (Nat.le_of_lt h)]

theorem get?_modify (t : FeedbackTree) (s : ScopeId) (f : FeedbackScope → FeedbackScope)
    (x : ScopeId) :
    (t.modify s f).get? x = (t.get? x).map fun e => if s.index = x.index then f e else e := by
  rw [get?, modify, List.getElem?_modify]
  rfl

theorem index_lt_of_get? {e : FeedbackScope} (h : t.get? s = some e) : s.index < t.scopes.length :=
  (List.getElem?_eq_some_iff.1 h).1

theorem Records.index_lt (h : t.Records s) : s.index < t.scopes.length := by
  obtain ⟨e, he, -⟩ := h
  exact index_lt_of_get? he

namespace Grows

theorem trans (h : Grows R d t t') (h' : Grows R d t' t'') : Grows R d t t'' := by
  induction h' with
  | refl => exact h
  | add _ hplace hrecord hlevel ih => exact ih.add hplace hrecord hlevel
  | mark _ hf ih => exact ih.mark hf

theorem length_le (h : Grows R d t t') : t.scopes.length ≤ t'.scopes.length := by
  induction h with
  | refl => exact Nat.le_refl _
  | add _ _ _ _ ih => exact Nat.le_trans ih (by simp [FeedbackTree.add])
  | mark _ _ ih => exact Nat.le_trans ih (by simp [modify])

/-- What was recorded stays so. -/
theorem records (h : Grows R d t t') (hs : t.Records s) : t'.Records s := by
  induction h with
  | refl => exact hs
  | add _ _ _ _ ih =>
    obtain ⟨e, he, hrecorded⟩ := ih
    exact ⟨e, by rw [get?_add, if_neg (Nat.ne_of_lt (index_lt_of_get? he)), he], hrecorded⟩
  -- A mark leaves alone what a scope knows.
  | mark _ hf ih =>
    obtain ⟨e, he, hrecorded⟩ := ih
    refine ⟨_, by rw [get?_modify, he, Option.map_some], ?_⟩
    split
    · rw [(hf e).1]
      exact hrecorded
    · exact hrecorded

/-- One step after another, each where the ones before have led. -/
theorem foldl {α : Type} {step : FeedbackTree → α → FeedbackTree} {l : List α}
    (h : ∀ a ∈ l, ∀ t', Grows R d t t' → Grows R d t' (step t' a)) :
    Grows R d t (l.foldl step t) := by
  induction l generalizing t with
  | nil => exact .refl
  | cons a l ih =>
    have hfirst := h a List.mem_cons_self t .refl
    exact hfirst.trans (ih fun b hb t' ht' => h b (List.mem_cons_of_mem a hb) t' (hfirst.trans ht'))

end Grows

/-! ## Shape -/

/-- Every scope hangs at an older one and is filed there. -/
structure Filed (t : FeedbackTree) : Prop where
  linked : t.Linked
  older : ∀ x e o bci, t.get? x = some e → e.sender = some (o, bci) → o.index < x.index

/-- The first scope is the root, any other hangs at an older one, and what does not come from the
    database has a limited level. -/
structure Shaped (R : Prop) (d : Nat) (t : FeedbackTree) : Prop extends t.Filed where
  root : ∀ e, t.get? root = some e → e.sender = none
  sender : ∀ s e, t.get? s = some e → s ≠ FeedbackTree.root → ∃ o bci, e.sender = some (o, bci)
  recorded : ∀ s, t.Records s → R
  level : ∀ s e, t.get? s = some e → t.FromRecord e.what e.sender ∨ Within d e.what e.level

theorem Filed.filedAt (h : t.Filed) (s : ScopeId) : t.FiledAt s :=
  h.linked.filedAt fun x e bci he hsender => Nat.le_of_lt (h.older x e s bci he hsender)

/-- A scope at an offered place is filed. -/
theorem Filed.add (h : t.Filed) {w : Knowledge} {sender : Option (ScopeId × Bci)} {level : Nat}
    (hplace : t.Offers sender) : (t.add w sender level).1.Filed := by
  refine ⟨h.linked.add w sender level, fun x e o bci he hsender => ?_⟩
  rw [get?_add] at he
  split at he
  · next hnew =>
    obtain rfl := Option.some.inj he
    obtain rfl : sender = some (o, bci) := hsender
    exact hnew ▸ hplace
  · exact h.older x e o bci he hsender

/-- What a scope stands for is not changed by marks. -/
theorem get?_of_modify {f : FeedbackScope → FeedbackScope}
    (hf : ∀ e, (f e).what = e.what ∧ (f e).sender = e.sender ∧ (f e).level = e.level) {x : ScopeId}
    {e : FeedbackScope} (he : (t.modify s f).get? x = some e) :
    ∃ e', t.get? x = some e' ∧ e.what = e'.what ∧ e.sender = e'.sender ∧ e.level = e'.level := by
  rw [get?_modify] at he
  obtain ⟨e', he', rfl⟩ := Option.map_eq_some_iff.1 he
  refine ⟨e', he', ?_⟩
  split
  · exact hf e'
  · exact ⟨rfl, rfl, rfl⟩

theorem Filed.mark (h : t.Filed) {f : FeedbackScope → FeedbackScope}
    (hf : ∀ e, (f e).what = e.what ∧ (f e).sender = e.sender ∧ (f e).level = e.level) :
    (t.modify s f).Filed := by
  refine ⟨h.linked.modify fun e => (hf e).2.1, fun x e o bci he hsender => ?_⟩
  obtain ⟨e', he', -, hsame, -⟩ := get?_of_modify hf he
  exact h.older x e' o bci he' (hsame ▸ hsender)

theorem Grows.filed (h : Grows R d t t') (ht : t.Filed) : t'.Filed := by
  induction h with
  | refl => exact ht
  | add _ hplace _ _ ih => exact ih.add hplace
  | mark _ hf ih => exact ih.mark hf

/-- Adding a scope at an offered place keeps the shape. -/
theorem Shaped.add (h : t.Shaped R d) {w : Knowledge} {sender : Option (ScopeId × Bci)}
    {level : Nat} (hplace : t.Offers sender) (hrecord : w.isRecorded → R)
    (hlevel : t.FromRecord w sender ∨ Within d w level) :
    (t.add w sender level).1.Shaped R d := by
  have hgrows : Grows R d t (t.add w sender level).1 := Grows.refl.add hplace hrecord hlevel
  have hkeeps {w' : Knowledge} {sender' : Option (ScopeId × Bci)} (hw : t.FromRecord w' sender') :
      (t.add w sender level).1.FromRecord w' sender' := by
    rcases hw with hw | ⟨o, bci, hsender, ho⟩
    · exact .inl hw
    · exact .inr ⟨o, bci, hsender, hgrows.records ho⟩
  refine { h.toFiled.add hplace with
    root := ?root, sender := ?sender, recorded := ?recorded, level := ?level }
  case root =>
    intro e he
    rw [get?_add] at he
    split at he
    · next hempty =>
      -- The first scope finds an empty tree, which has no place for a sender.
      obtain rfl := Option.some.inj he
      rcases sender with _ | ⟨o, bci⟩
      · rfl
      · exact absurd hplace (by rw [Offers, ← hempty]; exact Nat.not_lt_zero _)
    · exact h.root e he
  case sender =>
    intro s e he hs
    rw [get?_add] at he
    split at he
    · next hnew =>
      obtain rfl := Option.some.inj he
      rcases sender with _ | ⟨o, bci⟩
      · rw [show t.scopes = [] from hplace] at hnew
        exact absurd (congrArg ScopeId.mk hnew) hs
      · exact ⟨o, bci, rfl⟩
    · exact h.sender s e he hs
  case recorded =>
    rintro s ⟨e, he, hrecorded⟩
    rw [get?_add] at he
    split at he
    · obtain rfl := Option.some.inj he
      exact hrecord hrecorded
    · exact h.recorded s ⟨e, he, hrecorded⟩
  case level =>
    intro s e he
    rw [get?_add] at he
    split at he
    · obtain rfl := Option.some.inj he
      exact hlevel.imp_left hkeeps
    · exact (h.level s e he).imp_left hkeeps

theorem Shaped.mark (h : t.Shaped R d) {f : FeedbackScope → FeedbackScope}
    (hf : ∀ e, (f e).what = e.what ∧ (f e).sender = e.sender ∧ (f e).level = e.level) :
    (t.modify s f).Shaped R d := by
  have hgrows : Grows R d t (t.modify s f) := Grows.refl.mark hf
  refine { h.toFiled.mark hf with
    root := ?root, sender := ?sender, recorded := ?recorded, level := ?level }
  case root =>
    intro e he
    obtain ⟨e', he', -, hsender, -⟩ := get?_of_modify hf he
    exact hsender.trans (h.root e' he')
  case sender =>
    intro x e he hx
    obtain ⟨e', he', -, hsender, -⟩ := get?_of_modify hf he
    rw [hsender]
    exact h.sender x e' he' hx
  case recorded =>
    rintro x ⟨e, he, hrecorded⟩
    obtain ⟨e', he', hwhat, -⟩ := get?_of_modify hf he
    exact h.recorded x ⟨e', he', hwhat ▸ hrecorded⟩
  case level =>
    intro x e he
    obtain ⟨e', he', hwhat, hsender, hlevel⟩ := get?_of_modify hf he
    rw [hwhat, hsender, hlevel]
    refine (h.level x e' he').imp_left (Or.imp_right ?_)
    rintro ⟨o, bci, ho, hrecords⟩
    exact ⟨o, bci, ho, hgrows.records hrecords⟩

/-- Whatever is built from nothing has this shape. -/
theorem Grows.shaped (h : Grows R d .empty t) : t.Shaped R d := by
  induction h with
  | refl =>
    exact ⟨⟨linked_empty, by rintro _ _ _ _ ⟨⟩⟩, by rintro _ ⟨⟩,
      by rintro _ _ ⟨⟩, by rintro _ ⟨_, ⟨⟩, _⟩, by rintro _ _ ⟨⟩⟩
  | add _ hplace hrecord hlevel ih => exact ih.add hplace hrecord hlevel
  | mark _ hf ih => exact ih.mark hf

/-! ## Preorder -/

/-- What hangs at a scope, at whichever send. -/
def children (t : FeedbackTree) (s : ScopeId) : List ScopeId := (t.sites s).flatMap (t.subscopes s)

theorem Filed.mem_children (h : t.Filed) {x : ScopeId} :
    x ∈ t.children s ↔ ∃ e bci, t.get? x = some e ∧ e.sender = some (s, bci) := by
  rw [children, List.mem_flatMap]
  constructor
  · rintro ⟨bci, -, hx⟩
    obtain ⟨e, he, hsender⟩ := (h.filedAt s _ _).1 hx
    exact ⟨e, bci, he, hsender⟩
  · rintro ⟨e, bci, he, hsender⟩
    have hx := (h.filedAt s _ _).2 ⟨e, he, hsender⟩
    exact ⟨bci, mem_sites.2 ⟨x, hx⟩, hx⟩

theorem Filed.nodup_children (h : t.Filed) (s : ScopeId) : (t.children s).Nodup := by
  refine List.nodup_flatMap.2
    ⟨fun bci _ => h.linked.nodup_subscopes s bci, (nodup_eraseDups _).imp fun {b b'} hne => ?_⟩
  -- A scope hangs at one send only.
  intro x hx hx'
  obtain ⟨e, he, hsender⟩ := (h.filedAt s _ _).1 hx
  obtain ⟨e', he', hsender'⟩ := (h.filedAt s _ _).1 hx'
  obtain rfl := Option.some.inj (he.symm.trans he')
  exact hne (congrArg Prod.snd (Option.some.inj (hsender.symm.trans hsender')))

/-- A scope, and what is at most `n` levels below it. -/
def visited (t : FeedbackTree) (n : Nat) (s : ScopeId) : List ScopeId :=
  s :: (t.below n s).map (·.2.2)

theorem visited_succ (t : FeedbackTree) (n : Nat) (s : ScopeId) :
    t.visited (n + 1) s = s :: (t.children s).flatMap (t.visited n) := by
  have hvisited : t.visited n = fun c => c :: (t.below n c).map (·.2.2) := rfl
  rw [hvisited]
  simp [visited, below, children, List.map_flatMap, List.flatMap_assoc, Function.comp_def]

/-- One level more are the children of all that was visited. -/
theorem visited_succ_perm (t : FeedbackTree) (n : Nat) (s : ScopeId) :
    (t.visited (n + 1) s).Perm (s :: (t.visited n s).flatMap t.children) := by
  rw [visited_succ]
  refine List.Perm.cons s ?_
  induction n generalizing s with
  | zero =>
    have hself : t.visited 0 = fun c => [c] := rfl
    simp [hself]
  | succ n ih =>
    rw [visited_succ t n s, List.flatMap_cons, List.flatMap_assoc]
    -- Below each child there are the child and the children of what was visited below it.
    have hbelow : ((t.children s).flatMap (t.visited (n + 1))).Perm
        ((t.children s).flatMap fun c => c :: (t.visited n c).flatMap t.children) := by
      refine List.Perm.flatMap_left _ fun c _ => ?_
      rw [visited_succ]
      exact (ih c).cons c
    have hsplit := List.map_append_flatMap_perm (t.children s) id fun c =>
      (t.visited n c).flatMap t.children
    rw [List.map_id] at hsplit
    exact hbelow.trans hsplit.symm

/-- A scope comes after its sender, each time that one is visited. -/
theorem Filed.count_flatMap_children (h : t.Filed) {x o : ScopeId} {e : FeedbackScope} {bci : Bci}
    (he : t.get? x = some e) (hsender : e.sender = some (o, bci)) (l : List ScopeId) :
    (l.flatMap t.children).count x = l.count o := by
  induction l with
  | nil => rfl
  | cons c l ih =>
    have hchild : (t.children c).count x = if c = o then 1 else 0 := by
      have hmem : x ∈ t.children c ↔ c = o := by
        rw [h.mem_children]
        constructor
        · rintro ⟨e', b, he', hsender'⟩
          obtain rfl := Option.some.inj (he.symm.trans he')
          exact congrArg Prod.fst (Option.some.inj (hsender'.symm.trans hsender))
        · rintro rfl
          exact ⟨e, bci, he, hsender⟩
      rw [(h.nodup_children c).count, if_congr hmem rfl rfl]
    rw [List.flatMap_cons, List.count_append, ih, List.count_cons, hchild, Nat.add_comm]
    simp

theorem Shaped.count_visited (h : t.Shaped R d) (n : Nat) {x : ScopeId}
    (hx : x.index < t.scopes.length) (hn : x.index ≤ n) :
    (t.visited n FeedbackTree.root).count x = 1 := by
  have he : t.get? x = some t.scopes[x.index] := List.getElem?_eq_getElem hx
  induction n generalizing x with
  | zero =>
    obtain rfl : x = FeedbackTree.root := congrArg ScopeId.mk (Nat.le_zero.1 hn)
    simp [visited, below]
  | succ n ih =>
    rw [(t.visited_succ_perm n _).count_eq]
    by_cases hroot : x = FeedbackTree.root
    · -- The root is no child.
      subst hroot
      rw [List.count_cons_self, List.count_eq_zero.2]
      intro hmem
      obtain ⟨c, -, hc⟩ := List.mem_flatMap.1 hmem
      obtain ⟨e, bci, he', hsender⟩ := h.mem_children.1 hc
      cases (h.root e he').symm.trans hsender
    · obtain ⟨o, bci, hsender⟩ := h.sender x _ he hroot
      have ho := h.older x _ o bci he hsender
      have hlt : o.index < t.scopes.length := Nat.lt_trans ho hx
      rw [List.count_cons_of_ne (Ne.symm hroot), h.count_flatMap_children he hsender]
      exact ih hlt (Nat.le_of_lt_succ (Nat.lt_of_lt_of_le ho hn)) (List.getElem?_eq_getElem hlt)

/-- Going down from the root one comes across every scope, once. -/
theorem Shaped.preorder_perm (h : t.Shaped R d) (hne : t.scopes ≠ []) :
    t.preorder.Perm ((List.range t.scopes.length).map ScopeId.mk) := by
  have hnodup : ((List.range t.scopes.length).map ScopeId.mk).Nodup :=
    List.nodup_range.map fun i j hij => ScopeId.mk.inj hij
  have hmem (x : ScopeId) : x ∈ (List.range t.scopes.length).map ScopeId.mk ↔
      x.index < t.scopes.length := by
    simp only [List.mem_map, List.mem_range]
    exact ⟨by rintro ⟨i, hi, rfl⟩; exact hi, fun hx => ⟨x.index, hx, rfl⟩⟩
  have hvisited : ∀ n, ∀ x ∈ t.visited n FeedbackTree.root, x.index < t.scopes.length := by
    have hroot : FeedbackTree.root.index < t.scopes.length := List.length_pos_iff.2 hne
    rintro (_ | n) x hx
    · obtain rfl : x = FeedbackTree.root := by simpa [visited, below] using hx
      exact hroot
    · rcases List.mem_cons.1 ((t.visited_succ_perm n _).mem_iff.1 hx) with rfl | hx
      · exact hroot
      · obtain ⟨c, -, hc⟩ := List.mem_flatMap.1 hx
        obtain ⟨e, bci, he, -⟩ := h.mem_children.1 hc
        exact index_lt_of_get? he
  refine List.perm_iff_count.2 fun x => ?_
  by_cases hx : x.index < t.scopes.length
  · rw [List.count_eq_one_of_mem hnodup ((hmem x).2 hx)]
    exact h.count_visited t.scopes.length hx (Nat.le_of_lt hx)
  · rw [List.count_eq_zero.2 (mt (hmem x).1 hx)]
    exact List.count_eq_zero.2 (mt (hvisited t.scopes.length x) hx)

/-- There is one root, any other scope hangs at one send of an older scope, and all can be reached
    from the root. -/
structure IsTree (t : FeedbackTree) : Prop where
  root : ∃ e, t.get? root = some e ∧ e.sender = none
  sender : ∀ x e, t.get? x = some e → x ≠ FeedbackTree.root → ∃ o bci, e.sender = some (o, bci) ∧
    o.index < x.index ∧
    ∀ o' bci', (t.subscopes o' bci').count x = if o' = o ∧ bci' = bci then 1 else 0
  preorder : t.preorder.Perm ((List.range t.scopes.length).map ScopeId.mk)

theorem Shaped.isTree (h : t.Shaped R d) (hne : t.scopes ≠ []) : t.IsTree := by
  refine ⟨?_, fun x e he hx => ?_, h.preorder_perm hne⟩
  · have hroot := List.getElem?_eq_getElem (List.length_pos_iff.2 hne)
    exact ⟨_, hroot, h.root _ hroot⟩
  · obtain ⟨o, bci, hsender⟩ := h.sender x e he hx
    refine ⟨o, bci, hsender, h.older x e o bci he hsender, fun o' bci' => ?_⟩
    have hmem : x ∈ t.subscopes o' bci' ↔ o' = o ∧ bci' = bci := by
      rw [h.filedAt]
      constructor
      · rintro ⟨e', he', hsender'⟩
        obtain rfl := Option.some.inj (he.symm.trans he')
        exact Prod.mk.inj (Option.some.inj (hsender'.symm.trans hsender))
      · rintro ⟨rfl, rfl⟩
        exact ⟨e, he, hsender⟩
    rw [(h.linked.nodup_subscopes o' bci').count, if_congr hmem rfl rfl]

/-! ## Records -/

/-- An untaken send is noted below its scope, one level deeper at most. -/
theorem grows_addUntaken (hs : s.index < t.scopes.length) {bci : Bci} {why : Untaken} {level : Nat}
    (hlevel : t.FromRecord (.untaken why) (some (s, bci)) ∨ level ≤ d + 1) :
    Grows R d t (t.addUntaken s bci why level) := by
  rw [addUntaken]
  split
  · exact .refl
  · exact Grows.refl.add hs (by rintro ⟨⟩) (hlevel.imp_right fun hle => ⟨hle, by rintro ⟨⟩⟩)

theorem grows_markRecorded (hs : t.Records s) (level : Nat)
    (untaken uninlinable complete : List Bci) :
    Grows R d t (t.markRecorded s level untaken uninlinable complete) := by
  have huntaken :
      Grows R d t (untaken.foldl (fun t bci => t.addUntaken s bci .neverExecuted (level + 1)) t) :=
    .foldl fun bci _ t' ht' => grows_addUntaken (ht'.records hs).index_lt
      (.inl (.inr ⟨s, bci, rfl, ht'.records hs⟩))
  refine huntaken.trans (.trans (.foldl fun bci _ t' ht' => ?_) (.foldl fun bci _ t' _ => ?_))
  · have hs' := ht'.records (huntaken.records hs)
    exact Grows.refl.add hs'.index_lt (by rintro ⟨⟩) (.inl (.inr ⟨s, bci, rfl, hs'⟩))
  · exact Grows.refl.mark fun _ => ⟨rfl, rfl, rfl⟩

/-- A recorded scope is there as soon as it is added. -/
theorem grows_add_recorded (hR : R) {sender : Option (ScopeId × Bci)} (hplace : t.Offers sender)
    (key : LookupKey) (method : MethodId) (level : Nat) :
    Grows R d t (t.add (.recorded key method) sender level).1 ∧
      (t.add (.recorded key method) sender level).1.Records ⟨t.scopes.length⟩ :=
  ⟨Grows.refl.add hplace (fun _ => hR) (.inl (.inl rfl)), _, by rw [get?_add, if_pos rfl], rfl⟩

mutual

/-- Filling in a record adds scopes that come from it, at whatever level. -/
theorem grows_fill (hR : R) (c : ClassTable) (n : Database.Node) (t : FeedbackTree) (s : ScopeId)
    (level : Nat) (hs : t.Records s) : Grows R d t (fill c n t s level) := by
  rcases n with ⟨children, untaken, uninlinable, complete⟩
  rw [fill]
  have hmarked : Grows R d t (t.markRecorded s level untaken uninlinable complete) :=
    grows_markRecorded hs ..
  exact hmarked.trans (grows_fillCallees hR c children _ s level (hmarked.records hs))
termination_by structural n

theorem grows_fillCallees (hR : R) (c : ClassTable) (cs : List (Bci × NamedKey × Database.Node))
    (t : FeedbackTree) (s : ScopeId) (level : Nat) (hs : t.Records s) :
    Grows R d t (fillCallees c cs t s level) := by
  rcases cs with _ | ⟨⟨bci, name, n⟩, cs⟩
  · rw [fillCallees]
    exact .refl
  · rw [fillCallees]
    rcases resolveNames c name with _ | ⟨key, method⟩
    · exact grows_fillCallees hR c cs t s level hs
    · have hplace : t.Offers (some (s, bci)) := hs.index_lt
      obtain ⟨hadd, hnew⟩ := grows_add_recorded (d := d) hR hplace key method (level + 1)
      have hfill := hadd.trans (grows_fill hR c n _ _ (level + 1) hnew)
      exact hfill.trans (grows_fillCallees hR c cs _ s level (hfill.records hs))
termination_by structural cs

end

/-- A tree that is made from a record has a root. -/
theorem grows_tree? {db : Database} {c : ClassTable} {outer : LookupKey} {inner : Option LookupKey}
    (h : db.tree? c outer inner = some t) (hR : ∀ n, db.lookup c outer inner = some n → R) :
    Grows R d .empty t ∧ t.scopes ≠ [] := by
  obtain ⟨n, hn, h⟩ := Option.bind_eq_some_iff.1 h
  obtain ⟨method, -, h⟩ := Option.bind_eq_some_iff.1 h
  obtain rfl := Option.some.inj h
  have hplace : empty.Offers none := rfl
  obtain ⟨hadd, hnew⟩ := grows_add_recorded (d := d) (hR n hn) hplace (inner.getD outer) method 0
  have hfill := grows_fill (d := d) (hR n hn) c n _ _ 0 hnew
  exact ⟨hadd.trans hfill,
    List.ne_nil_of_length_pos (Nat.lt_of_lt_of_le Nat.one_pos hfill.length_le)⟩

theorem grows_graft (hR : R) (c : ClassTable) (n : Database.Node) (key : LookupKey)
    (method : MethodId) {sender : Option (ScopeId × Bci)} (hplace : t.Offers sender) (level : Nat) :
    Grows R d t (graft c n key method t sender level) := by
  obtain ⟨hadd, hnew⟩ := grows_add_recorded (d := d) hR hplace key method level
  exact hadd.trans (grows_fill hR c n _ _ level hnew)

end FeedbackTree

namespace Evidence

open FeedbackTree

variable {R : Prop} {d level : Nat} {t : FeedbackTree} {n : NativeMethod}
  {parent : Option (ScopeId × Bci)} {attach : Attach}

/-! ## Native code -/

/-- While scopes of native code are placed in a tree, those that may get callees are there. -/
structure Situated (R : Prop) (d : Nat) (t : FeedbackTree) (p : Placed) : Prop where
  grows : Grows R d t p.tree
  /-- Nothing is there before the first one. -/
  start : p.ids = [] → p.tree = t
  ids : ∀ x ∈ p.ids, x.2.index < p.tree.scopes.length
  opened : ∀ x ∈ p.opened, x.2.index < p.tree.scopes.length

/-- Placing one scope more, at an offered place. -/
theorem Situated.add {p : Placed} (h : Situated R d t p) (hlevel : level ≤ d) (c : ScopeDesc)
    {opened : List (Offset × ScopeId)} (hopened : ∀ x ∈ opened, x.2.index < p.tree.scopes.length)
    {sender : Option (ScopeId × Bci)} (hplace : p.tree.Offers sender) :
    Situated R d t (p.add n level c opened sender) := by
  have hnew : p.tree.scopes.length < (p.add n level c opened sender).tree.scopes.length := by
    simp [Placed.add, FeedbackTree.add]
  constructor
  case grows =>
    exact h.grows.add hplace (by rintro ⟨⟩) (.inr ⟨Nat.le_succ_of_le hlevel, fun _ => hlevel⟩)
  case start => rintro ⟨⟩
  case ids =>
    intro x hx
    rcases List.mem_cons.1 hx with rfl | hx
    · exact hnew
    · exact Nat.lt_trans (h.ids x hx) hnew
  case opened =>
    intro x hx
    rcases List.mem_cons.1 hx with rfl | hx
    · exact hnew
    · exact Nat.lt_trans (hopened x hx) hnew

/-- A step of the placement finds its place on the stack, or leaves the scope out. -/
theorem Situated.step {p : Placed} (h : Situated R d t p) (hlevel : level ≤ d)
    (hparent : t.Offers parent) (c : ScopeDesc) : Situated R d t (p.step n level parent c) := by
  rw [Placed.step]
  rcases c.sender with _ | ⟨sender, bci⟩
  · simp only
    split
    · next hids =>
      refine h.add hlevel c h.opened ?_
      rw [h.start (List.isEmpty_iff.1 hids)]
      exact hparent
    · exact h
  · simp only
    split
    · exact ⟨h.grows, h.start, h.ids, by rintro _ ⟨⟩⟩
    · next s rest hdrop =>
      have hopened : ∀ x ∈ s :: rest, x.2.index < p.tree.scopes.length :=
        fun x hx => h.opened x ((List.dropWhile_sublist _).subset (hdrop ▸ hx))
      have hplace : p.tree.Offers (some (s.2, bci)) := hopened s List.mem_cons_self
      exact h.add hlevel c hopened hplace

theorem situated_placeScopes (n : NativeMethod) (hlevel : level ≤ d) (hparent : t.Offers parent) :
    Situated R d t (placeScopes n level parent t) := by
  rw [placeScopes]
  generalize n.scopes.mergeSort _ = l
  have hstart : Situated R d t { tree := t } :=
    ⟨.refl, fun _ => rfl, by rintro _ ⟨⟩, by rintro _ ⟨⟩⟩
  generalize ({ tree := t } : Placed) = p at hstart
  induction l generalizing p with
  | nil => exact hstart
  | cons c l ih => exact ih _ (hstart.step hlevel hparent c)

section Attach

variable
  (hattach : ∀ (t : FeedbackTree) (s : ScopeId) bci c, s.index < t.scopes.length →
    Grows R d t (attach t s bci c))
include hattach

/-- All that native code says hangs at its scopes. -/
theorem grows_walkNative (n : NativeMethod) (hlevel : level ≤ d) (hparent : t.Offers parent) :
    Grows R d t (walkNative attach n level parent t) := by
  have hplaced : Situated R d t (placeScopes n level parent t) :=
    situated_placeScopes n hlevel hparent
  -- Handles of placed scopes stay good while the tree grows.
  have hlookup {x : Offset} {s : ScopeId}
      (hs : (placeScopes n level parent t).ids.lookup x = some s) {t' : FeedbackTree}
      (ht' : Grows R d (placeScopes n level parent t).tree t') : s.index < t'.scopes.length := by
    obtain ⟨l, l', hids, -⟩ := List.lookup_eq_some_iff.1 hs
    exact Nat.lt_of_lt_of_le (hplaced.ids (x, s) (by simp [hids])) ht'.length_le
  have htraps : Grows R d (placeScopes n level parent t).tree ((n.traps.mergeSort fun a b =>
      recordLe (a.scope, a.bci) (b.scope, b.bci)).foldl
        (attachTrap (placeScopes n level parent t).ids level)
        (placeScopes n level parent t).tree) := by
    refine .foldl fun x _ t' ht' => ?_
    rw [attachTrap]
    split
    · exact .refl
    · next s hs =>
      split
      · exact Grows.refl.mark fun _ => ⟨rfl, rfl, rfl⟩
      · exact grows_addUntaken (hlookup hs ht') (.inr (Nat.succ_le_succ hlevel))
  refine hplaced.grows.trans (htraps.trans (.foldl fun x _ t' ht' => ?_))
  rw [attachSite]
  split
  · exact .refl
  · next s hs => exact hattach t' s x.bci x.cache (hlookup hs (htraps.trans ht'))

theorem grows_walkInterpreted (e : Evidence) (m : MethodId) {s : ScopeId}
    (hs : s.index < t.scopes.length) :
    Grows R d t (e.walkInterpreted attach m t s) :=
  .foldl fun c _ t' ht' => hattach t' s c.1 c.2 (Nat.lt_of_lt_of_le hs ht'.length_le)

end Attach

/-! ## Caches -/

/-- A record of the database can be found. -/
def HasRecord (e : Evidence) : Prop :=
  ∃ db outer inner n, e.database = some db ∧ db.lookup e.classes outer inner = some n

section Caches

variable (e : Evidence) (outer : LookupKey) (trusted : Bool) {deeper : Option Attach}
  (hlevel : level ≤ d)
  (hdeeper : ∀ attach ∈ deeper, level < d ∧ ∀ (t : FeedbackTree) (s : ScopeId) bci c,
    s.index < t.scopes.length → Grows e.HasRecord d t (attach t s bci c))
include hlevel hdeeper

/-- A callee is walked only if it is not too deep. -/
theorem grows_attachEntry {s : ScopeId} (hs : s.index < t.scopes.length) (bci : Bci)
    (selector : Selector) (entry : CacheEntry) :
    Grows e.HasRecord d t (e.attachEntry outer trusted level deeper s bci selector t entry) := by
  have hplace : t.Offers (some (s, bci)) := hs
  have hcallee (key : LookupKey) (m : MethodId) (target : Target) :
      Grows e.HasRecord d t (t.add (.callee key m target) (some (s, bci)) (level + 1)).1 :=
    Grows.refl.add hplace (by rintro ⟨⟩) (.inr ⟨Nat.succ_le_succ hlevel, by rintro ⟨⟩⟩)
  rw [attachEntry]
  simp only
  split
  · next n m hfound _ =>
    obtain ⟨db, hdb, hn⟩ := Option.bind_eq_some_iff.1 hfound
    exact grows_graft ⟨db, outer, _, n, hdb, hn⟩ _ _ _ _ hplace _
  · split
    · split
      · exact .refl
      · next n _ =>
        split
        · next hattach =>
          obtain ⟨hlt, hattach⟩ := hdeeper _ (Option.filter_eq_some_iff.1 hattach).1
          exact grows_walkNative hattach n hlt hplace
        · exact hcallee ..
    · next m _ =>
      split
      · next hattach =>
        obtain ⟨hlt, hattach⟩ := hdeeper _ (Option.filter_eq_some_iff.1 hattach).1
        have hadd : Grows e.HasRecord d t
            (t.add (.interpreted (.send entry.cls selector) m trusted)
              (some (s, bci)) (level + 1)).1 :=
          Grows.refl.add hplace (by rintro ⟨⟩) (.inr ⟨Nat.le_succ_of_le hlt, fun _ => hlt⟩)
        exact hadd.trans (grows_walkInterpreted hattach e m (by simp [FeedbackTree.add]))
      · exact hcallee ..

/-- A cache adds callees one level deeper at most, apart from what is recorded. -/
theorem grows_attachAt (s : ScopeId) (hs : s.index < t.scopes.length) (bci : Bci)
    (c : InlineCache) :
    Grows e.HasRecord d t (e.attachAt outer trusted level deeper t s bci c) := by
  rw [attachAt]
  split
  · split
    · exact .refl
    · exact grows_addUntaken hs (.inr (Nat.succ_le_succ hlevel))
  · split
    · have hplace : t.Offers (some (s, bci)) := hs
      exact Grows.refl.add hplace (by rintro ⟨⟩) (.inr ⟨Nat.succ_le_succ hlevel, by rintro ⟨⟩⟩)
    · split
      · exact .refl
      · have hmark : Grows e.HasRecord d t (t.markComplete s bci) :=
          Grows.refl.mark fun _ => ⟨rfl, rfl, rfl⟩
        refine hmark.trans (.foldl fun entry _ t' ht' => ?_)
        exact grows_attachEntry e outer trusted hlevel hdeeper
          (Nat.lt_of_lt_of_le hs (hmark.trans ht').length_le) bci c.selector entry

end Caches

/-- Each callee that is walked uses up a level, so that also caches that lead back to where they
    were found come to an end. -/
theorem grows_attachCache (e : Evidence) (outer : LookupKey) (trusted : Bool) {left : Nat}
    (hleft : left ≤ e.settings.maxDepth.toNat) (t : FeedbackTree) (s : ScopeId) (bci : Bci)
    (c : InlineCache) (hs : s.index < t.scopes.length) :
    Grows e.HasRecord e.settings.maxDepth.toNat t (e.attachCache outer trusted left t s bci c) := by
  induction left generalizing t s bci c with
  | zero => exact grows_attachAt e outer trusted (Nat.le_refl _) (by rintro _ ⟨⟩) s hs bci c
  | succ left ih =>
    refine grows_attachAt e outer trusted (Nat.sub_le _ _) ?_ s hs bci c
    rintro _ ⟨⟩
    exact ⟨by omega, ih (Nat.le_of_succ_le hleft)⟩

/-! ## Trees -/

theorem grows_single (R : Prop) (d : Nat) {w : Knowledge} (hw : w.isRecorded = false) :
    Grows R d .empty (single w) := by
  have hplace : empty.Offers none := rfl
  exact Grows.refl.add hplace (by simp [hw]) (.inr ⟨Nat.zero_le _, fun _ => Nat.zero_le _⟩)

theorem grows_treeOfNative (e : Evidence) (n : NativeMethod) (trusted : Bool) :
    Grows e.HasRecord e.settings.maxDepth.toNat .empty (e.treeOfNative n trusted) ∧
      (e.treeOfNative n trusted).scopes ≠ [] := by
  have hnull := grows_single e.HasRecord e.settings.maxDepth.toNat (w := .nothing) rfl
  rw [treeOfNative]
  split
  · simp only
    split
    · exact ⟨hnull, by rintro ⟨⟩⟩
    · next hempty =>
      refine ⟨?_, fun hnil => hempty (List.isEmpty_iff.2 hnil)⟩
      exact grows_walkNative (grows_attachCache e n.key trusted (Nat.le_refl _)) n
        (Nat.zero_le _) rfl
  · exact ⟨hnull, by rintro ⟨⟩⟩

theorem grows_treeOfInterpreted (e : Evidence) (key : LookupKey) (m : MethodId) :
    Grows e.HasRecord e.settings.maxDepth.toNat .empty (e.treeOfInterpreted key m) ∧
      (e.treeOfInterpreted key m).scopes ≠ [] := by
  rw [treeOfInterpreted]
  split
  · have hwalk : Grows e.HasRecord e.settings.maxDepth.toNat (single (.interpreted key m true))
        (e.walkInterpreted
        (e.attachCache key true e.settings.maxDepth.toNat) m
        (single (.interpreted key m true)) root) :=
      grows_walkInterpreted (grows_attachCache e key true (Nat.le_refl _)) e m Nat.one_pos
    exact ⟨(grows_single _ _ rfl).trans hwalk,
      List.ne_nil_of_length_pos (Nat.lt_of_lt_of_le Nat.one_pos hwalk.length_le)⟩
  · exact ⟨grows_single _ _ rfl, by rintro ⟨⟩⟩

/-- The tree for a method grows from nothing, whichever source it comes from. -/
theorem grows_treeFor (e : Evidence) (key : LookupKey) (m : MethodId) :
    Grows e.HasRecord e.settings.maxDepth.toNat .empty (e.treeFor key m) ∧
      (e.treeFor key m).scopes ≠ [] := by
  rw [treeFor]
  split
  · next t ht =>
    obtain ⟨db, hdb, ht⟩ := Option.bind_eq_some_iff.1 ht
    exact grows_tree? ht fun n hn => ⟨db, key, none, n, hdb, hn⟩
  · split
    · exact e.grows_treeOfNative _ _
    · exact e.grows_treeOfInterpreted key m

/-- The feedback for a method is a tree, whatever it is gathered from. A scope comes from the
    database, which then has a record, or is at most one level below the deepest callees that are
    walked. Gathering it ends if superclass chains end, since each lookup then does. -/
theorem treeFor_isTree (e : Evidence) (hends : e.classes.ChainsEnd) (key : LookupKey)
    (m : MethodId) :
    (∀ d s, e.classes.Searches s d (e.classes.lookup d s)) ∧
    (e.treeFor key m).IsTree ∧
    (∀ x s, (e.treeFor key m).get? x = some s → (e.treeFor key m).FromRecord s.what s.sender ∨
      s.level ≤ e.settings.maxDepth.toNat + 1 ∧
        (s.what.isWalked → s.level ≤ e.settings.maxDepth.toNat)) ∧
    ∀ x, (e.treeFor key m).Records x → e.HasRecord := by
  obtain ⟨hgrows, hne⟩ := e.grows_treeFor key m
  have hshaped := hgrows.shaped
  exact ⟨hends.searches, hshaped.isTree hne, hshaped.level, hshaped.recorded⟩

/-- A method that has called itself. -/
def callingItself : Evidence where
  classes := { ClassTable.initial with methods := [Draft.finish { selector := ⟨0⟩ } ⟨0⟩ ⟨0⟩ none] }
  code := {}
  sites := ⟨[⟨⟨0⟩, 0,
    { selector := ⟨0⟩, flags := { dirty := true }, dest := .direct ⟨⟨0⟩, .interpreted ⟨0⟩⟩ }⟩]⟩
  database := none
  settings := { maxDepth := 2 }

/-- It is followed as deep as the settings say, and one level more without a look at its sends. -/
theorem treeFor_isTree_callingItself : callingItself.classes.ChainsEnd ∧
    (callingItself.treeFor (.send ⟨0⟩ ⟨0⟩) ⟨0⟩).IsTree ∧
    ((callingItself.treeFor (.send ⟨0⟩ ⟨0⟩) ⟨0⟩).scopes.map fun s => (s.what.isWalked, s.level)) =
      [(true, 0), (true, 1), (true, 2), (false, 3)] := by
  have hends : callingItself.classes.ChainsEnd := ClassTable.Founded.chainsEnd (by decide)
  exact ⟨hends, (treeFor_isTree callingItself hends (.send ⟨0⟩ ⟨0⟩) ⟨0⟩).2.1, rfl⟩

end Evidence

end Warmup
