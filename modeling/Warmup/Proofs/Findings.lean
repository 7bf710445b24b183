import Warmup.Proofs.TreeGrowth

/-!
# Findings

What a feedback tree says about a send: the callees that were seen, and whether it
never ran, must not be inlined, has no other classes, or is a trap that has fired
(`Finding`). All of it comes from the scopes that hang at the send and from what is
marked in the scope that sends (`FeedbackTree.Finds`).

Every change adds findings at one send (`finds_add`, `finds_addUntaken`,
`finds_markComplete`, `finds_markUncommon`), and what grows below other scopes adds
none (`Gains.finds_iff`).
-/

namespace Warmup

/-- What can be found out about a send. -/
inductive Finding
  /-- A callee with this key was seen. -/
  | seen (k : LookupKey)
  /-- It never ran. -/
  | untaken
  /-- It must not be inlined. -/
  | uninlinable
  /-- All classes that were seen are known. -/
  | complete
  /-- The trap in its place has fired. -/
  | uncommon

/-- What a scope that hangs at a send shows about it. -/
def Knowledge.Shows (w : Knowledge) : Finding → Prop
  | .seen k => w.key? = some k
  | .untaken => w.isUntaken
  | .uninlinable => w.isUninlinable
  | .complete | .uncommon => False

/-- What is known of a callee shows that it was seen. -/
theorem Knowledge.shows_of_key? {w : Knowledge} {k : LookupKey} (h : w.key? = some k)
    (f : Finding) :
    w.Shows f ↔ f = .seen k := by
  rcases w <;> cases h <;> rcases f <;>
    simp [Shows, key?, isUntaken, isUninlinable, @eq_comm LookupKey]

theorem Knowledge.shows_untaken (why : Untaken) (f : Finding) :
    (Knowledge.untaken why).Shows f ↔ f = .untaken := by
  rcases f <;> simp [Shows, key?, isUntaken, isUninlinable]

theorem Knowledge.shows_uninlinable (megamorphic : Bool) (f : Finding) :
    (Knowledge.uninlinable megamorphic).Shows f ↔ f = .uninlinable := by
  rcases f <;> simp [Shows, key?, isUntaken, isUninlinable]

/-- What is marked in a scope about one of its sends. -/
def FeedbackScope.Marks (s : FeedbackScope) (bci : Bci) : Finding → Prop
  | .complete => bci ∈ s.complete
  | .uncommon => bci ∈ s.uncommon
  | .seen _ | .untaken | .uninlinable => False

namespace FeedbackTree

variable {P : ScopeId → Bci → Knowledge → Prop} {t t' : FeedbackTree} {s o : ScopeId} {b bci : Bci}
  {f : Finding}

/-- What a tree says about a send. -/
def Finds (t : FeedbackTree) (s : ScopeId) (bci : Bci) (f : Finding) : Prop :=
  (∃ e ∈ t.scopes, e.sender = some (s, bci) ∧ e.what.Shows f) ∨ ∃ e,
    t.get? s = some e ∧ e.Marks bci f

/-- What is known at a send is what its scopes say. -/
theorem mem_known {w : Knowledge} :
    w ∈ t.known s bci ↔ ∃ x ∈ t.subscopes s bci, ∃ e, t.get? x = some e ∧ e.what = w := by
  simp only [known, List.mem_filterMap, Option.map_eq_some_iff]

/-- What is known at a send is known from the scopes that hang there. -/
theorem FiledAt.mem_known (h : t.FiledAt s) {w : Knowledge} :
    w ∈ t.known s bci ↔ ∃ e ∈ t.scopes, e.sender = some (s, bci) ∧ e.what = w := by
  rw [FeedbackTree.mem_known]
  constructor
  · rintro ⟨x, hx, e, he, hw⟩
    obtain ⟨e', he', hsender⟩ := (h bci x).1 hx
    obtain rfl := Option.some.inj (he.symm.trans he')
    exact ⟨e, List.mem_of_getElem? he, hsender, hw⟩
  · rintro ⟨e, he, hsender, hw⟩
    obtain ⟨i, hi⟩ := List.mem_iff_getElem?.1 he
    exact ⟨⟨i⟩, (h bci ⟨i⟩).2 ⟨e, hi, hsender⟩, e, hi, hw⟩

/-- The classes that are seen at a send are those of the callees that hang there. -/
theorem FiledAt.mem_classes_iff (h : t.FiledAt s) {c : ClassId} :
    c ∈ t.classes s bci ↔ ∃ k, k.cls = c ∧ t.Finds s bci (.seen k) := by
  simp only [classes, List.mem_eraseDups, List.mem_filterMap, h.mem_known,
    Finds, FeedbackScope.Marks, Knowledge.Shows, Option.map_eq_some_iff]
  constructor
  · rintro ⟨w, ⟨e, he, hsender, rfl⟩, k, hk, hc⟩
    exact ⟨k, hc, .inl ⟨e, he, hsender, hk⟩⟩
  · rintro ⟨k, hc, ⟨e, he, hsender, hk⟩ | ⟨-, -, ⟨⟩⟩⟩
    exact ⟨e.what, ⟨e, he, hsender, rfl⟩, k, hk, hc⟩

/-- What one of the scopes at a send shows is a finding. -/
theorem Linked.finds_of_anyKnown (h : t.Linked) {p : Knowledge → Bool}
    (hp : ∀ w, p w = true → w.Shows f) (hany : t.anyKnown s bci p = true) : t.Finds s bci f := by
  obtain ⟨w, hw, hpw⟩ := List.any_eq_true.1 hany
  obtain ⟨x, hx, e, he, rfl⟩ := mem_known.1 hw
  obtain ⟨e', he', hsender, -⟩ := h.mem_subscopes.1 hx
  obtain rfl := Option.some.inj (he.symm.trans he')
  exact .inl ⟨e, List.mem_of_getElem? he, hsender, hp _ hpw⟩

/-- A finding that is never marked is one of the scopes at the send. -/
theorem FiledAt.anyKnown_iff (h : t.FiledAt s) {p : Knowledge → Bool}
    (hp : ∀ w, p w = true ↔ w.Shows f) (hmarks : ∀ e : FeedbackScope, ¬e.Marks bci f) :
    t.anyKnown s bci p = true ↔ t.Finds s bci f := by
  simp only [anyKnown, List.any_eq_true, h.mem_known, Finds, hp, hmarks,
    and_false, exists_false, or_false]
  constructor
  · rintro ⟨w, ⟨e, he, hsender, rfl⟩, hw⟩
    exact ⟨e, he, hsender, hw⟩
  · rintro ⟨e, he, hsender, hw⟩
    exact ⟨e.what, ⟨e, he, hsender, rfl⟩, hw⟩

/-- The test for sends that were never taken, as a finding. -/
theorem FiledAt.isUntaken_iff (h : t.FiledAt s) :
    t.isUntaken s bci = true ↔ t.Finds s bci .untaken :=
  h.anyKnown_iff (fun _ => Iff.rfl) fun _ => id

/-- The test for sends that must not be inlined, as a finding. -/
theorem FiledAt.isUninlinable_iff (h : t.FiledAt s) :
    t.isUninlinable s bci = true ↔ t.Finds s bci .uninlinable :=
  h.anyKnown_iff (fun _ => Iff.rfl) fun _ => id

/-- Whether all classes were seen is marked in the scope itself. -/
theorem isComplete_iff : t.isComplete s bci = true ↔ t.Finds s bci .complete := by
  simp only [isComplete, Option.any_eq_true, List.contains_iff_mem, Finds, FeedbackScope.Marks,
    Knowledge.Shows]
  simp

/-- Whether a trap has fired is marked in the scope itself. -/
theorem isUncommon_iff : t.isUncommon s bci = true ↔ t.Finds s bci .uncommon := by
  simp only [isUncommon, Option.any_eq_true, List.contains_iff_mem, Finds, FeedbackScope.Marks,
    Knowledge.Shows]
  simp

/-! ## Changes -/

/-- Where nothing may hang, nothing new is found. -/
theorem Gains.finds_iff (h : Gains P t t') (ho : o.index < t.scopes.length)
    (hno : ∀ bci w, ¬P o bci w) :
    t'.Finds o bci f ↔ t.Finds o bci f := by
  have hold : t.get? o = some t.scopes[o.index] := List.getElem?_eq_getElem ho
  have hget : t'.get? o = t.get? o := (h.same o.index _ hold hno).trans hold.symm
  refine or_congr ⟨?_, ?_⟩ (by rw [hget])
  · rintro ⟨e, he, hsender, hw⟩
    obtain ⟨i, hi⟩ := List.mem_iff_getElem?.1 he
    -- A scope that hangs here was here before, or was gained here.
    rcases Nat.lt_or_ge i t.scopes.length with hlt | hge
    · obtain ⟨e', he', hwhat, hsender', -⟩ := h.keeps i _ (List.getElem?_eq_getElem hlt)
      obtain rfl := Option.some.inj (hi.symm.trans he')
      exact ⟨_, List.getElem_mem hlt, hsender' ▸ hsender, hwhat ▸ hw⟩
    · exact absurd ((h.gained i e hi hge).2 o bci hsender ho) (hno bci e.what)
  · rintro ⟨e, he, hsender, hw⟩
    obtain ⟨i, hi⟩ := List.mem_iff_getElem?.1 he
    obtain ⟨e', he', hwhat, hsender', -⟩ := h.keeps i e hi
    exact ⟨e', List.mem_of_getElem? he', hsender' ▸ hsender, hwhat ▸ hw⟩

/-- A scope that is added is found at its send, and changes nothing elsewhere. -/
theorem finds_add (w : Knowledge) (level : Nat) (ho : o.index < t.scopes.length) :
    (t.add w (some (s, b)) level).1.Finds o bci f ↔ t.Finds o bci f ∨ o = s ∧
      bci = b ∧ w.Shows f := by
  have hget : (t.add w (some (s, b)) level).1.get? o = t.get? o := List.getElem?_append_left ho
  have hplace : some (s, b) = some (o, bci) ↔ o = s ∧ bci = b := by simp [eq_comm]
  rw [Finds, Finds, hget]
  simp only [add, List.mem_append, List.mem_singleton, or_and_right, exists_or,
    exists_eq_left, hplace, and_assoc]
  exact or_right_comm

/-- Marks in a scope are findings about its sends. -/
theorem finds_modify {g : FeedbackScope → FeedbackScope} {q : Bci → Finding → Prop}
    (hg : ∀ e, (g e).what = e.what ∧ (g e).sender = e.sender)
    (hq : ∀ e bci f, (g e).Marks bci f ↔ e.Marks bci f ∨ q bci f) (hs : s.index < t.scopes.length) :
    (t.modify s g).Finds o bci f ↔ t.Finds o bci f ∨ o = s ∧ q bci f := by
  have hget (i : Nat) : (t.modify s g).scopes[i]? = t.scopes[i]?.map fun e =>
      if s.index = i then g e else e :=
    List.getElem?_modify ..
  -- What hangs at sends is not changed, only what is marked.
  have hhangs : (∃ e ∈ (t.modify s g).scopes, e.sender = some (o, bci) ∧ e.what.Shows f) ↔
      ∃ e ∈ t.scopes, e.sender = some (o, bci) ∧ e.what.Shows f := by
    have hsame (i : Nat) (e : FeedbackScope) : (if s.index = i then g e else e).what = e.what ∧
        (if s.index = i then g e else e).sender = e.sender := by
      split
      · exact hg e
      · exact ⟨rfl, rfl⟩
    simp only [List.mem_iff_getElem?, hget, Option.map_eq_some_iff]
    constructor
    · rintro ⟨_, ⟨i, e, he, rfl⟩, hsender, hw⟩
      rw [(hsame i e).1] at hw
      rw [(hsame i e).2] at hsender
      exact ⟨e, ⟨i, he⟩, hsender, hw⟩
    · rintro ⟨e, ⟨i, he⟩, hsender, hw⟩
      refine ⟨_, ⟨i, e, he, rfl⟩, ?_, ?_⟩
      · rw [(hsame i e).2, hsender]
      · rwa [(hsame i e).1]
  rw [Finds, Finds, hhangs, or_assoc]
  refine or_congr_right ?_
  by_cases hos : o = s
  · subst hos
    have hold : t.get? o = some t.scopes[o.index] := List.getElem?_eq_getElem hs
    simp only [get?, hget, if_pos]
    simp only [show t.scopes[o.index]? = _ from hold]
    simp [hq]
  · have hne : s.index ≠ o.index :=
      fun heq => hos (by cases o; cases s; exact congrArg ScopeId.mk heq.symm)
    simp only [get?, hget, if_neg hne]
    simp [hos]

/-- Marking a send as complete is found at this send. -/
theorem finds_markComplete (hs : s.index < t.scopes.length) :
    (t.markComplete s b).Finds o bci f ↔ t.Finds o bci f ∨ o = s ∧ bci = b ∧ f = .complete := by
  rw [markComplete]
  refine finds_modify (q := fun bci f => bci = b ∧ f = .complete) (fun _ => ⟨rfl, rfl⟩)
    (fun e bci f => ?_) hs
  rcases f <;> simp [FeedbackScope.Marks, or_comm]

theorem finds_markUncommon (hs : s.index < t.scopes.length) :
    (t.markUncommon s b).Finds o bci f ↔ t.Finds o bci f ∨ o = s ∧ bci = b ∧ f = .uncommon := by
  rw [markUncommon]
  refine finds_modify (q := fun bci f => bci = b ∧ f = .uncommon) (fun _ => ⟨rfl, rfl⟩)
    (fun e bci f => ?_) hs
  rcases f <;> simp [FeedbackScope.Marks, or_comm]

/-- A send is found to be never taken, whether it was added now or before. -/
theorem finds_addUntaken (h : t.Linked) (why : Untaken) (level : Nat)
    (ho : o.index < t.scopes.length) :
    (t.addUntaken s b why level).Finds o bci f ↔ t.Finds o bci f ∨ o = s ∧
      bci = b ∧ f = .untaken := by
  rw [addUntaken]
  split
  · next hthere =>
    refine ⟨.inl, ?_⟩
    rintro (hfinds | ⟨rfl, rfl, rfl⟩)
    · exact hfinds
    · exact h.finds_of_anyKnown (fun _ => id) hthere
  · simp only [finds_add _ _ ho, Knowledge.shows_untaken]

/-! ## Many changes -/

/-- A change adds findings about the first `n` scopes. -/
def Adds (n : Nat) (new : ScopeId → Bci → Finding → Prop) (t t' : FeedbackTree) : Prop :=
  ∀ o bci f, o.index < n → (t'.Finds o bci f ↔ t.Finds o bci f ∨ new o bci f)

/-- Changes add what each of them adds, where `I` is true of every tree on the way. -/
theorem Adds.foldl {α : Type} {n : Nat} {new : α → ScopeId → Bci → Finding → Prop}
    {I : FeedbackTree → Prop} {step : FeedbackTree → α → FeedbackTree} {l : List α}
    (hstep : ∀ a ∈ l, ∀ t, I t → I (step t a) ∧ Adds n (new a) t (step t a)) (ht : I t) :
    I (l.foldl step t) ∧ Adds n (fun o bci f => ∃ a ∈ l, new a o bci f) t (l.foldl step t) := by
  induction l generalizing t with
  | nil => exact ⟨ht, fun o bci f _ => by simp⟩
  | cons a l ih =>
    obtain ⟨hI, hadds⟩ := hstep a List.mem_cons_self t ht
    obtain ⟨hI', hadds'⟩ := ih (fun b hb => hstep b (List.mem_cons_of_mem a hb)) hI
    refine ⟨hI', fun o bci f ho => ?_⟩
    rw [List.foldl_cons, hadds' o bci f ho, hadds o bci f ho, or_assoc]
    simp only [List.mem_cons, or_and_right, exists_or, exists_eq_left]

end FeedbackTree

end Warmup
