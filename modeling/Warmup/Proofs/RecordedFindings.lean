import Warmup.Proofs.Findings
import Warmup.Proofs.TrapEvidence

/-!
# Findings of records

What a recorded scope says about its sends (`Database.Node.Finds`), and where its
callees lead (`Database.Node.Leads`). The tree that is made of a record says the same
about each scope on the way (`FeedbackTree.carries_fill`): a callee is put at its
send, and whatever comes after it hangs at other scopes.
-/

namespace Warmup

namespace Database.Node

open FeedbackTree

/-- What a recorded scope says about a send. -/
def Finds (n : Node) (c : ClassTable) (bci : Bci) : Finding → Prop
  | .seen k => ∃ x ∈ n.children, x.1 = bci ∧ ∃ m, resolveNames c x.2.1 = some (k, m)
  | .untaken => bci ∈ n.untaken
  | .uninlinable => bci ∈ n.uninlinable
  | .complete => bci ∈ n.complete
  | .uncommon => False

/-- The only callee with its key at a send. -/
structure Callee (n : Node) (c : ClassTable) (bci : Bci) (k : LookupKey) (m : MethodId)
    (n' : Node) : Prop where
  mem : ∃ name, resolveNames c name = some (k, m) ∧ (bci, name, n') ∈ n.children
  only : ∀ x ∈ n.children, x.1 = bci → ∀ m', resolveNames c x.2.1 = some (k, m') → x.2.2 = n'

/-- The scope that is reached from another one, callee by callee, and the methods of
    both. -/
inductive Leads (c : ClassTable) : Node → MethodId → List (Bci × LookupKey) → Node → MethodId → Prop
  | here (n : Node) (m : MethodId) : Leads c n m [] n m
  | callee {n n' n'' : Node} {m m' m'' : MethodId} {bci : Bci} {k : LookupKey}
    {p : List (Bci × LookupKey)} :
    n.Callee c bci k m' n' → Leads c n' m' p n'' m'' → Leads c n m ((bci, k) :: p) n'' m''

variable {c : ClassTable} {b b' : Bci} {f : Finding}

/-- A mark adds what it says, and so for the other two. -/
theorem finds_addUntaken (n : Node) :
    (n.addUntaken b').Finds c b f ↔ n.Finds c b f ∨ b = b' ∧ f = .untaken := by
  rcases n with ⟨cs, u, i, d⟩
  rcases f <;> simp [Finds, addUntaken, children, untaken, uninlinable, complete]

theorem finds_addUninlinable (n : Node) :
    (n.addUninlinable b').Finds c b f ↔ n.Finds c b f ∨ b = b' ∧ f = .uninlinable := by
  rcases n with ⟨cs, u, i, d⟩
  rcases f <;> simp [Finds, addUninlinable, children, untaken, uninlinable, complete]

theorem finds_addComplete (n : Node) :
    (n.addComplete b').Finds c b f ↔ n.Finds c b f ∨ b = b' ∧ f = .complete := by
  rcases n with ⟨cs, u, i, d⟩
  rcases f <;> simp [Finds, addComplete, children, untaken, uninlinable, complete]

/-- Callees add themselves where their names can be resolved. -/
theorem finds_addChildren (n : Node) (new : List Child) : (n.addChildren new).Finds c b f ↔
    n.Finds c b f ∨ ∃ x ∈ new, x.1 = b ∧ ∃ k m, resolveNames c x.2.1 = some (k, m) ∧
      f = .seen k := by
  rcases n with ⟨cs, u, i, d⟩
  rcases f <;> simp [Finds, addChildren, children, untaken, uninlinable, complete,
    or_and_right, exists_or]

theorem children_addChildren (n : Node) (new : List Child) :
    (n.addChildren new).children = n.children ++ new := by
  rcases n with ⟨cs, u, i, d⟩
  rfl

variable {n n' : Node} {k : LookupKey} {m : MethodId}

/-- A callee is the only one with its key where none was seen before. -/
theorem callee_addChildren {name : NamedKey} (hname : resolveNames c name = some (k, m))
    (hno : ¬n.Finds c b (.seen k)) :
    (n.addChildren [(b, name, n')]).Callee c b k m n' where
  mem := ⟨name, hname, by simp [children_addChildren]⟩
  only x hx hb m' hm' := by
    rw [children_addChildren] at hx
    rcases List.mem_append.1 hx with hx | hx
    · exact absurd ⟨x, hx, hb, m', hm'⟩ hno
    · rw [List.mem_singleton.1 hx]

/-- Callees at other sends or with other keys do not matter to a callee. -/
theorem Callee.addChildren (h : n.Callee c b k m n') {new : List Child}
    (hnew : ∀ x ∈ new, x.1 = b → ∀ m', resolveNames c x.2.1 ≠ some (k, m')) :
    (n.addChildren new).Callee c b k m n' where
  mem := by
    obtain ⟨name, hname, hmem⟩ := h.mem
    exact ⟨name, hname, by simp [children_addChildren, hmem]⟩
  only x hx hb m' hm' := by
    rw [children_addChildren] at hx
    rcases List.mem_append.1 hx with hx | hx
    · exact h.only x hx hb m' hm'
    · exact absurd hm' (hnew x hx hb m')

end Database.Node

namespace FeedbackTree

variable {P : ScopeId → Bci → Knowledge → Prop} {c : ClassTable} {t T : FeedbackTree}
  {s o : ScopeId} {b bci : Bci} {f : Finding} {k : LookupKey} {m : MethodId}

/-- The names of a callee resolve to what its key resolves to. -/
theorem resolve_of_resolveNames {name : NamedKey} (h : resolveNames c name = some (k, m)) :
    k.resolve c = some m := by
  obtain ⟨k', -, h⟩ := Option.bind_eq_some_iff.1 h
  obtain ⟨m', hm, h⟩ := Option.bind_eq_some_iff.1 h
  obtain ⟨rfl, rfl⟩ := Prod.mk.inj (Option.some.inj h)
  exact hm

/-! ## What is added -/

/-- Marking one position after the other adds the findings of all. -/
theorem adds_marks {n : Nat} {g : Finding} (step : FeedbackTree → Bci → FeedbackTree)
    (hstep : ∀ a t, t.Linked ∧ n ≤ t.scopes.length → Gains (fun _ _ _ => True) t (step t a) ∧
      Adds n (fun o b f => o = s ∧ b = a ∧ f = g) t (step t a)) (l : List Bci)
    (ht : t.Linked ∧ n ≤ t.scopes.length) :
    ((l.foldl step t).Linked ∧ n ≤ (l.foldl step t).scopes.length) ∧
      Adds n (fun o b f => o = s ∧ b ∈ l ∧ f = g) t (l.foldl step t) := by
  obtain ⟨hI, hadds⟩ := Adds.foldl (I := fun t => t.Linked ∧ n ≤ t.scopes.length)
      (l := l) (fun a _ t ht => by
    obtain ⟨hgains, hadds⟩ := hstep a t ht
    exact ⟨⟨hgains.linked ht.1, Nat.le_trans ht.2 hgains.length_le⟩, hadds⟩) ht
  refine ⟨hI, fun o b f ho => (hadds o b f ho).trans (or_congr_right ?_)⟩
  constructor
  · rintro ⟨a, ha, ho, rfl, hf⟩
    exact ⟨ho, ha, hf⟩
  · rintro ⟨ho, hb, hf⟩
    exact ⟨b, hb, ho, rfl, hf⟩

/-- What a record says about sends is added at its scope. -/
theorem adds_markRecorded {n : Nat} (hl : t.Linked) (hs : s.index < n) (hn : n ≤ t.scopes.length)
    (level : Nat) (untaken uninlinable complete : List Bci) :
    Adds n (fun o b f => o = s ∧ (Database.Node.mk [] untaken uninlinable complete).Finds c b f) t
      (t.markRecorded s level untaken uninlinable complete) := by
  obtain ⟨hu, huntaken⟩ := adds_marks (s := s)
    (fun t bci => t.addUntaken s bci .neverExecuted (level + 1))
    (fun a t ht => ⟨gains_addUntaken t (Nat.succ_pos level) trivial,
      fun o b f ho => finds_addUntaken ht.1 _ _ (Nat.lt_of_lt_of_le ho ht.2)⟩) untaken ⟨hl, hn⟩
  obtain ⟨hi, huninlinable⟩ := adds_marks (s := s)
    (fun t bci => (t.add (.uninlinable true) (some (s, bci)) (level + 1)).1)
    (fun a t ht => ⟨gains_add t (Nat.succ_pos level) fun _ _ _ => trivial, fun o b f ho => by
      rw [finds_add _ _ (Nat.lt_of_lt_of_le ho ht.2), Knowledge.shows_uninlinable]⟩) uninlinable hu
  obtain ⟨-, hcomplete⟩ := adds_marks (s := s) (fun t bci => t.markComplete s bci)
    (fun a t ht => ⟨gains_markComplete t (w := .nothing) trivial,
      fun o b f ho => finds_markComplete (Nat.lt_of_lt_of_le hs ht.2)⟩) complete hi
  -- The three lists of marks are added one after the other.
  intro o b f ho
  show (t.markRecorded s level untaken uninlinable complete).Finds o b f ↔
    t.Finds o b f ∨ o = s ∧ (Database.Node.mk [] untaken uninlinable complete).Finds c b f
  rw [markRecorded, hcomplete o b f ho, huninlinable o b f ho, huntaken o b f ho]
  rcases f <;> simp [Database.Node.Finds, Database.Node.children, Database.Node.untaken,
    Database.Node.uninlinable, Database.Node.complete]

/-- Callees that are recorded are seen at their sends. What is put below them is found
    elsewhere. -/
theorem adds_fillCallees {n : Nat} (hn : n ≤ t.scopes.length) (level : Nat)
    (cs : List (Bci × NamedKey × Database.Node)) :
    Adds n (fun o b f => o = s ∧ ∃ x ∈ cs, x.1 = b ∧ ∃ k m, resolveNames c x.2.1 = some (k, m) ∧
      f = .seen k) t (fillCallees c cs t s level) := by
  induction cs generalizing t with
  | nil =>
    rw [fillCallees]
    exact fun o b f _ => by simp
  -- What is filled in below the callee hangs at other scopes.
  | cons x cs ih =>
    obtain ⟨b', name, node⟩ := x
    rw [fillCallees]
    rcases hres : resolveNames c name with _ | ⟨k, m⟩
    · intro o b f ho
      rw [ih hn o b f ho]
      simp [hres]
    · intro o b f ho
      have hlt : o.index < t.scopes.length := Nat.lt_of_lt_of_le ho hn
      have hadd : (t.add (.recorded k m) (some (s, b')) (level + 1)).1.scopes.length =
          t.scopes.length + 1 :=
        List.length_append
      have hfill := gains_fill c node (t.add (.recorded k m) (some (s, b')) (level + 1)).1
        ⟨t.scopes.length⟩ (level + 1)
      have hne : o ≠ ⟨t.scopes.length⟩ := fun heq => Nat.lt_irrefl _ (heq ▸ hlt)
      have hle := hfill.length_le
      have hold : (fill c node (t.add (.recorded k m) (some (s, b')) (level + 1)).1
          ⟨t.scopes.length⟩ (level + 1)).Finds
          o b f ↔ t.Finds o b f ∨ o = s ∧ b = b' ∧ f = .seen k := by
        rw [hfill.finds_iff (by lia) fun _ _ => hne, finds_add _ _ hlt, Knowledge.shows_of_key? rfl]
      show (fillCallees c cs
        (fill c node (t.add (.recorded k m) (some (s, b')) (level + 1)).1 ⟨t.scopes.length⟩
        (level + 1)) s level).Finds o b f ↔ _
      rw [ih (by lia) o b f ho, hold, or_assoc, ← and_or_left]
      refine or_congr_right (and_congr_right fun _ => ?_)
      simp [hres, @eq_comm _ b]

/-- Filling in a record adds what it says about the sends of the scope. -/
theorem adds_fill {n : Nat} (hl : t.Linked) (hs : s.index < n) (hn : n ≤ t.scopes.length)
    (level : Nat) (node : Database.Node) :
    Adds n (fun o b f => o = s ∧ node.Finds c b f) t (fill c node t s level) := by
  rcases node with ⟨children, untaken, uninlinable, complete⟩
  intro o b f ho
  show (fill c _ t s level).Finds o b f ↔ t.Finds o b f ∨ o = s ∧ _
  have hle := (gains_markRecorded t s level untaken uninlinable complete).length_le
  rw [fill, adds_fillCallees (Nat.le_trans hn hle) level children o b f ho,
    adds_markRecorded (c := c) hl hs hn level untaken uninlinable complete o b f ho,
    or_assoc, ← and_or_left, ← Database.Node.finds_addChildren]
  rfl

/-! ## Where callees are -/

/-- Nothing is found at a scope that was just added. -/
theorem Filed.not_finds_add (h : t.Filed) (hs : s.index < t.scopes.length) (w : Knowledge) (b : Bci)
    (level : Nat) :
    ¬(t.add w (some (s, b)) level).1.Finds ⟨t.scopes.length⟩ bci f := by
  -- Whatever hangs at a scope is younger, and a new scope is the youngest.
  rintro (⟨e, he, hsender, -⟩ | ⟨e, he, hmarks⟩)
  · rcases List.mem_append.1 he with he | he
    · obtain ⟨i, hi⟩ := List.mem_iff_getElem?.1 he
      exact Nat.lt_asymm (List.getElem?_eq_some_iff.1 hi).1 (h.older ⟨i⟩ e _ bci hi hsender)
    · obtain rfl := List.mem_singleton.1 he
      obtain ⟨rfl, -⟩ := Prod.mk.inj (Option.some.inj hsender)
      exact Nat.lt_irrefl _ hs
  · have hlast : (t.add w (some (s, b)) level).1.get? ⟨t.scopes.length⟩ =
        some ⟨w, some (s, b), level, [], []⟩ :=
      List.getElem?_concat_length ..
    obtain rfl := Option.some.inj (hlast.symm.trans he)
    rcases f <;> simp [FeedbackScope.Marks] at hmarks

/-! ## Where paths lead -/

/-- The scope that is reached from another one, callee by callee. -/
def follow (t : FeedbackTree) : ScopeId → List (Bci × LookupKey) → Option ScopeId
  | s, [] => some s
  | s, (bci, k) :: p => (t.find? s bci k).bind fun s' => t.follow s' p

/-- What was seen at a send can be found there. -/
theorem FiledAt.exists_find? (hfiled : t.FiledAt s) (h : t.Finds s bci (.seen k)) :
    ∃ s', t.find? s bci k = some s' := by
  obtain ⟨e, he, hsender, hkey⟩ : ∃ e ∈ t.scopes, e.sender = some (s, bci) ∧
      e.what.key? = some k := by
    rcases h with h | ⟨-, -, ⟨⟩⟩
    exact h
  obtain ⟨i, hi⟩ := List.mem_iff_getElem?.1 he
  refine Option.isSome_iff_exists.1
    (List.find?_isSome.2 ⟨⟨i⟩, (hfiled bci ⟨i⟩).2 ⟨e, hi, hsender⟩, ?_⟩)
  exact decide_eq_true (Option.bind_eq_some_iff.2 ⟨e, hi, hkey⟩)

/-- A scope of a tree stands for a recorded one. -/
structure Tells (T : FeedbackTree) (c : ClassTable) (s : ScopeId) (n : Database.Node)
    (m : MethodId) : Prop where
  method : (T.get? s).bind (·.what.method?) = some m
  finds : ∀ bci f, T.Finds s bci f ↔ n.Finds c bci f

/-- A scope of a tree stands for a recorded one, and so does whatever is reached from
    it. -/
def Carries (T : FeedbackTree) (c : ClassTable) (s : ScopeId) (n : Database.Node) (m : MethodId) :
    Prop :=
  ∀ p n' m', n.Leads c m p n' m' → ∃ s', T.follow s p = some s' ∧ T.Tells c s' n' m'

/-- A scope carries a record if the callees that hang at it do. -/
theorem Tells.carries {n : Database.Node} (h : T.Tells c s n m) (hlinked : T.Linked)
    (hfiled : T.FiledAt s)
    (hcallees : ∀ (i : Nat) (e : FeedbackScope) (bci : Bci) (k : LookupKey), T.scopes[i]? = some e →
      e.sender = some (s, bci) → e.what.key? = some k → ∃ x ∈ n.children, x.1 = bci ∧ ∃ m,
      resolveNames c x.2.1 = some (k, m) ∧ T.Carries c ⟨i⟩ x.2.2 m) :
    T.Carries c s n m := by
  intro p n' m' hleads
  cases hleads with
  | here => exact ⟨s, rfl, h⟩
  | @callee _ n₁ _ _ m₁ _ bci k p hcallee hleads =>
    obtain ⟨name, hname, hmem⟩ := hcallee.mem
    obtain ⟨s₁, hs₁⟩ := hfiled.exists_find? ((h.finds bci (.seen k)).2 ⟨_, hmem, rfl, m₁, hname⟩)
    obtain ⟨e, he, hsender, hkey⟩ := hlinked.scope_of_find? hs₁
    -- The tree has one callee of the key, and the record has only one, so they are the same.
    obtain ⟨x, hx, hbci, m₂, hres, hcarries⟩ := hcallees s₁.index e bci k he hsender hkey
    obtain rfl := hcallee.only x hx hbci m₂ hres
    obtain rfl :=
      Option.some.inj ((resolve_of_resolveNames hres).symm.trans (resolve_of_resolveNames hname))
    obtain ⟨s', hs', htells⟩ := hcarries p n' m' hleads
    exact ⟨s', by rwa [follow, hs₁, Option.bind_some], htells⟩

theorem Gains.method (h : Gains P t T) (hm : (t.get? s).bind (·.what.method?) = some m) :
    (T.get? s).bind (·.what.method?) = some m := by
  obtain ⟨e, he, hm⟩ := Option.bind_eq_some_iff.1 hm
  obtain ⟨e', he', hwhat, -⟩ := h.keeps s.index e he
  exact Option.bind_eq_some_iff.2 ⟨e', he', hwhat ▸ hm⟩

/-- Of what is added with a callee, only the callee hangs at the send. -/
theorem hangs_callee {n : Database.Node} (hs : s.index < t.scopes.length) {level i : Nat}
    {e : FeedbackScope}
    (he : (fill c n (t.add (.recorded k m) (some (s, b)) level).1
      ⟨t.scopes.length⟩ level).scopes[i]? = some e)
    (hi : t.scopes.length ≤ i) (hsender : e.sender = some (s, bci)) :
    i = t.scopes.length ∧ bci = b ∧ e.what = .recorded k m := by
  have hlength : (t.add (.recorded k m) (some (s, b)) level).1.scopes.length =
      t.scopes.length + 1 := List.length_append
  have hlast : (t.add (.recorded k m) (some (s, b)) level).1.scopes[t.scopes.length]? =
      some ⟨.recorded k m, some (s, b), level, [], []⟩ := List.getElem?_concat_length ..
  have hfill := gains_fill c n (t.add (.recorded k m) (some (s, b)) level).1 ⟨t.scopes.length⟩ level
  -- The callee itself hangs at its send, and all that follows hangs below it.
  rcases Nat.eq_or_lt_of_le hi with rfl | hlt
  · obtain ⟨e', he', hwhat, hsender'⟩ := hfill.of_lt he (hlength ▸ Nat.lt_succ_self _)
    obtain rfl := Option.some.inj (he'.symm.trans hlast)
    rw [hsender'] at hsender
    exact ⟨rfl, (Prod.mk.inj (Option.some.inj hsender)).2.symm, hwhat⟩
  · have hplace := (hfill.gained i e he (hlength ▸ hlt)).2 s bci hsender
      (hlength ▸ Nat.lt_succ_of_lt hs)
    rw [hplace] at hs
    exact absurd hs (Nat.lt_irrefl _)

mutual

/-- A tree that is filled with a record carries it, however it grows elsewhere. -/
theorem carries_fill {c : ClassTable} (n : Database.Node) {t T : FeedbackTree} {s : ScopeId}
    {level : Nat} {m : MethodId} (ht : t.Filed) (hs : t.Records s)
    (hempty : ∀ bci f, ¬t.Finds s bci f) (hm : (t.get? s).bind (·.what.method?) = some m)
    {P : ScopeId → Bci → Knowledge → Prop} (hT : Gains P (fill c n t s level) T)
    (hP : ∀ o bci w, P o bci w → o.index < t.scopes.length ∧ o ≠ s) :
    T.Carries c s n m := by
  have hfill := gains_fill c n t s level
  have hlt : s.index < (fill c n t s level).scopes.length :=
    Nat.lt_of_lt_of_le hs.index_lt hfill.length_le
  have htells : T.Tells c s n m := by
    refine ⟨hT.method (hfill.method hm), fun bci f => ?_⟩
    rw [hT.finds_iff hlt fun bci w hw => (hP s bci w hw).2 rfl,
      adds_fill ht.linked hs.index_lt (Nat.le_refl _) level n s bci f hs.index_lt]
    simp [hempty]
  have hfilled : (fill c n t s level).Filed :=
    (grows_fill (d := 0) trivial c n t s level hs).filed ht
  refine htells.carries (hT.linked hfilled.linked) (hT.filedAt hfilled hlt)
    fun i e bci k he hsender hkey => ?_
  rcases n with ⟨children, untaken, uninlinable, complete⟩
  have hmarks := gains_markRecorded t s level untaken uninlinable complete
  have hcallees :=
    gains_fillCallees c children (t.markRecorded s level untaken uninlinable complete) s level
  rw [fill] at hT
  rcases Nat.lt_or_ge i (t.markRecorded s level untaken uninlinable complete).scopes.length
    with hi | hi
  · -- Marks have no keys, and nothing hung here before.
    obtain ⟨e₁, he₁, hwhat₁, hsender₁⟩ := hT.of_lt he (Nat.lt_of_lt_of_le hi hcallees.length_le)
    obtain ⟨e₂, he₂, hwhat₂, hsender₂⟩ := hcallees.of_lt he₁ hi
    rw [hsender₁, hsender₂] at hsender
    rw [hwhat₁, hwhat₂] at hkey
    have hfinds : (t.markRecorded s level untaken uninlinable complete).Finds s bci (.seen k) :=
      .inl ⟨e₂, List.mem_of_getElem? he₂, hsender, hkey⟩
    rcases (adds_markRecorded (c := c) ht.linked hs.index_lt (Nat.le_refl _) level untaken
      uninlinable complete s bci (.seen k) hs.index_lt).1 hfinds with hfinds | ⟨-, x, hx, -⟩
    · exact absurd hfinds (hempty bci _)
    · cases hx
  · have hgrows : Grows True 0 t (t.markRecorded s level untaken uninlinable complete) :=
      grows_markRecorded hs ..
    obtain ⟨x, hx, hbci, k', m', hres, hwhat, hcarries⟩ := carries_fillCallees children
      (hgrows.filed ht) (hgrows.records hs) hT
      (fun o bci w hw => ⟨Nat.lt_of_lt_of_le (hP o bci w hw).1 hmarks.length_le, (hP o bci w hw).2⟩)
      he hi hsender
    rw [hwhat] at hkey
    obtain rfl := Option.some.inj hkey
    exact ⟨x, hx, hbci, m', hres, hcarries⟩
termination_by structural n

/-- The callees of a record are put at their sends, and nothing else is. -/
theorem carries_fillCallees {c : ClassTable} (cs : List (Bci × NamedKey × Database.Node))
    {t T : FeedbackTree} {s : ScopeId} {level : Nat} (ht : t.Filed) (hs : t.Records s)
    {P : ScopeId → Bci → Knowledge → Prop} (hT : Gains P (fillCallees c cs t s level) T)
    (hP : ∀ o bci w, P o bci w → o.index < t.scopes.length ∧ o ≠ s) {i : Nat} {e : FeedbackScope}
    {bci : Bci} (he : T.scopes[i]? = some e) (hi : t.scopes.length ≤ i)
    (hsender : e.sender = some (s, bci)) :
    ∃ x ∈ cs, x.1 = bci ∧ ∃ k m, resolveNames c x.2.1 = some (k, m) ∧ e.what = .recorded k m ∧
      T.Carries c ⟨i⟩ x.2.2 m := by
  rcases cs with _ | ⟨⟨b, name, n⟩, cs⟩
  · rw [fillCallees] at hT
    exact absurd rfl (hP s bci e.what ((hT.gained i e he hi).2 s bci hsender hs.index_lt)).2
  · rw [fillCallees] at hT
    rcases hres : resolveNames c name with _ | ⟨k, m⟩
    · rw [hres] at hT
      obtain ⟨x, hx, hcallee⟩ := carries_fillCallees cs ht hs hT hP he hi hsender
      exact ⟨x, List.mem_cons_of_mem _ hx, hcallee⟩
    · rw [hres] at hT
      simp only at hT
      have hlength :
          (t.add (.recorded k m) (some (s, b)) (level + 1)).1.scopes.length = t.scopes.length + 1 :=
        List.length_append
      have hnew :
          t.scopes.length < (t.add (.recorded k m) (some (s, b)) (level + 1)).1.scopes.length := by
        lia
      have hplace : t.Offers (some (s, b)) := hs.index_lt
      obtain ⟨hadd, hrecords⟩ :=
        grows_add_recorded (R := True) (d := 0) trivial hplace k m (level + 1)
      have hgrows := grows_fill (R := True) (d := 0) trivial c n _
        ⟨t.scopes.length⟩ (level + 1) hrecords
      have hrest := gains_fillCallees c cs
        (fill c n (t.add (.recorded k m) (some (s, b)) (level + 1)).1 ⟨t.scopes.length⟩ (level + 1))
        s level
      rcases Nat.lt_or_ge i
        (fill c n (t.add (.recorded k m) (some (s, b)) (level + 1)).1
          ⟨t.scopes.length⟩ (level + 1)).scopes.length with hi' | hi'
      · -- The scope is the callee, and what comes later hangs elsewhere.
        obtain ⟨e₁, he₁, hwhat₁, hsender₁⟩ := hT.of_lt he (Nat.lt_of_lt_of_le hi' hrest.length_le)
        obtain ⟨e₂, he₂, hwhat₂, hsender₂⟩ := hrest.of_lt he₁ hi'
        rw [hsender₁, hsender₂] at hsender
        obtain ⟨rfl, rfl, hwhat⟩ := hangs_callee hs.index_lt he₂ hi hsender
        refine ⟨_, List.mem_cons_self, rfl, k, m, hres, by rw [hwhat₁, hwhat₂, hwhat], ?_⟩
        refine carries_fill n (hadd.filed ht) hrecords
          (fun _ _ => ht.not_finds_add hs.index_lt _ _ _) ?_
          ((hrest.mono fun o _ _ _ ho => .inl ho).trans (hT.mono fun o b w _ hw => .inr hw)) ?_
          (P := fun o bci w => o = s ∨ P o bci w)
        · rw [get?, add, List.getElem?_concat_length]
          rfl
        · rintro o bci w (rfl | hw)
          · exact ⟨Nat.lt_trans hs.index_lt hnew, fun heq => Nat.lt_irrefl _ (heq ▸ hs.index_lt)⟩
          · have ho := (hP o bci w hw).1
            exact ⟨Nat.lt_trans ho hnew, fun heq => Nat.lt_irrefl _ (heq ▸ ho)⟩
      · have hle := hgrows.length_le
        obtain ⟨x, hx, hcallee⟩ := carries_fillCallees cs ((hadd.trans hgrows).filed ht)
          ((hadd.trans hgrows).records hs) hT
          (fun o bci w hw => ⟨by have := (hP o bci w hw).1; lia, (hP o bci w hw).2⟩) he hi' hsender
        exact ⟨x, List.mem_cons_of_mem _ hx, hcallee⟩
termination_by structural cs

end

end FeedbackTree

/-- The tree of a recorded method carries the record. -/
theorem Database.exists_tree?_carries {db : Database} {c : ClassTable} {k : LookupKey} {n : Node}
    {m : MethodId} (hn : db.lookup c k none = some n) (hm : k.resolve c = some m) :
    ∃ T, db.tree? c k none = some T ∧ T.Carries c FeedbackTree.root n m := by
  refine ⟨FeedbackTree.graft c n k m .empty none 0, ?_, ?_⟩
  · simp [tree?, hn, hm]
  · have hplace : FeedbackTree.empty.Offers none := rfl
    obtain ⟨hadd, hrecords⟩ := FeedbackTree.grows_add_recorded (R := True)
      (d := 0) trivial hplace k m 0
    refine FeedbackTree.carries_fill n hadd.shaped.toFiled hrecords ?_ rfl
      (.refl (P := fun _ _ _ => False) _) (by simp)
    -- A tree with only a root says nothing.
    rintro bci f (⟨e, he, hsender, -⟩ | ⟨e, he, hmarks⟩)
    · obtain rfl := List.mem_singleton.1 he
      cases hsender
    · obtain rfl := Option.some.inj he
      rcases f <;> simp [FeedbackScope.Marks] at hmarks

end Warmup
