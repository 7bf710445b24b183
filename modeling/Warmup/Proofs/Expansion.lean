import Warmup.Proofs.Definitions
import Warmup.Proofs.Inlining
import Warmup.Proofs.Paths

/-!
# The scopes of a graph

A graph grows by attempts that succeed, each of which adds a scope and all that
the scope gives (`Compiler.Grows`).

* `Grows.sender_lt`, `Grows.nodup`: a scope stands behind its sender, and no two
  scopes hang at the same send under the same key;
* `Compiler.Reached`: a caller that attempts lead to from the root, along a path
  of positions and keys, and what it gives in the graph;
* `graph_reached`: the scopes of a graph are those that are reached, and the path
  of a scope in the graph is the one along which it is reached;
* `Grown.tried`: in a scope of a graph nothing that could be inlined was left out.
-/

namespace Warmup

namespace Fragment

/-- The part stands in a graph, from the offset `next` on. -/
structure LiesIn (f : Fragment) (g : SendGraph) (next : Offset) : Prop where
  scopes : Within f.scopes next g.scopes
  sends : ∀ n ∈ f.sends, n ∈ g.sends

variable {f f' : Fragment} {g : SendGraph} {next : Offset}

theorem LiesIn.left (h : (f.append f').LiesIn g next) : f.LiesIn g next where
  scopes := h.scopes.left
  sends n hn := h.sends n (List.mem_append_left _ hn)

/-- The second of two parts lies behind the scopes of the first one. -/
theorem LiesIn.right (h : (f.append f').LiesIn g next) : f'.LiesIn g (next + f.scopes.length) where
  scopes := h.scopes.right
  sends n hn := h.sends n (List.mem_append_right _ hn)

/-- What was counted does not matter. -/
theorem LiesIn.of_count {stats : InliningStats} (h : (f.count stats).LiesIn g next) :
    f.LiesIn g next where
  scopes := h.scopes
  sends := h.sends

theorem LiesIn.tail {s : CompileScope} (h : (f.headed s).LiesIn g next) :
    f.LiesIn g (next + 1) where
  scopes := Within.right (a := [s]) h.scopes
  sends := h.sends

theorem LiesIn.head {s : CompileScope} (h : (f.headed s).LiesIn g next) :
    g.scopes[next]? = some s :=
  h.scopes 0 s rfl

end Fragment

namespace Compiler

variable (c : Compiler) (t : FeedbackTree)

/-- The position and the key of the callee that is tried at a send for a class. -/
def offer? (s : CompileScope) (site : SendSite) (d : ClassId) : Option (Bci × LookupKey) :=
  (c.calleeAt? s site d).map fun e => (site.bci, e.key)

/-- The position and the key of every callee that is tried at a send. -/
def offersAt (s : CompileScope) (site : SendSite) : List (Bci × LookupKey) :=
  (c.receivers t s site).filterMap (c.offer? s site)

/-- The position and the key of every callee that is tried by some work in a scope. -/
def offers (s : CompileScope) : Work → List (Bci × LookupKey)
  | .attempts site ds _ => ds.filterMap (c.offer? s site)
  | .sends sites => sites.flatMap (c.offersAt t s)

variable {c t} {n : Nat} {a b : Caller} {w : Work} {next : Offset} {f : Fragment} {site : SendSite}
  {m : Method} {d : ClassId} {ds : List ClassId} {arms : List (ClassId × Offset)}

/-! ## The shape of what grows -/

theorem offers_cons (s : CompileScope) (site : SendSite) (d : ClassId) (ds : List ClassId)
    (arms arms' : List (ClassId × Offset)) : c.offers t s (.attempts site (d :: ds) arms) =
      (c.offer? s site d).toList ++ c.offers t s (.attempts site ds arms') := by
  rcases h : c.offer? s site d with _ | x <;> simp [offers, h]

/-- An attempt that succeeds takes up its offer. -/
theorem Enters.offer?_eq (h : c.Enters t a site d b) :
    c.offer? a.scope site d = some (site.bci, b.scope.key) := by
  obtain ⟨e, m, builtin, he, -, -, hb⟩ := h.callee
  rw [offer?, he, congrArg (·.scope.key) hb]
  rfl

/-- Scopes from an offset on hang at a scope before them, at some positions and under
    some keys, or at one another. -/
def HangAt (o : Offset) (offers : List (Bci × LookupKey)) (next : Offset) (l : List CompileScope) :
    Prop :=
  ∀ k ∈ l, (∃ bci, k.sender = some (o, bci) ∧ (bci, k.key) ∈ offers) ∨
    ∃ p bci, k.sender = some (p, bci) ∧ next ≤ p ∧ p < next + l.length

namespace HangAt

variable {o : Offset} {x y : List (Bci × LookupKey)} {k l : List CompileScope}

theorem mono (h : HangAt o x next k) (hsub : x ⊆ y) : HangAt o y next k := by
  intro s hs
  rcases h s hs with ⟨bci, hsender, hmem⟩ | hother
  · exact .inl ⟨bci, hsender, hsub hmem⟩
  · exact .inr hother

/-- Parts that hang at the same scope can be put together. -/
theorem append (hk : HangAt o x next k) (hl : HangAt o y (next + k.length) l) :
    HangAt o (x ++ y) next (k ++ l) := by
  intro s hs
  rw [List.length_append]
  rcases List.mem_append.1 hs with hs | hs
  · rcases hk s hs with ⟨bci, hsender, hmem⟩ | ⟨p, bci, hsender, hle, hlt⟩
    · exact .inl ⟨bci, hsender, List.mem_append_left _ hmem⟩
    · exact .inr ⟨p, bci, hsender, hle, by lia⟩
  · rcases hl s hs with ⟨bci, hsender, hmem⟩ | ⟨p, bci, hsender, hle, hlt⟩
    · exact .inl ⟨bci, hsender, List.mem_append_right _ hmem⟩
    · exact .inr ⟨p, bci, hsender, by lia, by lia⟩

/-- What hangs at a scope, behind that scope. -/
theorem cons {s : CompileScope} {bci : Bci} (hs : s.sender = some (o, bci))
    (h : HangAt s.id x (s.id + 1) l) :
    HangAt o [(bci, s.key)] s.id (s :: l) := by
  intro s' hs'
  rw [List.length_cons]
  rcases List.mem_cons.1 hs' with rfl | hs'
  · exact .inl ⟨bci, hs, List.mem_singleton.2 rfl⟩
  · rcases h s' hs' with ⟨bci', hsender, -⟩ | ⟨p, bci', hsender, hle, hlt⟩
    · exact .inr ⟨_, bci', hsender, Nat.le_refl _, by lia⟩
    · exact .inr ⟨p, bci', hsender, by lia, by lia⟩

/-- A scope in front of what hangs at it is different from all of that. -/
theorem nodup_cons {s : CompileScope} {bci : Bci} (hs : s.sender = some (o, bci)) (ho : o < s.id)
    (h : HangAt s.id x (s.id + 1) l) (hl : (l.map fun k => (k.sender, k.key)).Nodup) :
    ((s :: l).map fun k => (k.sender, k.key)).Nodup := by
  refine List.nodup_cons.2 ⟨fun hmem => ?_, hl⟩
  -- What hangs below the scope has another sender than the scope itself.
  obtain ⟨k, hk, heq⟩ := List.mem_map.1 hmem
  have hsender : k.sender = some (o, bci) := (congrArg Prod.fst heq).trans hs
  rcases h k hk with ⟨bci', hk, -⟩ | ⟨p, bci', hk, hle, -⟩
  · have hid : s.id = o := (Prod.mk.inj (Option.some.inj (hk.symm.trans hsender))).1
    lia
  · have hid : p = o := (Prod.mk.inj (Option.some.inj (hk.symm.trans hsender))).1
    lia

/-- Parts that took up different offers of a scope have no place in common. -/
theorem nodup_append (hk : HangAt o x next k) (hl : HangAt o y (next + k.length) l) (ho : o < next)
    (hdisjoint : ∀ p ∈ x, ∀ q ∈ y, p ≠ q) (hk' : (k.map fun k => (k.sender, k.key)).Nodup)
    (hl' : (l.map fun k => (k.sender, k.key)).Nodup) :
    ((k ++ l).map fun k => (k.sender, k.key)).Nodup := by
  rw [List.map_append]
  refine List.nodup_append.2 ⟨hk', hl', ?_⟩
  rintro z hz _ hz' rfl
  obtain ⟨s, hs, rfl⟩ := List.mem_map.1 hz
  obtain ⟨s', hs', heq⟩ := List.mem_map.1 hz'
  obtain ⟨hsender, hkey⟩ := Prod.mk.inj heq
  -- Both hang at the scope before them, at one of the parts, or at different parts.
  rcases hk s hs with ⟨bci, hs, hmem⟩ | ⟨p, bci, hs, hle, hlt⟩ <;>
    rcases hl s' hs' with ⟨bci', hs', hmem'⟩ | ⟨p', bci', hs', hle', hlt'⟩ <;>
    obtain ⟨hp, hb⟩ := Prod.mk.inj (Option.some.inj (hs'.symm.trans (hsender.trans hs)))
  · exact hdisjoint _ hmem _ hmem' (by rw [hb, hkey])
  · lia
  · lia
  · lia

end HangAt

namespace Grows

/-- A scope stands behind its sender. -/
theorem sender_lt (h : c.Grows t n a w next f) (ha : a.scope.id < next) {i : Nat} {k : CompileScope}
    (hk : f.scopes[i]? = some k) {o : Offset} {bci : Bci} (hs : k.sender = some (o, bci)) :
    o < next + i := by
  induction h generalizing i with
  | tried => simp at hk
  | refused _ _ _ ih => exact ih ha hk
  -- The scope that is entered hangs at the caller. What is below it comes after it, and the rest
  -- after all of that.
  | @enter n a site d ds arms b f f' henter _ _ _ ih ih' =>
    rcases getElem?_append_cases hk with ⟨-, hk⟩ | ⟨j, rfl, hk'⟩
    · rcases i with _ | i
      · obtain rfl := Option.some.inj hk
        obtain ⟨rfl, -⟩ := Prod.mk.inj (Option.some.inj (hs.symm.trans henter.sender))
        exact ha
      · have := ih (Nat.lt_succ_self _) hk
        lia
    · have := ih' (Nat.lt_add_right _ ha) hk'
      lia
  | sent => simp at hk
  | @send n a site sites arms next f f' _ _ _ ih ih' =>
    rcases getElem?_append_cases hk with ⟨-, hk⟩ | ⟨j, rfl, hk'⟩
    · exact ih ha hk
    · have := ih' (Nat.lt_add_right _ ha) hk'
      rw [Fragment.scopes_count]
      lia

/-- A scope hangs at the caller, as one of the callees that were tried, or at another
    scope of the part. -/
theorem hangAt (h : c.Grows t n a w next f) :
    HangAt a.scope.id (c.offers t a.scope w) next f.scopes := by
  induction h with
  | tried => exact fun _ hk => absurd hk List.not_mem_nil
  | @refused n a site d ds arms next f why _ _ ih =>
    rw [offers_cons a.scope site d ds arms arms]
    exact ih.mono (List.subset_append_right _ _)
  | @enter n a site d ds arms b f f' henter _ _ _ ih ih' =>
    rw [offers_cons a.scope site d ds _ arms, henter.offer?_eq]
    exact (HangAt.cons henter.sender ih).append ih'
  | sent => exact fun _ hk => absurd hk List.not_mem_nil
  | send _ _ _ ih ih' => exact ih.append ih'

end Grows

/-- The callee that is tried for an expected class is filed under that class. -/
theorem calleeAt?_of_dynamic {s : CompileScope} (h : staticClass? s site = none) (d : ClassId) :
    c.calleeAt? s site d = (c.classes.lookup d site.selector).map fun m =>
      ⟨.send d site.selector, m, d⟩ := by
  rw [staticClass?] at h
  split at h
  · cases h
  · next hsuper =>
    rw [calleeAt?, if_neg hsuper]
    rcases hv : s.value site.receiver with d' | ⟨b, outer⟩ | _
    · simp [hv] at h
    · simp [hv] at h
    · rfl

/-- The classes that are tried at a send give different keys. -/
theorem nodup_offersAt (c : Compiler) (t : FeedbackTree) (s : CompileScope) (site : SendSite) :
    (c.offersAt t s site).Nodup := by
  rw [offersAt]
  rcases hclass : staticClass? s site with _ | d
  · refine (c.nodup_receivers t s site).filterMap fun d d' x hx hx' => ?_
    simp only [offer?, calleeAt?_of_dynamic hclass, Option.map_map, Option.mem_def] at hx hx'
    obtain ⟨m, -, rfl⟩ := Option.map_eq_some_iff.1 hx
    obtain ⟨m', -, hx'⟩ := Option.map_eq_some_iff.1 hx'
    exact (congrArg (·.2.cls) hx').symm
  · rw [receivers_of_static hclass, List.filterMap_cons]
    split
    · exact List.nodup_nil
    · exact List.nodup_singleton _

/-- No callee is tried twice in a scope. -/
theorem nodup_offers (hw : c.classes.WellFormed) (t : FeedbackTree) (s : CompileScope) :
    (c.offers t s (.sends (c.sendsOf s))).Nodup := by
  rcases hm : c.classes.method? s.method with _ | m
  · rw [sendsOf, hm]
    exact List.nodup_nil
  · rw [sendsOf_eq hm]
    refine List.nodup_flatMap.2 ⟨fun site _ => c.nodup_offersAt t s site, ?_⟩
    -- Sends stand at different positions.
    refine (hw.positions s.method m hm).imp fun {x y} hxy p hp hp' => hxy ?_
    have hbci {site : SendSite} (h : p ∈ c.offersAt t s site) : p.1 = site.bci := by
      obtain ⟨d, -, h⟩ := List.mem_filterMap.1 h
      obtain ⟨e, -, rfl⟩ := Option.map_eq_some_iff.1 h
      rfl
    exact (hbci hp).symm.trans (hbci hp')

/-- No two scopes hang at the same send under the same key. -/
theorem Grows.nodup (hw : c.classes.WellFormed) (h : c.Grows t n a w next f)
    (ha : a.scope.id < next) (hoffers : (c.offers t a.scope w).Nodup) :
    (f.scopes.map fun k => (k.sender, k.key)).Nodup := by
  induction h with
  | tried => exact List.nodup_nil
  | @refused n a site d ds arms next f why _ _ ih =>
    rw [offers_cons a.scope site d ds arms arms] at hoffers
    exact ih ha (List.nodup_append.1 hoffers).2.1
  -- The offer that is taken up here is not made again by the attempts that follow.
  | @enter n a site d ds arms b f f' henter _ hf hf' ih ih' =>
    rw [offers_cons a.scope site d ds _ arms, henter.offer?_eq] at hoffers
    obtain ⟨-, hoffers, hdisjoint⟩ := List.nodup_append.1 hoffers
    have hbelow := HangAt.nodup_cons henter.sender ha hf.hangAt
      (ih (Nat.lt_succ_self _) (nodup_offers hw t b.scope))
    exact (HangAt.cons henter.sender hf.hangAt).nodup_append hf'.hangAt ha hdisjoint hbelow
      (ih' (Nat.lt_add_right _ ha) hoffers)
  | sent => exact List.nodup_nil
  | send _ hf hf' ih ih' =>
    obtain ⟨hoffers, hoffers', hdisjoint⟩ := List.nodup_append.1 hoffers
    exact hf.hangAt.nodup_append hf'.hangAt ha hdisjoint (ih ha hoffers)
      (ih' (Nat.lt_add_right _ ha) hoffers')

/-! ## Scopes of a graph -/

variable (c t) in
/-- What a caller gives stands in a graph. -/
def Grown (g : SendGraph) (n : Nat) (a : Caller) : Prop :=
  ∃ f, c.expand t n a = .ok f ∧ f.LiesIn g a.scope.id

variable (c t) in
/-- A caller that attempts lead to from `r`, with the path and the levels that are
    left there. -/
inductive Reached (g : SendGraph) (levels : Nat) (r : Caller) :
    List (Bci × LookupKey) → Nat → Caller → Prop
  | root : c.Grown t g levels r → Reached g levels r [] levels r
  | enter {p n a site d b} :
    Reached g levels r p (n + 1) a → c.Enters t a site d b → c.Grown t g n b →
    Reached g levels r (p ++ [(site.bci, b.scope.key)]) n b

variable (c t) in
/-- A send of a graph is one of the caller, and decided by attempts. -/
structure Answers (g : SendGraph) (a : Caller) (site : SendSite) (x : SendNode) : Prop where
  scope : x.scope = a.scope.id
  sends : ∃ m, c.classes.method? a.scope.method = some m ∧ site ∈ m.sends
  bci : x.bci = site.bci
  selector : x.selector = site.selector
  settled : c.IsSettled t a.scope site x.resolution
  arms : ∀ y ∈ x.resolution.arms, ∃ b, g.scopes[y.2]? = some b.scope ∧ c.Enters t a site y.1 b

variable {g : SendGraph} {levels : Nat} {r : Caller} {p : List (Bci × LookupKey)}

theorem Grown.scope (h : c.Grown t g n a) : g.scopes[a.scope.id]? = some a.scope := by
  obtain ⟨f, hexp, hf⟩ := h
  obtain ⟨rest, rfl, -⟩ := expand_grows n a f hexp
  exact hf.head

/-- A caller that is reached has grown. -/
theorem Reached.grown (h : c.Reached t g levels r p n a) : c.Grown t g n a := by
  rcases h with h | ⟨-, -, h⟩
  · exact h
  · exact h

/-- The path of a scope is the one along which it is reached. -/
theorem Reached.path_eq (hg : Ordered g.scopes) (hr : r.scope.sender = none)
    (h : c.Reached t g levels r p n a) :
    g.path a.scope.id = p := by
  induction h with
  | root h => exact hg.path_root h.scope hr
  | enter _ henter h ih => rw [hg.path_sender h.scope henter.sender, ih]

/-- Every step of a path takes one level. -/
theorem Reached.levels_eq (h : c.Reached t g levels r p n a) : n + p.length = levels := by
  induction h with
  | root => rfl
  | @enter p n a site d b _ _ _ ih =>
    rw [List.length_append, List.length_singleton]
    omega

/-- What a callee gives in a graph starts with its scope, which is reached. -/
theorem Reached.of_enters (hg : Ordered g.scopes)
    (ha : c.Reached t g levels r (g.path a.scope.id) (n + 1) a) (hb : c.Enters t a site d b)
    (hexp : c.expand t n b = .ok (f.headed b.scope)) (hf : (f.headed b.scope).LiesIn g b.scope.id) :
    c.Reached t g levels r (g.path b.scope.id) n b := by
  rw [hg.path_sender hf.head hb.sender]
  exact ha.enter hb ⟨_, hexp, hf⟩

/-- What grows below a caller that is reached is reached. -/
theorem Grows.reached (hg : Ordered g.scopes) (h : c.Grows t n a w next f) (hf : f.LiesIn g next)
    (ha : c.Reached t g levels r (g.path a.scope.id) n a) {i : Nat} {k : CompileScope}
    (hk : f.scopes[i]? = some k) :
    ∃ n' trail, c.Reached t g levels r (g.path (next + i)) n' ⟨k, trail⟩ := by
  induction h generalizing i with
  | tried => simp at hk
  | refused _ _ _ ih => exact ih hf.right ha hk
  -- The path to the scope that is entered is that of the caller and one step more.
  | @enter n a site d ds arms b f f' henter hexp _ _ ih ih' =>
    have hb := ha.of_enters hg henter hexp hf.left
    rcases getElem?_append_cases hk with ⟨-, hk⟩ | ⟨j, rfl, hk'⟩
    · rcases i with _ | i
      · obtain rfl := Option.some.inj hk
        exact ⟨n, b.trail, hb⟩
      · have hreached := ih hf.left.tail hb hk
        rwa [Nat.add_right_comm] at hreached
    · rw [← Nat.add_assoc]
      exact ih' hf.right ha hk'
  | sent => simp at hk
  | send _ _ _ ih ih' =>
    rcases getElem?_append_cases hk with ⟨-, hk⟩ | ⟨j, rfl, hk'⟩
    · exact ih hf.left.of_count ha hk
    · rw [← Nat.add_assoc]
      exact ih' hf.right.right ha hk'

/-- The sends of what grows below a caller that is reached are sends of callers
    that are reached. -/
theorem Grows.answers (hg : Ordered g.scopes) (h : c.Grows t n a w next f) (hf : f.LiesIn g next)
    (ha : c.Reached t g levels r (g.path a.scope.id) n a) {x : SendNode} (hx : x ∈ f.sends) :
    ∃ n' a' site, c.Reached t g levels r (g.path x.scope) n' a' ∧ c.Answers t g a' site x := by
  induction h with
  | tried => simp at hx
  | refused _ _ _ ih => exact ih hf.right ha hx
  | enter henter hexp _ _ ih ih' =>
    rcases List.mem_append.1 hx with hx | hx
    · exact ih hf.left.tail (ha.of_enters hg henter hexp hf.left) hx
    · exact ih' hf.right ha hx
  | sent => simp at hx
  | @send n a site sites arms next f f' hsite hgrows _ ih ih' =>
    rcases List.mem_append.1 hx with hx | hx
    · exact ih hf.left.of_count ha hx
    · rcases List.mem_append.1 hx with hx | hx
      · -- The send itself is answered by what its attempts gave.
        obtain rfl := List.mem_singleton.1 hx
        obtain ⟨hsub, harms⟩ := hgrows.arms
        refine ⟨n, a, site, ha, rfl, mem_sendsOf.1 hsite, rfl, rfl, isSettled_settle hsub, ?_⟩
        rw [settle_arms hsub]
        intro y hy
        obtain ⟨i, b, hb, hi, henter⟩ := harms y hy
        exact ⟨b, by rw [hi]; exact hf.left.scopes i _ hb, henter⟩
      · exact ih' hf.right.right ha hx

/-! ## Attempts in a graph -/

/-- Every send is there, with the callees of its attempts. -/
theorem Grows.exists_send {sites : List SendSite} (h : c.Grows t n a (.sends sites) next f)
    (hf : f.LiesIn g next) (hsite : site ∈ sites) :
    ∃ o f' arms, f'.LiesIn g o ∧
      c.Grows t n a (.attempts site (c.receivers t a.scope site) arms) o f' ∧
      ⟨a.scope.id, site.bci, site.selector, c.settle t a.scope site arms⟩ ∈ g.sends := by
  generalize hw : Work.sends sites = w at h
  induction h generalizing sites with
  | tried | refused | enter => cases hw
  | sent =>
    cases hw
    cases hsite
  | send _ hgrows _ _ ih' =>
    cases hw
    rcases List.mem_cons.1 hsite with rfl | hsite
    · exact ⟨_, _, _, hf.left.of_count, hgrows, hf.right.left.sends _ (List.mem_singleton.2 rfl)⟩
    · exact ih' hf.right.right hsite rfl

/-- A callee that was tried is refused, or inlined. -/
theorem Grows.refuses_or_enters (h : c.Grows t n a (.attempts site ds arms) next f)
    (hf : f.LiesIn g next) (hd : d ∈ ds) :
    c.Refuses n a site d ∨
      ∃ k b, n = k + 1 ∧ c.Enters t a site d b ∧ c.Grown t g k b ∧ (d, b.scope.id) ∈ arms := by
  generalize hw : Work.attempts site ds arms = w at h
  induction h generalizing ds arms with
  | tried =>
    cases hw
    cases hd
  | refused _ hrefuses _ ih =>
    cases hw
    rcases List.mem_cons.1 hd with rfl | hd
    · exact .inl hrefuses
    · exact ih hf.right hd rfl
  -- The class is the one that is entered, or one of those tried after it.
  | enter henter hexp _ _ _ ih' =>
    cases hw
    rcases List.mem_cons.1 hd with rfl | hd
    · exact .inr ⟨_, _, rfl, henter, ⟨_, hexp, hf.left⟩, List.mem_cons_self⟩
    · rcases ih' hf.right hd rfl with hrefuses | ⟨k, b, hn, hb, hgrown, hmem⟩
      · exact .inl hrefuses
      · exact .inr ⟨k, b, hn, hb, hgrown, List.mem_cons_of_mem _ hmem⟩
  | sent | send => cases hw

/-- Every send of a scope of a graph is there. As long as a level is left, each
    callee that was tried is rejected by a decision, or inlined. -/
theorem Grown.tried (h : c.Grown t g n a) (hm : c.classes.method? a.scope.method = some m)
    (hsite : site ∈ m.sends) :
    ∃ r, ⟨a.scope.id, site.bci, site.selector, r⟩ ∈ g.sends ∧ c.Decided t a.scope site r ∧
      ∀ d ∈ c.receivers t a.scope site, ∀ e m' k, c.calleeAt? a.scope site d = some e →
        c.classes.method? e.method = some m' → n = k + 1 →
        (∃ why, c.decideAt a site e m' = .ok (.rejected why)) ∨
          ∃ b, c.Enters t a site d b ∧ c.Grown t g k b ∧ (d, b.scope.id) ∈ r.arms := by
  obtain ⟨f, hexp, hf⟩ := h
  obtain ⟨rest, rfl, hgrows⟩ := expand_grows n a f hexp
  obtain ⟨o, f', arms, hf', hgrows', hmem⟩ :=
    hgrows.exists_send hf.tail (mem_sendsOf.2 ⟨m, hm, hsite⟩)
  refine ⟨_, hmem, c.decided_settle t a.scope site arms, fun d hd e m' k he hm' hn => ?_⟩
  rcases hgrows'.refuses_or_enters hf' hd with hrefuses | ⟨k', b, hn', hb, hgrown, harm⟩
  · exact .inl (hrefuses e m' k he hm' hn)
  · obtain rfl : k = k' := by omega
    exact .inr ⟨b, hb, hgrown, by rwa [settle_arms hgrows'.arms.1]⟩

/-! ## Graphs -/

/-- The caller that a compilation starts with. -/
def rootCaller (t : FeedbackTree) (key : LookupKey) (m : Method) : Caller :=
  ⟨rootScope t key m, [(m.id, key.cls)]⟩

section Graph

variable {key : LookupKey} {method : MethodId} {level : Nat} {stats : InliningStats}
  (h : c.graph t key method level = .ok (g, stats))
include h

/-- A graph is what the root gives. -/
theorem graph_ok : ∃ m part, c.classes.method? method = some m ∧
    c.expand t c.settings.inlining.maxDepth.toNat (rootCaller t key m) = .ok part ∧
    part.scopes = g.scopes ∧ part.sends = g.sends ∧ part.stats = stats := by
  obtain ⟨-, -, -, m, hm, -⟩ := graph_expanded h
  rw [graph, ClassTable.method, hm] at h
  obtain ⟨m', hm', h⟩ := exists_ok_of_bind h
  obtain rfl := Except.ok.inj hm'
  obtain ⟨part, hpart, h⟩ := exists_ok_of_bind h
  obtain ⟨rfl, rfl⟩ := Prod.mk.inj (Except.ok.inj h)
  exact ⟨m, part, hm, hpart, rfl, rfl, rfl⟩

/-- The scopes of a graph are numbered by their places, and come after their senders. -/
theorem graph_ordered : Ordered g.scopes := by
  obtain ⟨m, part, hm, hexp, hscopes, -⟩ := graph_ok h
  obtain ⟨-, -, -, m', -, hexpanded⟩ := graph_expanded h
  refine ⟨fun i k hk => (hexpanded.numbered i k hk).trans (Nat.zero_add i),
    fun i k o bci hk hs => ?_⟩
  obtain ⟨rest, rfl, hgrows⟩ := expand_grows _ _ _ hexp
  rw [← hscopes] at hk
  rcases i with _ | i
  · obtain rfl := Option.some.inj hk
    cases hs
  · have hlt : o < 0 + 1 + i := hgrows.sender_lt (Nat.lt_succ_self _) hk hs
    lia

/-- The scopes and sends of a graph are those of callers that are reached from the
    root, each along the path of its scope. -/
theorem graph_reached : ∃ m, c.classes.method? method = some m ∧
    c.Grown t g c.settings.inlining.maxDepth.toNat (rootCaller t key m) ∧
    (∀ (o : Offset) k, g.scopes[o]? = some k → ∃ n trail,
      c.Reached t g c.settings.inlining.maxDepth.toNat (rootCaller t key m)
        (g.path o) n ⟨k, trail⟩) ∧
    ∀ x ∈ g.sends, ∃ n a site,
      c.Reached t g c.settings.inlining.maxDepth.toNat (rootCaller t key m) (g.path x.scope) n a ∧
        c.Answers t g a site x := by
  obtain ⟨m, part, hm, hexp, hscopes, hsends, -⟩ := graph_ok h
  have hg := graph_ordered h
  have hpart : part.LiesIn g 0 := ⟨hscopes ▸ Within.self part.scopes, fun x hx => hsends ▸ hx⟩
  have hgrown : c.Grown t g c.settings.inlining.maxDepth.toNat (rootCaller t key m) :=
    ⟨part, hexp, hpart⟩
  have hroot : c.Reached t g c.settings.inlining.maxDepth.toNat (rootCaller t key m)
      (g.path (rootCaller t key m).scope.id) c.settings.inlining.maxDepth.toNat
      (rootCaller t key m) := by
    rw [hg.path_root hgrown.scope rfl]
    exact .root hgrown
  obtain ⟨rest, rfl, hgrows⟩ := expand_grows _ _ _ hexp
  refine ⟨m, hm, hgrown, fun o k hk => ?_, fun x hx => ?_⟩
  · rw [← hscopes] at hk
    rcases o with _ | o
    · obtain rfl := Option.some.inj hk
      exact ⟨_, _, hroot⟩
    · have hreached := hgrows.reached hg hpart.tail hroot hk
      rwa [Nat.add_right_comm, show (rootCaller t key m).scope.id + o + 1 = o +
        1 by simp [rootCaller, rootScope]] at hreached
  · exact hgrows.answers hg hpart.tail hroot (hsends ▸ hx)

/-- Every send of a graph is one of its scope, and settled there. -/
theorem graph_settled {x : SendNode} (hx : x ∈ g.sends) : ∃ s m site, g.scopes[x.scope]? = some s ∧
    c.classes.method? s.method = some m ∧ site ∈ m.sends ∧ x.bci = site.bci ∧
      x.selector = site.selector ∧
    c.IsSettled t s site x.resolution := by
  obtain ⟨m₀, -, -, -, hsends⟩ := graph_reached h
  obtain ⟨n, a, site, hreached, hanswers⟩ := hsends x hx
  obtain ⟨m, hm, hsite⟩ := hanswers.sends
  exact ⟨a.scope, m, site, hanswers.scope ▸ hreached.grown.scope, hm, hsite,
    hanswers.bci, hanswers.selector, hanswers.settled⟩

/-- Positions tell sends apart, so it is the send of the scope at its position. -/
theorem graph_settled_at (hw : c.classes.WellFormed) {x : SendNode} {s : CompileScope}
    (hx : x ∈ g.sends) (hs : g.scopes[x.scope]? = some s) (hm : c.classes.method? s.method = some m)
    (hsite : site ∈ m.sends) (hbci : x.bci = site.bci) :
    x.selector = site.selector ∧ c.IsSettled t s site x.resolution := by
  obtain ⟨s', m', site', hs', hm', hsite', hbci', hselector, hsettled⟩ := graph_settled h hx
  obtain rfl := Option.some.inj (hs.symm.trans hs')
  obtain rfl := Option.some.inj (hm.symm.trans hm')
  have hsame := hw.sendAt? hm hsite'
  rw [← hbci', hbci, hw.sendAt? hm hsite] at hsame
  obtain rfl := Option.some.inj hsame
  exact ⟨hselector, hsettled⟩

/-- No two scopes of a graph hang at the same send under the same key. -/
theorem graph_nodup (hw : c.classes.WellFormed) :
    (g.scopes.map fun k => (k.sender, k.key)).Nodup := by
  obtain ⟨m, part, -, hexp, hscopes, -⟩ := graph_ok h
  obtain ⟨rest, rfl, hgrows⟩ := expand_grows _ _ _ hexp
  rw [← hscopes]
  refine List.nodup_cons.2
    ⟨fun hmem => ?_, hgrows.nodup hw (Nat.lt_succ_self _) (nodup_offers hw t _)⟩
  obtain ⟨k, hk, heq⟩ := List.mem_map.1 hmem
  have hnone : k.sender = none := congrArg Prod.fst heq
  rcases hgrows.hangAt k hk with ⟨bci, hs, -⟩ | ⟨o, bci, hs, -⟩
  · simp [hnone] at hs
  · simp [hnone] at hs

end Graph

end Compiler

end Warmup
