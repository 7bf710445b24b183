import Warmup.Proofs.Attempts

/-!
# What is inlined

A send graph is put together from parts, each numbered on from the part before
it. So the sends of a part speak of scopes that only the whole graph has: what
holds of a part (`Compiler.Part`) is said of all lists of scopes that have the
part in its place (`Within`).

* `Compiler.Hangs`: a scope is that of a callee of another scope;
* `Compiler.Settled`: what becomes of a send is right;
* `Grows.part`: all of this holds of the part that some work in a caller gives;
* `graph_runs`: every callee that is inlined is the one that the send would run.
-/

namespace Warmup

/-- The scopes `l` are those of `all` from the offset `next` on. -/
def Within (l : List CompileScope) (next : Offset) (all : List CompileScope) : Prop :=
  ∀ i k, l[i]? = some k → all[next + i]? = some k

theorem Within.left {a b all : List CompileScope} {next : Offset} (h : Within (a ++ b) next all) :
    Within a next all := by
  intro i k hk
  have hi : i < a.length := (List.getElem?_eq_some_iff.1 hk).1
  exact h i k (by rw [List.getElem?_append_left hi, hk])

theorem Within.right {a b all : List CompileScope} {next : Offset} (h : Within (a ++ b) next all) :
    Within b (next + a.length) all := by
  intro i k hk
  rw [Nat.add_assoc]
  exact h _ k
    (by rw [List.getElem?_append_right (Nat.le_add_right ..), Nat.add_sub_cancel_left, hk])

theorem Within.self (l : List CompileScope) : Within l 0 l := by
  intro i k hk
  rwa [Nat.zero_add]

namespace Compiler

variable (c : Compiler) (t : FeedbackTree)

/-- The scope `k` is that of a callee of another scope. -/
def Hangs (all : List CompileScope) (k : CompileScope) : Prop :=
  ∃ s m site d, all[s.id]? = some s ∧ c.classes.method? s.method = some m ∧
    site ∈ m.sends ∧ c.Inlines t s site d k

/-- What becomes of a send of a scope is right, if `all` are the scopes. -/
structure Resolves (all : List CompileScope) (s : CompileScope) (site : SendSite) (r : Resolution) :
    Prop where
  /-- The callees are those that the send runs. -/
  arms : ∀ a ∈ r.arms, ∃ k, all[a.2]? = some k ∧ c.Inlines t s site a.1 k
  /-- There is one callee for a class. -/
  distinct : (r.arms.map (·.1)).Nodup
  /-- The callee takes the place of the send only if the class is known. -/
  known : ∀ d o, r = .inlined d o → (staticClass? s site).isSome
  /-- A class that is known is the only one. -/
  static : ∀ a ∈ r.arms, ∀ d, staticClass? s site = some d → a.1 = d
  /-- A send that is left looks up the receiver's class or a superclass. -/
  anchored : ∀ q, r.send? = some q → c.classes.Anchors q.lookupClass

/-- A send is one of its scope, and what becomes of it is right. -/
def Settled (all : List CompileScope) (n : SendNode) : Prop :=
  ∃ s m site, all[n.scope]? = some s ∧ s.id = n.scope ∧ c.classes.method? s.method = some m ∧
    site ∈ m.sends ∧
    site.bci = n.bci ∧ site.selector = n.selector ∧ c.Resolves t all s site n.resolution

/-! ## Parts -/

/-- A part of the graph that the sends of a scope `s` give, from the offset
    `next` on. -/
structure Part (s : CompileScope) (next : Offset) (f : Fragment) : Prop where
  numbered : ∀ i k, f.scopes[i]? = some k → k.id = next + i
  hangs : ∀ all, Within f.scopes next all → all[s.id]? = some s → ∀ k ∈ f.scopes, c.Hangs t all k
  settled : ∀ all, Within f.scopes next all → all[s.id]? = some s → ∀ n ∈ f.sends, c.Settled t all n

/-- The part of the graph that a scope gives: the scope itself, and all that its
    sends give. -/
structure Expanded (s : CompileScope) (f : Fragment) : Prop where
  head : f.scopes.head? = some s
  numbered : ∀ i k, f.scopes[i]? = some k → k.id = s.id + i
  hangs : ∀ all, Within f.scopes s.id all → ∀ k ∈ f.scopes.tail, c.Hangs t all k
  settled : ∀ all, Within f.scopes s.id all → ∀ n ∈ f.sends, c.Settled t all n

variable {c t} {s : CompileScope} {m : Method} {site : SendSite} {next : Offset} {f g : Fragment}

theorem Part.empty (stats : InliningStats) : c.Part t s next { stats := stats } where
  numbered i k h := by simp at h
  hangs _ _ _ k h := by cases h
  settled _ _ _ n h := by cases h

/-- Two parts of one scope make a part, if the second is numbered on from the first. -/
theorem Part.append (hf : c.Part t s next f) (hg : c.Part t s (next + f.scopes.length) g) :
    c.Part t s next (f.append g) where
  numbered i k h := by
    rcases getElem?_append_cases h with ⟨-, hk⟩ | ⟨j, rfl, hk⟩
    · exact hf.numbered i k hk
    · rw [hg.numbered j k hk, Nat.add_assoc]
  hangs all hall hs k hk := (List.mem_append.1 hk).elim
    (hf.hangs all hall.left hs k) (hg.hangs all hall.right hs k)
  settled all hall hs n hn := (List.mem_append.1 hn).elim
    (hf.settled all hall.left hs n) (hg.settled all hall.right hs n)

/-- A send that is settled right is a part. -/
theorem Part.ofSend {r : Resolution} (hsite : site ∈ c.sendsOf s)
    (hr : ∀ all, Within f.scopes next all → c.Resolves t all s site r) (hf : c.Part t s next f) :
    c.Part t s next ((f.count r.stats).append (.ofSend s site r)) where
  numbered i k h := hf.numbered i k (by simpa using h)
  hangs all hall hs k hk := by
    simp only [Fragment.scopes_append, Fragment.scopes_count, Fragment.scopes_ofSend,
      List.append_nil] at hall hk
    exact hf.hangs all hall hs k hk
  settled all hall hs n hn := by
    simp only [Fragment.scopes_append, Fragment.scopes_count, Fragment.scopes_ofSend,
      List.append_nil] at hall
    -- The sends below were settled before. The new one is settled by the arms that stand in the
    -- graph.
    rcases List.mem_append.1 hn with hn | hn
    · exact hf.settled all hall hs n hn
    · obtain rfl := List.mem_singleton.1 hn
      obtain ⟨m, hm, hsite⟩ := mem_sendsOf.1 hsite
      exact ⟨s, m, site, hs, rfl, hm, hsite, rfl, rfl, hr all hall⟩

/-- A scope before what its sends give. -/
theorem Part.expanded (h : c.Part t s (s.id + 1) f) : c.Expanded t s (f.headed s) where
  head := rfl
  numbered i k hk := by
    cases i with
    | zero => exact (Option.some.inj hk) ▸ rfl
    | succ i => rw [h.numbered i k hk, Nat.add_assoc, Nat.add_comm 1]
  hangs all hall := h.hangs all (Within.right (a := [s]) hall) (hall 0 _ rfl)
  settled all hall := h.settled all (Within.right (a := [s]) hall) (hall 0 _ rfl)

/-- What a scope gives is a part of what its sender's sends give. -/
theorem Expanded.part {k : CompileScope} (h : c.Expanded t k f) (hsite : site ∈ c.sendsOf s)
    {d : ClassId} (hk : c.Inlines t s site d k) : c.Part t s k.id f where
  numbered := h.numbered
  hangs all hall hs x hx := by
    obtain ⟨l, hl⟩ : ∃ l, f.scopes = k :: l := List.head?_eq_some_iff.1 h.head
    rw [hl] at hx
    rcases List.mem_cons.1 hx with rfl | hx
    · obtain ⟨m, hm, hsite⟩ := mem_sendsOf.1 hsite
      exact ⟨s, m, site, d, hs, hm, hsite, hk⟩
    · exact h.hangs all hall x (by rwa [hl])
  settled all hall _ := h.settled all hall

/-! ## Resolutions -/

/-- A super send starts above a class that is there. -/
theorem anchors_superClass? (c : Compiler) (s : CompileScope) :
    c.classes.Anchors (c.superClass? s) := by
  intro d hd
  obtain ⟨m, -, hd⟩ := Option.bind_eq_some_iff.1 hd
  exact ⟨m.holder, hd⟩

/-- What the callees that were inlined make of a send is right. -/
theorem resolves_settle {all : List CompileScope} {arms : List (ClassId × Offset)}
    (hsub : (arms.map (·.1)).Sublist (c.receivers t s site))
    (harms : ∀ x ∈ arms, ∃ k, all[x.2]? = some k ∧ c.Inlines t s site x.1 k) :
    c.Resolves t all s site (c.settle t s site arms) where
  arms := by rwa [settle_arms hsub]
  distinct := by
    rw [settle_arms hsub]
    exact (c.nodup_receivers t s site).sublist hsub
  -- Only where a class is known there is an inlined callee without test.
  known d o hr := by
    by_contra hnone
    have hcase := (c.decided_settle t s site arms).dynamic (by simpa using hnone) (d, o)
    simp [hr, Resolution.arms, Resolution.isTypeCase] at hcase
  static x hx d hd := by
    rw [settle_arms hsub] at hx
    have hmem := hsub.subset (List.mem_map_of_mem hx)
    rw [receivers_of_static hd] at hmem
    exact List.mem_singleton.1 hmem
  anchored q hq := by
    rcases settle_send_cases hq with ⟨-, rfl⟩ | ⟨-, _, _, _, rfl⟩
    · exact c.anchors_superClass? s
    · exact ClassTable.anchors_none

/-- All that some work in a caller gives is right, wherever it stands in a graph. -/
theorem Grows.part {n : Nat} {a : Caller} {w : Work} (h : c.Grows t n a w next f) :
    c.Part t a.scope next f := by
  induction h with
  | tried => exact .empty {}
  | refused why _ _ ih => exact (Part.empty _).append ih
  | enter henter _ _ _ ihf ihf' =>
    exact (ihf.expanded.part (mem_sendsOf.2 henter.sends) henter.inlines).append ihf'
  | sent => exact .empty {}
  | @send n a site sites arms next f f' hsite hf _ ihf ihf' =>
    obtain ⟨hsub, harms⟩ := hf.arms
    rw [← Fragment.append_assoc]
    refine (ihf.ofSend hsite fun all hall => resolves_settle hsub fun x hx => ?_).append ?_
    · obtain ⟨i, b, hb, hi, henter⟩ := harms x hx
      exact ⟨b.scope, hi ▸ hall i _ hb, henter.inlines⟩
    · -- The send itself has no scopes, so the rest starts where its part ends.
      simpa using ihf'

/-- The scopes and sends of a graph are those that its root gives. -/
theorem graph_expanded {key : LookupKey} {method : MethodId} {level : Nat} {g : SendGraph}
    {stats : InliningStats} (h : c.graph t key method level = .ok (g, stats)) :
    g.key = key ∧ g.method = method ∧ g.level = level ∧ ∃ m, c.classes.method? method = some m ∧
      c.Expanded t (rootScope t key m) { scopes := g.scopes, sends := g.sends } := by
  rw [graph] at h
  obtain ⟨m, hm, h⟩ := exists_ok_of_bind h
  obtain ⟨part, hpart, h⟩ := exists_ok_of_bind h
  cases h
  obtain ⟨rest, rfl, hgrows⟩ := expand_grows _ _ _ hpart
  have hexp := hgrows.part.expanded
  refine ⟨rfl, rfl, rfl, m, ?_, hexp.head, hexp.numbered, hexp.hangs, hexp.settled⟩
  rw [ClassTable.method] at hm
  split at hm
  · next e he =>
    cases hm
    exact he
  · cases hm

end Compiler

/-! ## Inlining and dispatch -/

/-- What a send of a scope that runs `m` does when it is not inlined: it runs the
    method of `k`, and `k` has the class of the receiver there. -/
def ClassTable.Runs (t : ClassTable) (s : CompileScope) (m : Method) (site : SendSite) (d : ClassId)
    (k : CompileScope) : Prop :=
  if site.isSuper then
    d = s.receiver ∧ t.superLookup m.holder site.selector = some k.method ∧ k.receiver = s.receiver
  else
    match s.value site.receiver, t.isBlockInvocation site.selector with
    | .block b outer, true => d = .blockClosure ∧ k.method = b ∧ k.receiver = outer
    | _, _ => t.lookup d site.selector = some k.method ∧ k.receiver = d

namespace Compiler

variable {c : Compiler} {t : FeedbackTree} {s k : CompileScope} {m : Method} {site : SendSite}
  {d : ClassId}

/-- A super send runs what the superclass of its method's class answers, for the same receiver. -/
theorem superCallee?_eq (hm : c.classes.method? s.method = some m) :
    c.superCallee? s site = (c.classes.superLookup m.holder site.selector).map fun target =>
      ⟨.given s.receiver target, target, s.receiver⟩ := by
  simp only [superCallee?, hm, Option.bind_eq_bind, Option.bind_some]
  cases c.classes.superLookup m.holder site.selector <;> rfl

/-- The callee is a block that is called, or what the lookup finds. -/
theorem callee?_cases {v : KnownValue} {e : Callee} (h : c.callee? d v site = some e) :
    (∃ b outer, v = .block b outer ∧ c.classes.isBlockInvocation site.selector = true ∧
      e = ⟨.given d b, b, outer⟩) ∨
      (∀ b outer, v = .block b outer → c.classes.isBlockInvocation site.selector = false) ∧
        ∃ target, c.classes.lookup d site.selector = some target ∧
          e = ⟨.send d site.selector, target, d⟩ := by
  unfold callee? at h
  split at h
  · next b outer hinv =>
    cases h
    exact .inl ⟨b, outer, rfl, hinv, rfl⟩
  · next hne =>
    obtain ⟨target, htarget, rfl⟩ := Option.map_eq_some_iff.1 h
    refine .inr ⟨fun b outer hv => ?_, target, htarget, rfl⟩
    exact Bool.eq_false_iff.2 (hne b outer hv)

namespace Inlines

/-- The scope of a callee has what the send knows about it. -/
theorem callee (h : c.Inlines t s site d k) : ∃ e, c.calleeAt? s site d = some e ∧ k.key = e.key ∧
    k.method = e.method ∧ k.receiver = e.receiver := by
  obtain ⟨e, m, builtin, he, -, hk⟩ := h
  refine ⟨e, he, ?_, ?_, ?_⟩ <;>
    · rw [hk]
      rfl

/-- A callee gets the values that are passed at its send. -/
theorem args (h : c.Inlines t s site d k) : k.args = site.args.map s.value := by
  obtain ⟨e, m, builtin, -, -, hk⟩ := h
  rw [hk]
  rfl

/-- What is inlined at a super send is found above the class of the method. -/
theorem superLookup (h : c.Inlines t s site d k) (hm : c.classes.method? s.method = some m)
    (hsuper : site.isSuper) :
    c.classes.superLookup m.holder site.selector = some k.method ∧ k.receiver = s.receiver := by
  obtain ⟨e, he, -, hmethod, hreceiver⟩ := h.callee
  rw [calleeAt?, if_pos hsuper, superCallee?_eq hm] at he
  obtain ⟨target, htarget, rfl⟩ := Option.map_eq_some_iff.1 he
  exact ⟨htarget.trans (congrArg some hmethod.symm), hreceiver⟩

/-- What is inlined is what the send would run for its receiver. -/
theorem runs (h : c.Inlines t s site d k) (hm : c.classes.method? s.method = some m)
    (hstatic : ∀ e, staticClass? s site = some e → d = e) : c.classes.Runs s m site d k := by
  rw [ClassTable.Runs]
  split
  · next hsuper => exact ⟨hstatic _ (by rw [staticClass?, if_pos hsuper]), h.superLookup hm hsuper⟩
  · next hsuper =>
    obtain ⟨e, he, -, hmethod, hreceiver⟩ := h.callee
    rw [calleeAt?, if_neg hsuper] at he
    rw [hmethod, hreceiver]
    -- The callee is chosen by the same two questions as what is run.
    rcases callee?_cases he with ⟨b, outer, hv, hinv, rfl⟩ | ⟨hne, target, htarget, rfl⟩
    · have hclass : d = .blockClosure := hstatic _ (by rw [staticClass?, if_neg hsuper, hv])
      simp only [hv, hinv]
      exact ⟨hclass, trivial, trivial⟩
    · cases hv : s.value site.receiver with
      | block b outer =>
        simp only [hne b outer hv]
        exact ⟨htarget, trivial⟩
      | cls d' => exact ⟨htarget, rfl⟩
      | unknown => exact ⟨htarget, rfl⟩

end Inlines

/-- Every callee that is inlined, by itself or in a type case, hangs at the send
    that it was inlined at, gets what the send passes, and is the one that the
    send would run. A type case has one callee for a class, and a callee takes
    the place of a send only if the receiver's class is known. -/
theorem graph_runs (c : Compiler) (t : FeedbackTree) (key : LookupKey) (method : MethodId)
    (level : Nat) {g : SendGraph} {stats : InliningStats}
    (h : c.graph t key method level = .ok (g, stats)) :
    ∀ n ∈ g.sends, ∃ s m site, g.scopes[n.scope]? = some s ∧ c.classes.method? s.method = some m ∧
      site ∈ m.sends ∧ site.bci = n.bci ∧ site.selector = n.selector ∧
      (∀ a ∈ n.resolution.arms, ∃ k, g.scopes[a.2]? = some k ∧ k.id = a.2 ∧
        k.sender = some (n.scope, n.bci) ∧
        k.args = site.args.map s.value ∧ c.classes.Runs s m site a.1 k) ∧
      (n.resolution.arms.map (·.1)).Nodup ∧
      ∀ d o, n.resolution = .inlined d o → staticClass? s site = some d := by
  intro n hn
  obtain ⟨-, -, -, root, -, hexp⟩ := graph_expanded h
  have hall : Within g.scopes 0 g.scopes := Within.self g.scopes
  obtain ⟨s, m, site, hs, hid, hm, hsite, hbci, hsel, hr⟩ := hexp.settled g.scopes hall n hn
  refine ⟨s, m, site, hs, hm, hsite, hbci, hsel, fun a ha => ?_, hr.distinct, fun d o hn => ?_⟩
  · -- The scope of an arm is the callee that was looked up for its class.
    obtain ⟨k, hk, hin⟩ := hr.arms a ha
    have hkid : k.id = a.2 := (hexp.numbered a.2 k hk).trans (Nat.zero_add _)
    refine ⟨k, hk, hkid, ?_, hin.args, hin.runs hm (hr.static a ha)⟩
    rw [hin.sender, hid, hbci]
  · obtain ⟨e, he⟩ := Option.isSome_iff_exists.1 (hr.known d o hn)
    have hd : d = e := hr.static (d, o) (by simp [hn, Resolution.arms]) e he
    rw [he, hd]

/-- A class with a method, and one below it whose method for the same selector is
    a super send. -/
def superSender : Compiler where
  settings := {}
  classes := {
    classes := ClassTable.initial.classes ++
      [⟨"Shape", some ⟨0⟩, [(⟨0⟩, ⟨0⟩)]⟩, ⟨"Square", some ⟨9⟩, [(⟨0⟩, ⟨1⟩)]⟩]
    methods := [
      Draft.finish { selector := ⟨0⟩, steps := [.work 1] } ⟨0⟩ ⟨9⟩ none,
      Draft.finish { selector := ⟨0⟩, steps := [.superSend ⟨0⟩ []] } ⟨1⟩ ⟨10⟩ none]
    selectors := ["area"] }
  code := {}
  traps := {}

/-- The method above is inlined at the super send. -/
theorem graph_runs_superSender :
    ∃ g stats, superSender.graph .null (.send ⟨10⟩ ⟨0⟩) ⟨1⟩ 1 = .ok (g, stats) ∧
    ∃ n s m site k, g.sends = [n] ∧ n.resolution.arms = [(⟨10⟩, 1)] ∧ g.scopes[n.scope]? = some s ∧
      superSender.classes.method? s.method = some m ∧ g.scopes[1]? = some k ∧
        k.sender = some (n.scope, n.bci) ∧
      superSender.classes.Runs s m site ⟨10⟩ k := by
  refine ⟨_, _, rfl, ?_⟩
  obtain ⟨s, m, site, hs, hm, -, -, -, harms, -⟩ :=
    graph_runs superSender .null (.send ⟨10⟩ ⟨0⟩) ⟨1⟩ 1 rfl _ (List.mem_singleton.2 rfl)
  obtain ⟨k, hk, -, hsender, -, hruns⟩ := harms (⟨10⟩, 1) (List.mem_singleton.2 rfl)
  exact ⟨_, s, m, site, k, rfl, rfl, hs, hm, hk, hsender, hruns⟩

end Compiler

end Warmup
