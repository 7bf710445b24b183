import Warmup.Proofs.Expansion

/-!
# Decisions

While a graph grows, nothing can go wrong but the decisions on callees, which compute with costs and
limits. This module says so for any cause `P` of an overflow (`Yields`): if every decision that is
made has a result or fails for the cause, so does the whole compilation.

* `Compiler.Tries`: a decision that is made in a caller;
* `Compiler.Led`: the callers that decisions lead to from the root, wherever they would stand in a
  graph;
* `yields_expand`, `yields_graph`: the compilation has a result, or fails for the cause.
-/

namespace Warmup

/-- A computation has a result, or a number does not fit its word and there is a cause for it. -/
def Yields {α : Type} (P : Prop) (x : Except Fault α) : Prop :=
  (∃ a, x = .ok a) ∨ x = .error .overflow ∧ P

namespace Yields

variable {α β : Type} {P : Prop}

theorem ok (a : α) : Yields P (.ok a) := .inl ⟨a, rfl⟩

/-- Steps that can only fail for the cause can only fail for it together. -/
theorem bind {x : Except Fault α} {f : α → Except Fault β} (hx : Yields P x)
    (hf : ∀ a, x = .ok a → Yields P (f a)) :
    Yields P (x >>= f) := by
  rcases hx with ⟨a, rfl⟩ | ⟨rfl, hP⟩
  · exact hf a rfl
  · exact .inr ⟨rfl, hP⟩

theorem map {x : Except Fault α} (hx : Yields P x) (f : α → β) : Yields P (x.map f) := by
  rcases hx with ⟨a, rfl⟩ | ⟨rfl, hP⟩
  · exact .ok (f a)
  · exact .inr ⟨rfl, hP⟩

end Yields

namespace Compiler

variable (c : Compiler) (t : FeedbackTree)

/-- In the caller, a callee with a method is decided on for a receiver class. -/
structure Tries (a : Caller) (site : SendSite) (d : ClassId) (e : Callee) (m : Method) : Prop where
  sends : ∃ caller, c.classes.method? a.scope.method = some caller ∧ site ∈ caller.sends
  receiver : d ∈ c.receivers t a.scope site
  callee : c.calleeAt? a.scope site d = some e
  method : c.classes.method? e.method = some m

/-- The callers that inlining leads to from `r`, with the levels that are left there. -/
inductive Led (levels : Nat) (r : Caller) : Nat → Caller → Prop
  | root : Led levels r levels r
  | enter {n a site d b} : Led levels r (n + 1) a → c.Enters t a site d b → Led levels r n b

variable {c t} {P : Prop} {n : Nat} {a b : Caller} {site : SendSite} {d : ClassId} {m : Method}

/-- What a callee leads to, its caller leads to. -/
theorem Led.of_enters (hb : c.Enters t a site d b) {k : Nat} {x : Caller} (h : c.Led t n b k x) :
    c.Led t (n + 1) a k x := by
  induction h with
  | root => exact .enter .root hb
  | enter _ henter ih => exact ih.enter henter

section Expansion

variable {deeper : Deeper} {next : Offset} {caller : Method}
  (hdecide : ∀ expand, deeper = some expand → ∀ site d e m, c.Tries t a site d e m →
    Yields P (c.decideAt a site e m))
  (hdeeper : ∀ expand, deeper = some expand → ∀ site d b, c.Enters t a site d b →
    Yields P (expand b)) (hcaller : c.classes.method? a.scope.method = some caller)
  (hsite : site ∈ caller.sends)
include hdecide hdeeper hcaller hsite

/-- An attempt has a result, or its decision fails, or what it leads to does. -/
theorem yields_inline (hd : d ∈ c.receivers t a.scope site) :
    Yields P (c.inline t deeper a site (c.calleeAt? a.scope site d) next) := by
  rw [inline]
  split
  · exact .ok _
  · next e m he =>
    obtain ⟨e', hcallee, he⟩ := Option.bind_eq_some_iff.1 he
    obtain ⟨m', hm, he⟩ := Option.map_eq_some_iff.1 he
    obtain ⟨rfl, rfl⟩ := Prod.mk.inj he
    split
    · exact .ok _
    · next expand =>
      refine (hdecide expand rfl site d e' m' ⟨⟨caller, hcaller, hsite⟩, hd, hcallee, hm⟩).bind
        fun decision hok => ?_
      cases decision with
      | rejected why => exact .ok _
      | allowed builtin =>
        refine (hdeeper expand rfl site d _ ?_).bind fun _ _ => .ok _
        exact ⟨⟨caller, hcaller, hsite⟩, hd, e', m', builtin, hcallee, hm, hok, rfl⟩

/-- Attempts for classes that are tried have a result, or fail for the cause. -/
theorem yields_attempts {ds : List ClassId} (hds : ∀ d ∈ ds, d ∈ c.receivers t a.scope site) :
    Yields P (c.attempts t deeper a site ds next) := by
  induction ds generalizing next with
  | nil => exact .ok _
  | cons d ds ih =>
    rw [attempts]
    exact (yields_inline hdecide hdeeper hcaller hsite (hds d List.mem_cons_self)).bind fun _ _ =>
      (ih fun x hx => hds x (List.mem_cons_of_mem d hx)).bind fun _ _ => .ok _

/-- A send is resolved, or fails for the cause. -/
theorem yields_resolve : Yields P (c.resolve t deeper a site next) := by
  rw [resolve_eq]
  exact (yields_attempts hdecide hdeeper hcaller hsite fun _ hd => hd).map _

omit hsite in
/-- The sends of a method are resolved one after another, until one fails. -/
theorem yields_expandSends {sites : List SendSite} (hsites : ∀ site ∈ sites, site ∈ caller.sends) :
    Yields P (c.expandSends t deeper a sites next) := by
  induction sites generalizing next with
  | nil => exact .ok _
  | cons site sites ih =>
    rw [expandSends]
    exact (yields_resolve hdecide hdeeper hcaller (hsites site List.mem_cons_self)).bind fun _ _ =>
      (ih fun x hx => hsites x (List.mem_cons_of_mem site hx)).bind fun _ _ => .ok _

omit hcaller hsite in
/-- A scope is expanded, or fails for the cause. -/
theorem yields_expandWith : Yields P (c.expandWith t deeper a) := by
  rw [expandWith]
  refine Yields.bind ?_ fun _ _ => .ok _
  rcases hcaller : c.classes.method? a.scope.method with _ | caller
  · exact .ok _
  · exact yields_expandSends hdecide hdeeper hcaller fun _ hs => hs

end Expansion

/-- What a caller gives is there if all decisions in the callers that it leads to are made. -/
theorem yields_expand (hdecide : ∀ k b site d e m, c.Led t n a (k + 1) b → c.Tries t b site d e m →
    Yields P (c.decideAt b site e m)) : Yields P (c.expand t n a) := by
  induction n generalizing a with
  | zero => exact yields_expandWith (by rintro _ ⟨⟩) (by rintro _ ⟨⟩)
  | succ n ih =>
    refine yields_expandWith (fun _ _ site d e m => hdecide n a site d e m .root)
      fun expand hexpand site d b hb => ?_
    obtain rfl := Option.some.inj hexpand
    exact ih fun k x site d e m hled => hdecide k x site d e m (hled.of_enters hb)

/-- There is a graph, or a decision that the root leads to fails for the cause. -/
theorem yields_graph (t : FeedbackTree) (key : LookupKey) {method : MethodId}
    (hm : c.classes.method? method = some m) (level : Nat)
    (hdecide : ∀ k b site d e m',
      c.Led t c.settings.inlining.maxDepth.toNat (rootCaller t key m) (k + 1) b →
      c.Tries t b site d e m' → Yields P (c.decideAt b site e m')) :
    Yields P (c.graph t key method level) := by
  rw [graph, ClassTable.method, hm]
  exact (yields_expand hdecide).bind fun _ _ => .ok _

end Compiler

end Warmup
