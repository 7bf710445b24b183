import Mathlib.Data.List.Basic
import Mathlib.Tactic.Common
import Warmup.Proofs.Basic
import Warmup.Proofs.Cascade

/-!
# Replacing contexts and activations

A deoptimization replaces contexts one by one, and then activations one by one,
each of them by one or several others. This module says what comes of all steps
together.

* `renews_replaceContexts`: every context gets a fresh one in its place, all
  others stay (`ProcessTable.Renews`);
* `replaceFrames_eq_done_iff`: if activations are replaced from the newest on,
  those to come are still where they were, so every stack becomes the stack with
  each activation replaced in its place (`ProcessTable.spread`). It fails only if
  an activation has no replacement;
* `replaceFrames_of_error`: what is replaced before such an activation is met.
-/

namespace Warmup

namespace ProcessTable

variable {t u : ProcessTable} {c : ContextId} {cs : List ContextId}

/-! ## Contexts -/

/-- In `u` the contexts `cs` of `t` are invalid, and `fresh` says which fresh ones
    are in their places. -/
structure Renews (t u : ProcessTable) (cs : List ContextId) (fresh : ContextId → ContextId) :
    Prop where
  invalid : ∀ c ∈ cs, ∀ e, t.context? c = some e → u.context? c = some { e with valid := false }
  /-- A fresh context has the same creator, and the interpreter can use it. -/
  renewed : ∀ c ∈ cs, ∀ e, t.context? c = some e →
    t.context? (fresh c) = none ∧ u.context? (fresh c) = some ⟨e.creator, false, true⟩
  injective : ∀ c ∈ cs, ∀ c' ∈ cs, fresh c = fresh c' → c = c'
  kept : ∀ c, c ∉ cs → fresh c = c ∧ ∀ e, t.context? c = some e → u.context? c = some e
  /-- There are no other new contexts. -/
  added : ∀ c e, t.context? c = none → u.context? c = some e → ∃ c' ∈ cs, fresh c' = c

/-- The fresh contexts are none of those that they replace. -/
theorem Renews.fresh_not_mem {fresh : ContextId → ContextId} (h : t.Renews u cs fresh)
    (hcs : ∀ c ∈ cs, ∃ e, t.context? c = some e) (c : ContextId) : fresh c ∉ cs := by
  intro hmem
  by_cases hc : c ∈ cs
  · obtain ⟨e, he⟩ := hcs c hc
    obtain ⟨e', he'⟩ := hcs _ hmem
    rw [(h.renewed c hc e he).1] at he'
    cases he'
  · rw [(h.kept c hc).1] at hmem
    exact hc hmem

/-- The optimized contexts that are left. -/
theorem Renews.isOptimized_iff {fresh : ContextId → ContextId} (h : t.Renews u cs fresh)
    (hcs : ∀ c ∈ cs, ∃ e, t.context? c = some e) : u.IsOptimized c ↔ t.IsOptimized c ∧ c ∉ cs := by
  constructor
  · rintro ⟨e, he, hoptimized, hvalid⟩
    -- A context that is new is not optimized, and one that was replaced is not valid.
    rcases hold : t.context? c with _ | e'
    · obtain ⟨c', hc', rfl⟩ := h.added c e hold he
      obtain ⟨e', he'⟩ := hcs c' hc'
      rw [(h.renewed c' hc' e' he').2] at he
      cases he
      cases hoptimized
    · have hc : c ∉ cs := by
        intro hc
        rw [h.invalid c hc e' hold] at he
        cases he
        cases hvalid
      rw [(h.kept c hc).2 e' hold] at he
      cases he
      exact ⟨⟨e, hold, hoptimized, hvalid⟩, hc⟩
  · rintro ⟨⟨e, he, hoptimized, hvalid⟩, hc⟩
    exact ⟨e, (h.kept c hc).2 e he, hoptimized, hvalid⟩

theorem context?_length (t : ProcessTable) : t.context? ⟨t.contexts.length⟩ = none :=
  List.getElem?_eq_none (Nat.le_refl _)

theorem ne_length_of_context? {e : Context} (h : t.context? c = some e) :
    c ≠ ⟨t.contexts.length⟩ := by
  rintro rfl
  rw [context?_length] at h
  cases h

theorem context?_invalidateContext (t : ProcessTable) (c x : ContextId) :
    (t.invalidateContext c).context? x =
      (t.context? x).map fun e => if x = c then { e with valid := false } else e := by
  obtain ⟨i⟩ := c
  obtain ⟨j⟩ := x
  rw [context?, invalidateContext, List.getElem?_modify, context?]
  by_cases h : i = j
  · simp [h]
  · simp [h, Ne.symm h]

/-- A new context comes behind all others. -/
theorem context?_addContext (t : ProcessTable) (m : MethodId) (optimized : Bool) (x : ContextId) :
    (t.addContext m optimized).1.context? x =
      if x = ⟨t.contexts.length⟩ then some ⟨m, optimized, true⟩ else t.context? x := by
  obtain ⟨j⟩ := x
  simp only [context?, addContext, List.getElem?_append, List.getElem?_singleton,
    ContextId.mk.injEq]
  rcases Nat.lt_trichotomy j t.contexts.length with h | h | h
  · rw [if_pos h, if_neg (Nat.ne_of_lt h)]
  · simp [h]
  · rw [if_neg (by omega), if_neg (by omega), if_neg (by omega),
      List.getElem?_eq_none (Nat.le_of_lt h)]

/-- A context is invalid, and a fresh one is at the end of the table. -/
theorem context?_renew (t : ProcessTable) (c : ContextId) (m : MethodId) (x : ContextId) :
    ((t.invalidateContext c).addContext m false).1.context? x =
      if x = ⟨t.contexts.length⟩ then some ⟨m, false, true⟩
      else (t.context? x).map fun e => if x = c then { e with valid := false } else e := by
  have hlen : (t.invalidateContext c).contexts.length = t.contexts.length := List.length_modify ..
  rw [context?_addContext, hlen, context?_invalidateContext]

/-- The first replacement of a context counts. -/
theorem redirect_cons (fresh c x : ContextId) (l : List (ContextId × ContextId)) :
    redirect ((c, fresh) :: l) x = if x = c then fresh else redirect l x := by
  rw [redirect, List.lookup_cons]
  by_cases h : x = c
  · simp [h]
  · rw [if_neg h, beq_false_of_ne h, redirect]

/-- One step of the replacement: the context becomes invalid and a fresh one is added. -/
theorem replaceContexts_cons {e : Context} (h : t.context? c = some e) :
    t.replaceContexts (c :: cs) =
      let v := ((t.invalidateContext c).addContext e.creator false).1
      ((v.replaceContexts cs).1, (c, ⟨t.contexts.length⟩) :: (v.replaceContexts cs).2) := by
  have hlen : (t.invalidateContext c).contexts.length = t.contexts.length := List.length_modify ..
  rw [replaceContexts, h]
  simp only [addContext, hlen]

/-- Contexts leave activations alone. -/
theorem replaceContexts_frame (t : ProcessTable) (cs : List ContextId) :
    (t.replaceContexts cs).1.callStacks = t.callStacks ∧
      (t.replaceContexts cs).1.active = t.active ∧
      (t.replaceContexts cs).1.inScheduler = t.inScheduler := by
  induction cs generalizing t with
  | nil => exact ⟨rfl, rfl, rfl⟩
  | cons c cs ih =>
    cases h : t.context? c with
    | none =>
      rw [replaceContexts, h]
      exact ih t
    | some e =>
      rw [replaceContexts_cons h]
      exact ih _

/-- Replacing contexts one by one gives each of them a fresh one. -/
theorem renews_replaceContexts (hnodup : cs.Nodup) (hcs : ∀ c ∈ cs, ∃ e, t.context? c = some e) :
    t.Renews (t.replaceContexts cs).1 cs (redirect (t.replaceContexts cs).2) := by
  induction cs generalizing t with
  | nil =>
    refine ⟨by simp, by simp, by simp, fun c _ => ⟨rfl, fun e he => he⟩, fun c e hnone he => ?_⟩
    rw [replaceContexts, hnone] at he
    cases he
  | cons c cs ih =>
    obtain ⟨hc, hnodup⟩ := List.nodup_cons.1 hnodup
    obtain ⟨e, he⟩ := hcs c List.mem_cons_self
    rw [replaceContexts_cons he]
    simp only
    generalize hv : ((t.invalidateContext c).addContext e.creator false).1 = v
    have hv (x : ContextId) :
        v.context? x = if x = ⟨t.contexts.length⟩ then some ⟨e.creator, false, true⟩
        else (t.context? x).map fun e => if x = c then { e with valid := false } else e := by
      rw [← hv, context?_renew]
    have hold {x : ContextId} {f : Context} (hx : t.context? x = some f) (hne : x ≠ c) :
        v.context? x = some f := by
      rw [hv, if_neg (ne_length_of_context? hx), hx, Option.map_some, if_neg hne]
    have hnone {x : ContextId} (hx : v.context? x = none) :
        x ≠ ⟨t.contexts.length⟩ ∧ t.context? x = none := by
      rw [hv] at hx
      split at hx
      · cases hx
      · next hne => exact ⟨hne, Option.map_eq_none_iff.1 hx⟩
    have hfresh : (⟨t.contexts.length⟩ : ContextId) ∉ cs := by
      intro hmem
      obtain ⟨f, hf⟩ := hcs _ (List.mem_cons_of_mem c hmem)
      exact ne_length_of_context? hf rfl
    have hne {x : ContextId} (hx : x ∈ cs) : x ≠ c := fun h => hc (h ▸ hx)
    have hrest : v.Renews (v.replaceContexts cs).1 cs (redirect (v.replaceContexts cs).2) := by
      refine ih hnodup fun x hx => ?_
      obtain ⟨f, hf⟩ := hcs x (List.mem_cons_of_mem c hx)
      exact ⟨f, hold hf (hne hx)⟩
    -- The first context is replaced in `v`, and what is left of the list does
    -- not touch it or its fresh one.
    refine ⟨fun x hx f hf => ?_, fun x hx f hf => ?_, fun x hx y hy hxy => ?_,
      fun x hx => ?_, fun x f hx hf => ?_⟩
    · rcases List.mem_cons.1 hx with rfl | hx
      · refine (hrest.kept x hc).2 _ ?_
        rw [hv, if_neg (ne_length_of_context? hf), hf, Option.map_some, if_pos rfl]
      · exact hrest.invalid x hx f (hold hf (hne hx))
    · rw [redirect_cons]
      rcases List.mem_cons.1 hx with rfl | hx
      · rw [if_pos rfl]
        refine ⟨t.context?_length, (hrest.kept _ hfresh).2 _ ?_⟩
        rw [hv, if_pos rfl, Option.some.inj (he.symm.trans hf)]
      · rw [if_neg (hne hx)]
        obtain ⟨hx', hf'⟩ := hrest.renewed x hx f (hold hf (hne hx))
        exact ⟨(hnone hx').2, hf'⟩
    · have hapart {z : ContextId} (hz : z ∈ cs) :
          redirect (v.replaceContexts cs).2 z ≠ ⟨t.contexts.length⟩ := by
        obtain ⟨f, hf⟩ := hcs z (List.mem_cons_of_mem c hz)
        exact (hnone (hrest.renewed z hz f (hold hf (hne hz))).1).1
      rw [redirect_cons, redirect_cons] at hxy
      rcases List.mem_cons.1 hx with hxc | hx <;> rcases List.mem_cons.1 hy with hyc | hy
      · exact hxc.trans hyc.symm
      · rw [if_pos hxc, if_neg (hne hy)] at hxy
        exact absurd hxy.symm (hapart hy)
      · rw [if_neg (hne hx), if_pos hyc] at hxy
        exact absurd hxy (hapart hx)
      · rw [if_neg (hne hx), if_neg (hne hy)] at hxy
        exact hrest.injective x hx y hy hxy
    · have hxc : x ≠ c := fun h => hx (h ▸ List.mem_cons_self)
      have hx : x ∉ cs := fun h => hx (List.mem_cons_of_mem c h)
      rw [redirect_cons, if_neg hxc]
      exact ⟨(hrest.kept x hx).1, fun f hf => (hrest.kept x hx).2 f (hold hf hxc)⟩
    · by_cases hlen : x = ⟨t.contexts.length⟩
      · exact ⟨c, List.mem_cons_self, by rw [redirect_cons, if_pos rfl, hlen]⟩
      · obtain ⟨c', hc', rfl⟩ := hrest.added x f (by rw [hv, if_neg hlen, hx]; rfl) hf
        exact ⟨c', List.mem_cons_of_mem c hc', by rw [redirect_cons, if_neg (hne hc')]⟩

end ProcessTable

/-! ## Stacks -/

/-- A stack with each activation replaced by some. -/
def spread (f : Nat → Activation → List Activation) (s : List Activation) : List Activation :=
  (s.mapIdx f).flatten

section Spread

variable {f g : Nat → Activation → List Activation} {s : List Activation}

/-- Spreading goes through the stack in order, with the numbers of the activations. -/
theorem spread_append (f : Nat → Activation → List Activation) (s s' : List Activation) :
    spread f (s ++ s') = spread f s ++ spread (fun k => f (k + s.length)) s' := by
  rw [spread, List.mapIdx_append, List.flatten_append, spread, spread]

theorem spread_congr (h : ∀ k a, s[k]? = some a → f k a = g k a) : spread f s = spread g s := by
  rw [spread, spread]
  congr 1
  refine List.ext_getElem? fun k => ?_
  rw [List.getElem?_mapIdx, List.getElem?_mapIdx]
  cases ha : s[k]? with
  | none => rfl
  | some a => rw [Option.map_some, Option.map_some, h k a ha]

/-- Activations that are replaced by themselves stay. -/
theorem spread_self (h : ∀ k a, f k a = [a]) : spread f s = s := by
  induction s generalizing f with
  | nil => rfl
  | cons a s ih =>
    rw [spread, List.mapIdx_cons, List.flatten_cons, h]
    exact congrArg (a :: ·) (ih fun k => h (k + 1))

theorem spread_const (s : List Activation) (g : Nat → List Activation) :
    spread (fun k _ => g k) s = (List.range s.length).flatMap g := by
  rw [spread, List.flatMap_def]
  congr 1
  refine List.ext_getElem? fun k => ?_
  rw [List.getElem?_mapIdx, List.getElem?_map]
  rcases Nat.lt_or_ge k s.length with h | h
  · rw [List.getElem?_eq_getElem h, List.getElem?_range h, Option.map_some, Option.map_some]
  · rw [List.getElem?_eq_none h, List.getElem?_eq_none (by simpa using h),
      Option.map_none, Option.map_none]

/-- To replace an activation, and then some of those before it, is to replace all
    of them at once. -/
theorem spread_splice {i : Nat} {a : Activation} (ha : s[i]? = some a)
    (hbefore : ∀ k b, k < i → g k b = f k b) (hafter : ∀ k b, i ≤ k → f k b = [b])
    (hafter' : ∀ k b, i < k → g k b = [b]) :
    spread f (splice s i (g i a)) = spread g s := by
  obtain ⟨hi, rfl⟩ := List.getElem?_eq_some_iff.1 ha
  have hlen : (s.take i).length = i := List.length_take_of_le (Nat.le_of_lt hi)
  have hs : s = s.take i ++ s[i] :: s.drop (i + 1) := by simp
  have htake : spread g (s.take i) = spread f (s.take i) := by
    refine spread_congr fun k b hk => hbefore k b ?_
    have hk' := (List.getElem?_eq_some_iff.1 hk).1
    omega
  have hnew :
      spread (fun k => f (k + i)) (g i s[i] ++ s.drop (i + 1)) = g i s[i] ++ s.drop (i + 1) :=
    spread_self fun k b => hafter _ b (Nat.le_add_left i k)
  have hold :
      spread (fun k => g (k + i)) (s[i] :: s.drop (i + 1)) = g i s[i] ++ s.drop (i + 1) := by
    rw [spread, List.mapIdx_cons, List.flatten_cons, Nat.zero_add, ← spread,
      spread_self fun k b => hafter' _ b (by omega)]
  -- Both sides are the stack cut at `i`.
  conv_rhs => rw [hs, spread_append, hlen, hold, htake]
  rw [splice, List.append_assoc, spread_append, hlen, hnew]

end Spread

namespace ProcessTable

variable {t t' : ProcessTable} {code : CodeTable} {replaced : List (ContextId × ContextId)}
  {r r' : FrameRef} {a : Activation} {new : List Activation} {l : List FrameRef}
  {done d : Deoptimized}

/-- The table with each activation replaced by some. -/
def spread (t : ProcessTable) (f : FrameRef → Activation → List Activation) : ProcessTable :=
  { t with callStacks := t.callStacks.mapIdx fun p s => Warmup.spread (fun i => f (⟨p⟩, i)) s }

/-- The table with one activation replaced by some. -/
def replaceAt (t : ProcessTable) (r : FrameRef) (new : List Activation) : ProcessTable :=
  { t with callStacks := t.callStacks.modify r.1.index fun s => splice s r.2 new }

/-- Activations before the one that is replaced stay where they were. -/
theorem frame?_replaceAt (hr : t.frame? r = some a) (hbefore : r'.Before r) :
    (t.replaceAt r new).frame? r' = t.frame? r' := by
  obtain ⟨s, hs, ha⟩ := frame?_eq_some_iff.1 hr
  rw [frame?, replaceAt, frame?, List.getElem?_modify]
  rcases hbefore with hlt | ⟨hp, hlt⟩
  · simp only [Nat.ne_of_gt hlt, if_false, Option.map_eq_map, Option.map_id']
  · have hi : r.2 < s.length := (List.getElem?_eq_some_iff.1 ha).1
    simp only [hp, hs, if_true, Option.map_eq_map, Option.map_some, Option.bind_some,
      splice, List.append_assoc]
    rw [List.getElem?_append_left (by rw [List.length_take]; omega), List.getElem?_take_of_lt hlt]

theorem spread_congr {f g : FrameRef → Activation → List Activation}
    (h : ∀ r a, t.frame? r = some a → f r a = g r a) :
    t.spread f = t.spread g := by
  rw [spread, spread]
  congr 1
  refine List.ext_getElem? fun p => ?_
  rw [List.getElem?_mapIdx, List.getElem?_mapIdx]
  cases hs : t.callStacks[p]? with
  | none => rfl
  | some s =>
    rw [Option.map_some, Option.map_some]
    congr 1
    exact Warmup.spread_congr fun i a ha => h (⟨p⟩, i) a (frame?_eq_some_iff.2 ⟨s, hs, ha⟩)

/-- Replacing one activation first, and spreading the others, is spreading all. -/
theorem spread_replaceAt {f g : FrameRef → Activation → List Activation} (hr : t.frame? r = some a)
    (hother : ∀ r' b, r' ≠ r → g r' b = f r' b) (hself : ∀ b, f r b = [b])
    (hafter : ∀ r' b, r.Before r' → f r' b = [b]) :
    (t.replaceAt r (g r a)).spread f = t.spread g := by
  obtain ⟨s, hs, ha⟩ := frame?_eq_some_iff.1 hr
  obtain ⟨⟨p⟩, i⟩ := r
  rw [spread, replaceAt, spread]
  congr 1
  refine List.ext_getElem? fun q => ?_
  rw [List.getElem?_mapIdx, List.getElem?_mapIdx, List.getElem?_modify]
  -- Only the stack of the activation is cut.
  by_cases hq : p = q
  · subst hq
    simp only [hs, if_true, Option.map_eq_map, Option.map_some]
    congr 1
    refine spread_splice (g := fun k => g (⟨p⟩, k)) ha (fun k b hk => ?_)
      (fun k b hk => ?_) fun k b hk => ?_
    · exact hother _ b fun h => Nat.ne_of_lt hk (congrArg (·.2) h)
    · rcases Nat.lt_or_eq_of_le hk with hk | rfl
      · exact hafter _ b (.inr ⟨rfl, hk⟩)
      · exact hself b
    · rw [hother _ b fun h => Nat.ne_of_gt hk (congrArg (·.2) h)]
      exact hafter _ b (.inr ⟨rfl, hk⟩)
  · simp only [hq, if_false, Option.map_eq_map, Option.map_id']
    congr 1
    funext s'
    refine Warmup.spread_congr fun k b _ => (hother _ b fun h => hq ?_).symm
    exact congrArg (·.1.index) h.symm

theorem spread_eq_self {f : FrameRef → Activation → List Activation} (h : ∀ r a, f r a = [a]) :
    t.spread f = t := by
  have hstacks :
      (t.callStacks.mapIdx fun p s => Warmup.spread (fun i => f (⟨p⟩, i)) s) = t.callStacks := by
    refine List.ext_getElem? fun p => ?_
    rw [List.getElem?_mapIdx]
    cases t.callStacks[p]? with
    | none => rfl
    | some s => rw [Option.map_some, spread_self fun i => h (⟨p⟩, i)]
  rw [spread, hstacks]

/-- The stacks after spreading, each from its own activations. -/
theorem callStacks_spread (t : ProcessTable) (f : FrameRef → Activation → List Activation) :
    (t.spread f).callStacks = t.callStacks.mapIdx fun p s =>
      (List.range s.length).flatMap fun i => (t.frame? (⟨p⟩, i)).elim [] (f (⟨p⟩, i)) := by
  rw [spread_congr (g := fun r _ => (t.frame? r).elim [] (f r))
    fun r a ha => by rw [ha, Option.elim_some]]
  refine congrArg (List.mapIdx · t.callStacks) ?_
  funext p s
  exact spread_const s _

end ProcessTable

/-! ## Activations one after the other -/

/-- The activations that take the place of one that is replaced. -/
def Activation.replacement (code : CodeTable) (replaced : List (ContextId × ContextId))
    (a : Activation) :
    Except Fault (List Activation) :=
  match a.execution with
  | .interpreted => .ok [a.redirect replaced]
  | .compiled n scope => do unfoldActivation (← code.get n) (a.redirect replaced) scope

/-- What was done so far, with the replacement of an activation. -/
def Deoptimized.record (done : Deoptimized) (r : FrameRef) (a : Activation)
    (new : List Activation) : Deoptimized :=
  if a.isCompiled then
    { done with converted := r :: done.converted, synthesized := done.synthesized + new.length }
  else { done with rewired := r :: done.rewired }

namespace ProcessTable

variable {t t' : ProcessTable} {code : CodeTable} {replaced : List (ContextId × ContextId)}
  {r r' : FrameRef} {a : Activation} {l : List FrameRef} {done d : Deoptimized}

/-- One step of the replacement puts the replacement of an activation in its place, and records
    it. -/
theorem replaceFrame_eq (hr : t.frame? r = some a) : t.replaceFrame code replaced r done =
    (a.replacement code replaced).map fun new => (t.replaceAt r new, done.record r a new) := by
  obtain ⟨s, hs, ha⟩ := frame?_eq_some_iff.1 hr
  have hi : r.2 < s.length := (List.getElem?_eq_some_iff.1 ha).1
  have hstack : t.stack r.1 = .ok s := by rw [stack, hs]
  have hset (new : List Activation) : t.setStack r.1 (splice s r.2 new) = t.replaceAt r new := by
    rw [setStack, replaceAt, List.modify_eq_set_getElem?, hs]
    rfl
  have hone (b : Activation) : s.set r.2 b = splice s r.2 [b] := by
    rw [List.set_eq_take_append_cons_drop, if_pos hi, splice]
    simp
  rw [replaceFrame, hstack, frame_eq_ok_iff.2 hr]
  obtain ⟨key, method, execution, isBlock, own, home, superSend, bci⟩ := a
  cases execution with
  | interpreted =>
    rw [Activation.replacement, Except.map, ← hset, ← hone]
    rfl
  | compiled n o =>
    rw [Activation.replacement]
    simp only [← hset]
    simp only [bind, Except.bind, Activation.redirect]
    cases code.get n with
    | error f => rfl
    | ok m =>
      simp only
      cases unfoldActivation m _ o with
      | error f => rfl
      | ok new => rfl

/-- Whether the activation at a place is compiled. -/
def compiledAt (t : ProcessTable) (r : FrameRef) : Bool := (t.frame? r).any (·.isCompiled)

/-- What stands where an activation stood, if those of a list are replaced. -/
def standIns (code : CodeTable) (replaced : List (ContextId × ContextId)) (l : List FrameRef)
    (r : FrameRef) (a : Activation) : List Activation :=
  if r ∈ l then (a.replacement code replaced).toOption.getD [] else [a]

/-- The activations at some places that have a replacement. -/
def Replaceable (t : ProcessTable) (code : CodeTable) (replaced : List (ContextId × ContextId))
    (l : List FrameRef) :
    Prop :=
  ∀ r ∈ l, ∃ a new, t.frame? r = some a ∧ a.replacement code replaced = .ok new

/-- What is reported of the replacement of activations. -/
def reported (t : ProcessTable) (f : FrameRef → Activation → List Activation) (l : List FrameRef)
    (done : Deoptimized) : Deoptimized where
  converted := (l.filter t.compiledAt).reverse ++ done.converted
  rewired := (l.filter (!t.compiledAt ·)).reverse ++ done.rewired
  invalidated := done.invalidated
  synthesized :=
    done.synthesized + ((l.filter t.compiledAt).flatMap fun r => (t.frame? r).elim [] (f r)).length

theorem standIns_of_mem {new : List Activation} (hr : r ∈ l)
    (hnew : a.replacement code replaced = .ok new) :
    standIns code replaced l r a = new := by
  rw [standIns, if_pos hr, hnew]
  rfl

theorem standIns_of_not_mem (hr : r ∉ l) : standIns code replaced l r a = [a] := if_neg hr

/-- What is replaced after an activation comes before it. -/
theorem reported_cons {new : List Activation} (hr : t.frame? r = some a)
    (hnew : a.replacement code replaced = .ok new) (hl : ∀ r' ∈ l, r'.Before r) :
    (t.replaceAt r new).reported (standIns code replaced l) l (done.record r a new) =
      t.reported (standIns code replaced (r :: l)) (r :: l) done := by
  have hframe : ∀ r' ∈ l, (t.replaceAt r new).frame? r' = t.frame? r' :=
    fun r' h => frame?_replaceAt hr (hl r' h)
  have hcompiled : ∀ r' ∈ l, (t.replaceAt r new).compiledAt r' = t.compiledAt r' := by
    intro r' h
    rw [compiledAt, hframe r' h, compiledAt]
  have hnots : ∀ r' ∈ l, (!(t.replaceAt r new).compiledAt r') = !t.compiledAt r' := by
    intro r' h
    rw [hcompiled r' h]
  have hsame : ((l.filter t.compiledAt).flatMap fun r' =>
        ((t.replaceAt r new).frame? r').elim [] (standIns code replaced l r')) =
      (l.filter t.compiledAt).flatMap fun r' => (t.frame? r').elim []
      (standIns code replaced (r :: l) r') := by
    refine List.flatMap_congr fun r' h => ?_
    have hmem := List.mem_of_mem_filter h
    rw [hframe r' hmem]
    congr 1
    funext b
    simp only [standIns, hmem, List.mem_cons_of_mem r hmem, if_true]
  have hself : standIns code replaced (r :: l) r a = new := standIns_of_mem List.mem_cons_self hnew
  rw [reported, List.filter_congr hcompiled, List.filter_congr hnots, hsame,
    reported, Deoptimized.record]
  -- Compiled activations are reported with their replacements, others are counted.
  cases hc : a.isCompiled with
  | true =>
    have hat : t.compiledAt r = true := by rw [compiledAt, hr, Option.any_some, hc]
    simp [hat, hr, hself, Nat.add_assoc]
  | false =>
    have hat : t.compiledAt r = false := by rw [compiledAt, hr, Option.any_some, hc]
    simp [hat]

/-- Without an activation there is nothing to replace. -/
theorem replaceFrame_of_frame?_eq_none (code : CodeTable) (replaced : List (ContextId × ContextId))
    (done : Deoptimized) (hr : t.frame? r = none) :
    ∃ f, t.replaceFrame code replaced r done = .error f := by
  cases hframe : t.replaceFrame code replaced r done with
  | error f => exact ⟨f, rfl⟩
  | ok new =>
    rw [replaceFrame] at hframe
    obtain ⟨s, -, hframe⟩ := exists_ok_of_bind hframe
    obtain ⟨a, ha, -⟩ := exists_ok_of_bind hframe
    rw [frame_eq_ok_iff.1 ha] at hr
    cases hr

/-- What is still to be replaced does not depend on what was. -/
theorem replaceable_cons_iff {new : List Activation} (hr : t.frame? r = some a)
    (hnew : a.replacement code replaced = .ok new) (hl : ∀ r' ∈ l, r'.Before r) :
    (t.replaceAt r new).Replaceable code replaced l ↔ t.Replaceable code replaced (r :: l) := by
  have hframe : ∀ r' ∈ l, (t.replaceAt r new).frame? r' = t.frame? r' :=
    fun r' h => frame?_replaceAt hr (hl r' h)
  constructor
  · intro h r' hr'
    rcases List.mem_cons.1 hr' with rfl | hr'
    · exact ⟨a, new, hr, hnew⟩
    · rw [← hframe r' hr']
      exact h r' hr'
  · intro h r' hr'
    rw [hframe r' hr']
    exact h r' (List.mem_cons_of_mem r hr')

/-- Replacing the first activation of the list, and then the others, is replacing all. -/
theorem spread_standIns_cons {new : List Activation} (hr : t.frame? r = some a)
    (hnew : a.replacement code replaced = .ok new) (hl : ∀ r' ∈ l, r'.Before r) :
    (t.replaceAt r new).spread (standIns code replaced l) =
      t.spread (standIns code replaced (r :: l)) := by
  have hself : standIns code replaced (r :: l) r a = new := standIns_of_mem List.mem_cons_self hnew
  rw [← hself]
  refine spread_replaceAt hr (fun r' b hne => ?_) (fun b => ?_) fun r' b hafter => ?_
  · simp only [standIns, List.mem_cons, hne, false_or]
  · exact standIns_of_not_mem fun h => (hl r h).ne rfl
  · exact standIns_of_not_mem fun h => (hl r' h).asymm hafter

/-- Activations are replaced from the newest on, if all of them have a
    replacement. -/
theorem replaceFrames_eq_done_iff (hl : l.Pairwise fun r r' => r'.Before r) :
    replaceFrames code replaced l t done = .done t' d ↔
      t.Replaceable code replaced l ∧ t' = t.spread (standIns code replaced l) ∧
        d = t.reported (standIns code replaced l) l done := by
  induction l generalizing t done with
  | nil =>
    have hspread : t.spread (standIns code replaced []) = t :=
      spread_eq_self fun r b => standIns_of_not_mem List.not_mem_nil
    rw [replaceFrames, hspread]
    simp [Outcome.done, Replaceable, reported, eq_comm]
  | cons r l ih =>
    obtain ⟨hr, hl⟩ := List.pairwise_cons.1 hl
    rw [replaceFrames]
    cases hframe : t.frame? r with
    | none =>
      obtain ⟨f, hf⟩ := replaceFrame_of_frame?_eq_none code replaced done hframe
      have hnot : ¬t.Replaceable code replaced (r :: l) := by
        intro h
        obtain ⟨a, new, ha, -⟩ := h r List.mem_cons_self
        rw [hframe] at ha
        cases ha
      simp [hf, hnot, Outcome.done, Outcome.fail]
    | some a =>
      rw [replaceFrame_eq hframe]
      cases hnew : a.replacement code replaced with
      | error f =>
        have hnot : ¬t.Replaceable code replaced (r :: l) := by
          intro h
          obtain ⟨b, new, hb, hnew'⟩ := h r List.mem_cons_self
          rw [hframe] at hb
          cases hb
          rw [hnew] at hnew'
          cases hnew'
        simp [hnot, Except.map, Outcome.done, Outcome.fail]
      | ok new =>
        -- The rest is replaced in the table in which this activation was.
        simp only [Except.map]
        rw [ih hl, replaceable_cons_iff hframe hnew hr, spread_standIns_cons hframe hnew hr,
          reported_cons hframe hnew hr]

/-- If one of the activations has no replacement, those that come after it in the stacks are
    replaced, and all others stay. -/
theorem replaceFrames_of_error (hl : l.Pairwise fun r r' => r'.Before r)
    (hframes : ∀ r ∈ l, ∃ a, t.frame? r = some a) {f : Fault}
    (h : (replaceFrames code replaced l t done).result = .error f) :
    ∃ l₁ r l₂ a, l = l₁ ++ r :: l₂ ∧ t.frame? r = some a ∧ a.replacement code replaced = .error f ∧
      t.Replaceable code replaced l₁ ∧
      (replaceFrames code replaced l t done).state = t.spread (standIns code replaced l₁) := by
  induction l generalizing t done with
  | nil => cases h
  | cons r l ih =>
    obtain ⟨hr, hl⟩ := List.pairwise_cons.1 hl
    obtain ⟨a, ha⟩ := hframes r List.mem_cons_self
    rw [replaceFrames, replaceFrame_eq ha] at h ⊢
    cases hnew : a.replacement code replaced with
    -- Nothing is replaced before the activation that fails.
    | error f' =>
      rw [hnew] at h
      obtain rfl : f' = f := Except.error.inj h
      have hspread : t.spread (standIns code replaced []) = t :=
        spread_eq_self fun r b => standIns_of_not_mem List.not_mem_nil
      exact ⟨[], r, l, a, rfl, ha, hnew, by simp [Replaceable], hspread.symm⟩
    | ok new =>
      simp only [hnew, Except.map] at h ⊢
      have hframe : ∀ r' ∈ l, (t.replaceAt r new).frame? r' = t.frame? r' :=
        fun r' h => frame?_replaceAt ha (hr r' h)
      obtain ⟨l₁, r', l₂, b, rfl, hb, herror, hreplaceable, hstate⟩ :=
        ih hl (fun r' hr' => hframe r' hr' ▸ hframes r' (List.mem_cons_of_mem r hr')) h
      have hr₁ : ∀ r' ∈ l₁, r'.Before r := fun r' h => hr r' (List.mem_append_left _ h)
      refine ⟨r :: l₁, r', l₂, b, rfl, ?_, herror,
        (replaceable_cons_iff ha hnew hr₁).1 hreplaceable, ?_⟩
      · rwa [← hframe r' (List.mem_append_right _ List.mem_cons_self)]
      · rw [hstate, spread_standIns_cons ha hnew hr₁]

end ProcessTable

end Warmup
