import Warmup.Proofs.Basic
import Warmup.Proofs.Lookup
import Warmup.SendGraph.Inline

/-!
# Attempts to inline

What becomes of a send is decided by attempts to inline, one for each receiver
class that the send is compiled for (`Compiler.receivers`): the class that is
known, or those that are expected. This module brings super sends, sends to a
known class and sends to expected classes under one form, and says once and for
all how a graph grows by attempts.

* `Compiler.Enters`: an attempt that succeeds leads from a caller to another;
* `Compiler.attempts`: the attempts for some classes, in order;
* `Compiler.settle`: what the callees that were inlined make of the send;
* `resolve_eq`: every send is resolved by its attempts, and settled by them;
* `Compiler.Grows`: the work in a caller, attempt by attempt and send by send,
  with the part of a graph that it gives;
* `expand_grows`: what a scope gives grows below it.

What is true of graphs is shown by induction on `Grows`.
-/

namespace Warmup

/-! ## Parts and their statistics -/

namespace InliningStats

theorem append_empty (a : InliningStats) : a.append {} = a := by simp [append]

theorem append_assoc (a b c : InliningStats) : (a.append b).append c = a.append (b.append c) := by
  simp [append, Nat.add_assoc]

end InliningStats

/-- What is counted for a send: the callees that take its place, the type case, and
    the send or the trap that is left. -/
def Resolution.stats (r : Resolution) : InliningStats where
  inlined := r.arms.length
  typeCases := r.isTypeCase.toNat
  realSends := r.send?.isSome.toNat
  traps := r.trap?.isSome.toNat

namespace Fragment

variable (f g : Fragment)

theorem append_empty : f.append {} = f := by simp [append, InliningStats.append_empty]

theorem append_assoc (h : Fragment) : (f.append g).append h = f.append (g.append h) := by
  simp [append, InliningStats.append_assoc]

@[simp] theorem scopes_append : (f.append g).scopes = f.scopes ++ g.scopes := rfl

@[simp] theorem sends_append : (f.append g).sends = f.sends ++ g.sends := rfl

@[simp] theorem stats_append : (f.append g).stats = f.stats.append g.stats := rfl

@[simp] theorem scopes_count (n : InliningStats) : (f.count n).scopes = f.scopes := rfl

@[simp] theorem sends_count (n : InliningStats) : (f.count n).sends = f.sends := rfl

@[simp] theorem stats_count (n : InliningStats) : (f.count n).stats = f.stats.append n := rfl

@[simp] theorem scopes_ofSend (s : CompileScope) (site : SendSite) (r : Resolution) :
    (ofSend s site r).scopes = [] := rfl

@[simp] theorem sends_ofSend (s : CompileScope) (site : SendSite) (r : Resolution) :
    (ofSend s site r).sends = [⟨s.id, site.bci, site.selector, r⟩] := rfl

/-- The part with a scope before all others. -/
def headed (s : CompileScope) : Fragment := { f with scopes := s :: f.scopes }

@[simp] theorem scopes_headed (s : CompileScope) : (f.headed s).scopes = s :: f.scopes := rfl

@[simp] theorem sends_headed (s : CompileScope) : (f.headed s).sends = f.sends := rfl

/-- A callee that takes the place of a send, or the send that stays, is counted. -/
theorem putCallee_eq (d : ClassId) (o : Option Offset) (q : RealSend) :
    f.putCallee d o q =
      (o.elim (.send q) (.inlined d), f.count (o.elim (Resolution.send q) (.inlined d)).stats) := by
  rcases o with _ | o <;> rfl

/-- A type case, its callees and what is left for other classes are counted. -/
theorem putTypeCase_eq (arms : List (ClassId × Offset)) (residual : Residual) :
    f.putTypeCase arms residual =
      (.typeCase arms residual, f.count (Resolution.typeCase arms residual).stats) := by
  rcases residual with _ | _ <;> simp [putTypeCase, count, InliningStats.append_assoc] <;> rfl

end Fragment

namespace Estimate

/-- What was seen at a send is a class once, however often it was seen. -/
theorem nodup_ofFeedback {t : FeedbackTree} {s : ScopeId} {bci : Bci} {e : Estimate}
    (h : ofFeedback t s bci = some e) : e.classes.Nodup := by
  rw [ofFeedback] at h
  split at h
  · cases h
    exact nodup_eraseDups _
  · split at h
    · cases h
    · cases h
      exact nodup_eraseDups _

/-- A selector is predicted to be sent to a class once. -/
theorem nodup_predict {c : ClassTable} {s : Selector} {e : Estimate} (h : predict c s = some e) :
    e.classes.Nodup := by
  rw [predict] at h
  split at h
  · cases h
    exact List.nodup_singleton _
  · split at h
    · cases h
      exact List.nodup_singleton _
    · split at h
      · cases h
        decide
      · cases h

end Estimate

namespace Compiler

variable (c : Compiler) (t : FeedbackTree)

/-- No class is expected twice. -/
theorem nodup_estimate (s : CompileScope) (site : SendSite) :
    (c.estimate t s site).classes.Nodup := by
  rw [estimate]
  cases hseen : s.feedback.bind fun f =>
      if c.settings.feedback.enabled then Estimate.ofFeedback t f site.bci else none with
  | some e =>
    obtain ⟨f, _, he⟩ := Option.bind_eq_some_iff.1 hseen
    split at he
    · exact Estimate.nodup_ofFeedback he
    · cases he
  | none =>
    cases hpred : Estimate.predict c.classes site.selector with
    | some e => exact Estimate.nodup_predict hpred
    | none => exact List.nodup_nil

/-! ## Callees -/

/-- The callee that a send of a scope runs for receivers of a class. -/
def calleeAt? (s : CompileScope) (site : SendSite) (d : ClassId) : Option Callee :=
  if site.isSuper then c.superCallee? s site else c.callee? d (s.value site.receiver) site

/-- The class that the receivers of a send of a scope are known to have. -/
def staticClass? (s : CompileScope) (site : SendSite) : Option ClassId :=
  if site.isSuper then some s.receiver
  else
    match s.value site.receiver with
    | .cls d => some d
    | .block _ _ => some .blockClosure
    | .unknown => none

/-- The scope `k` is that of the callee that a send of `s` runs for a class. -/
def Inlines (s : CompileScope) (site : SendSite) (d : ClassId) (k : CompileScope) : Prop :=
  ∃ e m builtin, c.calleeAt? s site d = some e ∧ c.classes.method? e.method = some m ∧
    k = calleeScope t s site e m builtin k.id

/-- The classes for which an attempt is made to inline the callee of a send. -/
def receivers (s : CompileScope) (site : SendSite) : List ClassId :=
  match staticClass? s site with
  | some d => [d]
  | none => if c.isUninlinable t s site then [] else (c.estimate t s site).classes

/-- Inlining the callee of a send for a class leads from one caller to another. -/
structure Enters (a : Caller) (site : SendSite) (d : ClassId) (b : Caller) : Prop where
  sends : ∃ m, c.classes.method? a.scope.method = some m ∧ site ∈ m.sends
  receiver : d ∈ c.receivers t a.scope site
  callee : ∃ e m builtin, c.calleeAt? a.scope site d = some e ∧
    c.classes.method? e.method = some m ∧ c.decideAt a site e m = .ok (.allowed builtin) ∧
    b = ⟨calleeScope t a.scope site e m builtin b.scope.id, (e.method, e.key.cls) :: a.trail⟩

/-- No attempt to inline the callee of a send for a class succeeds: if there is a
    method, and a level left, then it is rejected by a decision. -/
def Refuses (levels : Nat) (a : Caller) (site : SendSite) (d : ClassId) : Prop :=
  ∀ e m k, c.calleeAt? a.scope site d = some e → c.classes.method? e.method = some m →
    levels = k + 1 → ∃ why, c.decideAt a site e m = .ok (.rejected why)

variable {c t} {s : CompileScope} {site : SendSite} {deeper : Deeper} {caller a b : Caller}
  {next : Offset} {f : Fragment} {d : ClassId} {r : Resolution}

/-- A send to a known class is compiled for this class alone. -/
theorem receivers_of_static (h : staticClass? s site = some d) : c.receivers t s site = [d] := by
  rw [receivers, h]

/-- A send that must not be inlined is compiled for no class. -/
theorem receivers_of_uninlinable (h : staticClass? s site = none) (hun : c.isUninlinable t s site) :
    c.receivers t s site = [] := by simp only [receivers, h, if_pos hun]

/-- Any other send is compiled for the classes that are expected. -/
theorem receivers_of_dynamic (h : staticClass? s site = none) (hun : ¬c.isUninlinable t s site) :
    c.receivers t s site = (c.estimate t s site).classes := by simp only [receivers, h, if_neg hun]

variable (c t s site) in
/-- No class is tried twice at a send. -/
theorem nodup_receivers : (c.receivers t s site).Nodup := by
  rcases h : staticClass? s site with _ | d
  · by_cases hun : c.isUninlinable t s site
    · rw [receivers_of_uninlinable h hun]
      exact List.nodup_nil
    · rw [receivers_of_dynamic h hun]
      exact c.nodup_estimate t s site
  · rw [receivers_of_static h]
    exact List.nodup_singleton d

/-- The scope that an attempt enters is one that is inlined at its send. -/
theorem Enters.inlines (h : c.Enters t a site d b) : c.Inlines t a.scope site d b.scope := by
  obtain ⟨e, m, builtin, he, hm, -, hb⟩ := h.callee
  exact ⟨e, m, builtin, he, hm, congrArg Caller.scope hb⟩

/-- A scope that is inlined hangs at the send that it takes the place of. -/
theorem Inlines.sender {k : CompileScope} (h : c.Inlines t s site d k) :
    k.sender = some (s.id, site.bci) := by
  obtain ⟨e, m, builtin, -, -, hk⟩ := h
  rw [hk]
  rfl

theorem Enters.sender (h : c.Enters t a site d b) : b.scope.sender = some (a.scope.id, site.bci) :=
  h.inlines.sender

/-! ## One attempt -/

/-- An attempt fails, and if there is a method and a level left then by the
    decision on it; or the part is what the callee gives, one level deeper. -/
theorem inline_cases {e : Option Callee} {o : Option Offset}
    (h : c.inline t deeper caller site e next = .ok (o, f)) :
    (o = none ∧ (∃ why, f = .ofRejection why) ∧ ∀ e' m expand, e = some e' →
        c.classes.method? e'.method = some m → deeper = some expand →
        ∃ why, c.decideAt caller site e' m = .ok (.rejected why)) ∨
      ∃ e' m expand builtin, e = some e' ∧ c.classes.method? e'.method = some m ∧
        deeper = some expand ∧
        c.decideAt caller site e' m = .ok (.allowed builtin) ∧ o = some next ∧
        expand ⟨calleeScope t caller.scope site e' m builtin next,
          (e'.method, e'.key.cls) :: caller.trail⟩ = .ok f := by
  rw [inline] at h
  split at h
  · -- There is no callee, or no method of its name.
    next hnone =>
    obtain ⟨rfl, rfl⟩ := Prod.mk.inj (Except.ok.inj h)
    refine .inl ⟨rfl, ⟨_, rfl⟩, ?_⟩
    rintro e' m _ rfl hm -
    simp [hm] at hnone
  · next e' m he =>
    obtain ⟨e', rfl, he⟩ := Option.bind_eq_some_iff.1 he
    obtain ⟨m, hm, he⟩ := Option.map_eq_some_iff.1 he
    obtain ⟨rfl, rfl⟩ := Prod.mk.inj he
    split at h
    · -- The graph is as deep as it may be.
      obtain ⟨rfl, rfl⟩ := Prod.mk.inj (Except.ok.inj h)
      refine .inl ⟨rfl, ⟨_, rfl⟩, ?_⟩
      rintro _ _ _ - - ⟨⟩
    · next expand =>
      obtain ⟨decision, hdecide, h⟩ := exists_ok_of_bind h
      rcases decision with builtin | why
      · obtain ⟨f', hf', h⟩ := exists_ok_of_bind h
        obtain ⟨rfl, rfl⟩ := Prod.mk.inj (Except.ok.inj h)
        exact .inr ⟨e', m, expand, builtin, rfl, hm, rfl, hdecide, rfl, hf'⟩
      · obtain ⟨rfl, rfl⟩ := Prod.mk.inj (Except.ok.inj h)
        refine .inl ⟨rfl, ⟨_, rfl⟩, ?_⟩
        rintro _ m' _ ⟨rfl⟩ hm' -
        obtain rfl := Option.some.inj (hm.symm.trans hm')
        exact ⟨why, hdecide⟩

/-! ## One form for all sends -/

variable (c t) in
/-- The callees that were inlined for some receiver classes, and the part of the
    graph that the attempts give. -/
def attempts (deeper : Deeper) (caller : Caller) (site : SendSite) :
    List ClassId → Offset → Except Fault (List (ClassId × Offset) × Fragment)
  | [], _ => .ok ([], {})
  | d :: ds, next => do
    let (callee, part) ← c.inline t deeper caller site (c.calleeAt? caller.scope site d) next
    let (arms, rest) ← attempts deeper caller site ds (next + part.scopes.length)
    return ((callee.map fun o => (d, o)).toList ++ arms, part.append rest)

variable (c) in
/-- The send that stays where the receiver's class is known. -/
def staticSend (s : CompileScope) (site : SendSite) : RealSend :=
  if site.isSuper then
    ⟨{ optimized := true, superSend := true, receiverStatic := true }, c.superClass? s⟩
  else ⟨{ optimized := true, receiverStatic := true, counting := c.counts .likely }, none⟩

variable (c t) in
/-- What the callees that were inlined make of a send for which classes are
    expected. -/
def settleEstimate (s : CompileScope) (site : SendSite) (e : Estimate)
    (arms : List (ClassId × Offset)) :
    Resolution :=
  if e.classes = [] then
    if e.others = .untaken ∧ c.canTrap t s site.bci then .trap (.ofSend site)
    else .send (c.openSend e.others)
  else if arms = [] then .send (c.openSend e.others)
  else if arms.length < e.classes.length then .typeCase arms (.send (c.openSend .likely))
  else if e.others = .untaken ∧ c.canTrap t s site.bci then .typeCase arms (.trap (.ofSend site))
  else .typeCase arms (.send (c.openSend e.others))

variable (c t) in
/-- What the callees that were inlined make of a send. -/
def settle (s : CompileScope) (site : SendSite) (arms : List (ClassId × Offset)) : Resolution :=
  match staticClass? s site with
  | some d => arms.head?.elim (.send (c.staticSend s site)) fun x => .inlined d x.2
  | none =>
    if c.isUninlinable t s site then .send ⟨{ optimized := true, uninlinable := true }, none⟩
    else c.settleEstimate t s site (c.estimate t s site) arms

/-- A single attempt is one call of `inline`. -/
theorem attempts_singleton (deeper : Deeper) (caller : Caller) (site : SendSite) (d : ClassId)
    (next : Offset) :
    c.attempts t deeper caller site [d] next =
      (c.inline t deeper caller site (c.calleeAt? caller.scope site d) next).map fun x =>
        ((x.1.map fun o => (d, o)).toList, x.2) := by
  rw [attempts]
  rcases c.inline t deeper caller site (c.calleeAt? caller.scope site d) next with why | ⟨o, f⟩
  · rfl
  · simp only [attempts, bind, Except.bind, pure, Except.pure, List.append_nil,
      Fragment.append_empty, Except.map]

/-- Where nothing is known of the receiver, the arms of a type case are attempts. -/
theorem inlineArms_eq_attempts
    (h : ∀ d, c.calleeAt? caller.scope site d = c.callee? d .unknown site) (ds : List ClassId)
    (next : Offset) :
    c.inlineArms t deeper caller site ds next = c.attempts t deeper caller site ds next := by
  induction ds generalizing next with
  | nil => rfl
  | cons d ds ih => simp only [inlineArms, attempts, h, ih]

/-- The one attempt for a class that is known decides. -/
theorem attempts_static (hclass : staticClass? caller.scope site = some d) {e : Option Callee}
    (he : c.calleeAt? caller.scope site d = e) {q : RealSend}
    (hq : c.staticSend caller.scope site = q) :
    (do
      let (o, part) ← c.inline t deeper caller site e next
      return part.putCallee d o q) =
    (c.attempts t deeper caller site (c.receivers t caller.scope site) next).map fun x =>
      (c.settle t caller.scope site x.1, x.2.count (c.settle t caller.scope site x.1).stats) := by
  rw [receivers_of_static hclass, attempts_singleton, he]
  rcases c.inline t deeper caller site e next with why | ⟨o, part⟩
  · rfl
  · simp only [bind, Except.bind, pure, Except.pure, Except.map, Fragment.putCallee_eq,
      settle, hclass, hq]
    rcases o with _ | o <;> rfl

/-- A send to expected classes is resolved by its attempts: they are made first, and what they gave
    settles the send. -/
theorem resolveEstimate_eq
    (hunknown : ∀ d, c.calleeAt? caller.scope site d = c.callee? d .unknown site) (e : Estimate) :
    c.resolveEstimate t deeper caller site e next =
      (c.attempts t deeper caller site e.classes next).map fun x =>
        (c.settleEstimate t caller.scope site e x.1,
          x.2.count (c.settleEstimate t caller.scope site e x.1).stats) := by
  simp only [resolveEstimate, inlineArms_eq_attempts hunknown, settleEstimate, List.isEmpty_iff,
    Bool.and_eq_true, decide_eq_true_eq, Fragment.putTypeCase_eq]
  by_cases hempty : e.classes = []
  · simp only [hempty, if_true]
    split <;> rfl
  · simp only [hempty, if_false]
    rcases c.attempts t deeper caller site e.classes next with why | ⟨arms, part⟩
    · rfl
    · simp only [bind, Except.bind, pure, Except.pure, Except.map]
      split_ifs <;> rfl

/-- A send is resolved by its attempts, and settled by the callees that were inlined.
    What becomes of it is counted. -/
theorem resolve_eq (deeper : Deeper) (caller : Caller) (site : SendSite) (next : Offset) :
    c.resolve t deeper caller site next =
      (c.attempts t deeper caller site (c.receivers t caller.scope site) next).map fun x =>
        (c.settle t caller.scope site x.1, x.2.count (c.settle t caller.scope site x.1).stats) := by
  rw [resolve]
  split
  · -- A super send, to the class that its method names.
    next hsuper =>
    exact attempts_static (by rw [staticClass?, if_pos hsuper]) (by rw [calleeAt?, if_pos hsuper])
      (by rw [staticSend, if_pos hsuper])
  · next hsuper =>
    have hcallee (d : ClassId) :
        c.calleeAt? caller.scope site d = c.callee? d (caller.scope.value site.receiver) site := by
      rw [calleeAt?, if_neg hsuper]
    have hq : c.staticSend caller.scope site =
        ⟨{ optimized := true, receiverStatic := true, counting := c.counts .likely }, none⟩ := by
      rw [staticSend, if_neg hsuper]
    split
    · -- The receiver is an instance of a known class, or a known block.
      next d hv =>
      exact attempts_static (by rw [staticClass?, if_neg hsuper, hv]) (hv ▸ hcallee d) hq
    · next b outer hv =>
      exact attempts_static (by rw [staticClass?, if_neg hsuper, hv]) (hv ▸ hcallee _) hq
    · -- Nothing is known of the receiver.
      next hv =>
      have hclass : staticClass? caller.scope site = none := by rw [staticClass?, if_neg hsuper, hv]
      split
      · next hun =>
        rw [receivers_of_uninlinable hclass hun]
        simp only [attempts, settle, hclass, if_pos hun, Except.map]
        rfl
      · next hun =>
        rw [receivers_of_dynamic hclass hun, resolveEstimate_eq (hv ▸ hcallee)]
        simp only [settle, hclass, if_neg hun]

/-! ## What becomes of a send -/

section Settle

variable {arms : List (ClassId × Offset)}

/-- At a known class there is at most one attempt, and the send is what it made of it. -/
theorem settle_of_static (h : staticClass? s site = some d) :
    c.settle t s site arms = arms.head?.elim (.send (c.staticSend s site)) fun x =>
      .inlined d x.2 := by
  rw [settle, h]

/-- Where nothing may be inlined, a plain send is left. -/
theorem settle_of_uninlinable (h : staticClass? s site = none) (hun : c.isUninlinable t s site) :
    c.settle t s site arms = .send ⟨{ optimized := true, uninlinable := true }, none⟩ := by
  simp only [settle, h, if_pos hun]

/-- What was inlined for the expected classes becomes a type case. -/
theorem settle_of_dynamic (h : staticClass? s site = none) (hun : ¬c.isUninlinable t s site) :
    c.settle t s site arms = c.settleEstimate t s site (c.estimate t s site) arms := by
  simp only [settle, h, if_neg hun]

/-- A type case has the arms that were inlined, in the order of their classes. -/
theorem settleEstimate_arms {e : Estimate} (h : (arms.map (·.1)).Sublist e.classes) :
    (c.settleEstimate t s site e arms).arms = arms := by
  rw [settleEstimate]
  by_cases hempty : e.classes = []
  · rw [hempty, List.sublist_nil, List.map_eq_nil_iff] at h
    rw [if_pos hempty, h]
    split <;> rfl
  · rw [if_neg hempty]
    by_cases harms : arms = []
    · rw [if_pos harms, harms]
      rfl
    · rw [if_neg harms]
      split_ifs <;> rfl

/-- The callees that were inlined take the place of the send. -/
theorem settle_arms (h : (arms.map (·.1)).Sublist (c.receivers t s site)) :
    (c.settle t s site arms).arms = arms := by
  rcases hclass : staticClass? s site with _ | d
  · by_cases hun : c.isUninlinable t s site
    · rw [receivers_of_uninlinable hclass hun, List.sublist_nil, List.map_eq_nil_iff] at h
      rw [settle_of_uninlinable hclass hun, h]
      rfl
    · rw [receivers_of_dynamic hclass hun] at h
      rw [settle_of_dynamic hclass hun, settleEstimate_arms h]
  · rw [receivers_of_static hclass] at h
    rw [settle_of_static hclass]
    -- One class is tried here, so there is no second arm.
    rcases arms with _ | ⟨⟨e, o⟩, rest⟩
    · rfl
    · have hlength : rest.length + 1 ≤ 1 := by simpa using h.length_le
      obtain rfl : rest = [] := List.length_eq_zero_iff.1 (by omega)
      obtain rfl : e = d := by simpa using h
      rfl

variable (c t) in
/-- What becomes of a send fits the callees that were inlined. -/
structure Decided (s : CompileScope) (site : SendSite) (r : Resolution) : Prop where
  /-- The callee takes the place of the send if the class is known. -/
  static : ∀ d, staticClass? s site = some d → ∀ a ∈ r.arms, r = .inlined d a.2
  /-- The receiver class chooses the callee if it is not. -/
  dynamic : staticClass? s site = none → ∀ a ∈ r.arms, r.isTypeCase
  /-- Where a send is left that must not be inlined, nothing was tried. -/
  uninlinable : ∀ q, r.send? = some q → q.flags.uninlinable → c.receivers t s site = []
  /-- A trap stands only where it may. -/
  trap : r.trap?.isSome → c.canTrap t s site.bci

variable (c t) in
/-- What settles a send is decided by what is known at it, whatever was inlined. -/
theorem decided_settle (s : CompileScope) (site : SendSite) (arms : List (ClassId × Offset)) :
    c.Decided t s site (c.settle t s site arms) := by
  rcases hclass : staticClass? s site with _ | d
  · by_cases hun : c.isUninlinable t s site
    · rw [settle_of_uninlinable hclass hun]
      refine ⟨by simp [hclass], by rintro - _ ⟨⟩, fun _ _ _ => receivers_of_uninlinable
        hclass hun, by rintro ⟨⟩⟩
    · rw [settle_of_dynamic hclass hun, settleEstimate]
      refine ⟨by simp [hclass], fun _ => ?_, ?_, ?_⟩
      · split_ifs <;> intro a ha <;> first | rfl | cases ha
      · split_ifs <;> rintro q ⟨⟩ ⟨⟩
      · split_ifs <;> first | (next hcan => exact fun _ => hcan.2) | rintro ⟨⟩
  · rw [settle_of_static hclass]
    have hflag : (c.staticSend s site).flags.uninlinable = false := by
      rw [staticSend]
      split <;> rfl
    rcases arms with _ | ⟨x, rest⟩
    · refine ⟨by rintro _ - _ ⟨⟩, by simp [hclass], ?_, by rintro ⟨⟩⟩
      rintro q ⟨rfl⟩ hun
      simp [hflag] at hun
    · refine ⟨fun e he a ha => ?_, by simp [hclass], by rintro _ ⟨⟩, by rintro ⟨⟩⟩
      obtain rfl := Option.some.inj (hclass.symm.trans he)
      rw [List.mem_singleton.1 ha]
      rfl

variable (c t) in
/-- A send of a scope is settled by the callees that were inlined for some of the
    classes that were tried. -/
structure IsSettled (s : CompileScope) (site : SendSite) (r : Resolution) : Prop where
  tried : (r.arms.map (·.1)).Sublist (c.receivers t s site)
  eq_settle : r = c.settle t s site r.arms

/-- What settles a send keeps the arms that it was settled by. -/
theorem isSettled_settle (h : (arms.map (·.1)).Sublist (c.receivers t s site)) :
    c.IsSettled t s site (c.settle t s site arms) := by
  refine ⟨?_, ?_⟩ <;> rw [settle_arms h]
  exact h

/-- What is true of every decision is true of a send that is settled. -/
theorem IsSettled.decided (h : c.IsSettled t s site r) : c.Decided t s site r := by
  rw [h.eq_settle]
  exact c.decided_settle t s site r.arms

/-- A send that is left is a super send, or has nothing but what is known about its receiver. -/
theorem settle_send_cases {q : RealSend} (hq : (c.settle t s site arms).send? = some q) :
    (site.isSuper ∧
      q = ⟨{ optimized := true, superSend := true, receiverStatic := true }, c.superClass? s⟩) ∨
      ¬site.isSuper ∧ ∃ uninlinable static counting, q =
        ⟨{ optimized := true, uninlinable := uninlinable, receiverStatic := static,
           counting := counting }, none⟩ := by
  rcases hclass : staticClass? s site with _ | d
  · -- A super send has a known class, so this is not one.
    have hsuper : ¬site.isSuper := fun hsuper => by simp [staticClass?, hsuper] at hclass
    refine .inr ⟨hsuper, ?_⟩
    by_cases hun : c.isUninlinable t s site
    · rw [settle_of_uninlinable hclass hun] at hq
      exact ⟨_, _, _, (Option.some.inj hq).symm⟩
    · rw [settle_of_dynamic hclass hun, settleEstimate] at hq
      split_ifs at hq <;> cases hq <;> exact ⟨_, _, _, rfl⟩
  · rw [settle_of_static hclass] at hq
    rcases arms with _ | ⟨x, rest⟩
    · obtain rfl := Option.some.inj hq
      rw [staticSend]
      split
      · next hsuper => exact .inl ⟨hsuper, rfl⟩
      · next hsuper => exact .inr ⟨hsuper, _, _, _, rfl⟩
    · cases hq

end Settle

/-! ## How a graph grows -/

variable (c) in
/-- The sends of the method of a scope. -/
def sendsOf (s : CompileScope) : List SendSite :=
  ((c.classes.method? s.method).map Method.sends).getD []

theorem mem_sendsOf :
    site ∈ c.sendsOf s ↔ ∃ m, c.classes.method? s.method = some m ∧ site ∈ m.sends := by
  rcases hm : c.classes.method? s.method with _ | m <;> simp [sendsOf, hm]

theorem sendsOf_eq {m : Method} (h : c.classes.method? s.method = some m) :
    c.sendsOf s = m.sends := by
  simp [sendsOf, h]

variable (c t) in
/-- How callees are expanded with some levels left. -/
def below : Nat → Deeper
  | 0 => none
  | n + 1 => some (c.expand t n)

/-- Some of the work in a caller. -/
inductive Work
  /-- The attempts for some classes at a send, with the callees that were inlined. -/
  | attempts (site : SendSite) (ds : List ClassId) (arms : List (ClassId × Offset))
  /-- The sends at some places. -/
  | sends (sites : List SendSite)

variable (c t) in
/-- Some work in the caller gives a part of a graph, from an offset on, where callees
    are inlined at most some levels deep. -/
inductive Grows : Nat → Caller → Work → Offset → Fragment → Prop
  | tried {n a site next} : Grows n a (.attempts site [] []) next {}
  | refused {n a site d ds arms next f} (why : Rejection) : c.Refuses n a site d →
    Grows n a (.attempts site ds arms) next f →
    Grows n a (.attempts site (d :: ds) arms) next ((Fragment.ofRejection why).append f)
  /-- A callee and all that it gives come before what further attempts give. -/
  | enter {n a site d ds arms b f f'} :
    c.Enters t a site d b → c.expand t n b = .ok (f.headed b.scope) →
    Grows n b (.sends (c.sendsOf b.scope)) (b.scope.id + 1) f →
    Grows (n + 1) a (.attempts site ds arms) (b.scope.id + (f.headed b.scope).scopes.length) f' →
    Grows (n + 1) a (.attempts site (d :: ds) ((d, b.scope.id) :: arms)) b.scope.id
      ((f.headed b.scope).append f')
  | sent {n a next} : Grows n a (.sends []) next {}
  /-- A send stands behind all callees that were inlined at it. -/
  | send {n a site sites arms next f f'} : site ∈ c.sendsOf a.scope →
    Grows n a (.attempts site (c.receivers t a.scope site) arms) next f →
    Grows n a (.sends sites) (next + f.scopes.length) f' →
    Grows n a (.sends (site :: sites)) next ((f.count (c.settle t a.scope site arms).stats).append
      ((Fragment.ofSend a.scope site (c.settle t a.scope site arms)).append f'))

variable {n : Nat}

/-- A scope is expanded with as many levels below it as are left. -/
theorem expand_eq (n : Nat) (a : Caller) : c.expand t n a = c.expandWith t (c.below t n) a := by
  rcases n with _ | n <;> rfl

section Expand

variable (hd : ∀ k, n = k + 1 → ∀ b f, c.expand t k b = .ok f → ∃ rest, f = rest.headed b.scope ∧
  c.Grows t k b (.sends (c.sendsOf b.scope)) (b.scope.id + 1) rest)
include hd

/-- Attempts are the work that `Grows` describes, if that is so of what is one level deeper. -/
theorem attempts_grows (hsite : site ∈ c.sendsOf a.scope) {ds : List ClassId}
    (hclasses : ∀ d ∈ ds, d ∈ c.receivers t a.scope site) {arms : List (ClassId × Offset)}
    (h : c.attempts t (c.below t n) a site ds next = .ok (arms, f)) :
    c.Grows t n a (.attempts site ds arms) next f := by
  induction ds generalizing next arms f with
  | nil =>
    obtain ⟨rfl, rfl⟩ := Prod.mk.inj (Except.ok.inj h)
    exact .tried
  | cons d ds ih =>
    rw [attempts] at h
    obtain ⟨⟨o, part⟩, hinline, h⟩ := exists_ok_of_bind h
    obtain ⟨⟨arms', rest⟩, hrest, h⟩ := exists_ok_of_bind h
    obtain ⟨rfl, rfl⟩ := Prod.mk.inj (Except.ok.inj h)
    have hgrows := ih (fun x hx => hclasses x (List.mem_cons_of_mem d hx)) hrest
    rcases inline_cases hinline with ⟨rfl, ⟨why, rfl⟩, hwhy⟩ | ⟨e, m, expand, builtin, he, hm,
      hdeep, hdecide, rfl, hexp⟩
    · -- The attempt was given up, and the others go on from the same offset.
      refine .refused why (fun e m k he hm hn => hwhy e m (c.expand t k) he hm ?_) hgrows
      rw [hn, below]
    · -- The attempt succeeded, so there is a level below, and the callee grew there.
      rcases n with _ | k
      · cases hdeep
      · obtain rfl := Option.some.inj hdeep
        obtain ⟨below, rfl, hbelow⟩ := hd k rfl _ part hexp
        have henters : c.Enters t a site d
            ⟨calleeScope t a.scope site e m builtin next, (e.method, e.key.cls) :: a.trail⟩ :=
          ⟨mem_sendsOf.1 hsite, hclasses d List.mem_cons_self, e, m, builtin, he, hm, hdecide, rfl⟩
        exact .enter henters hexp hbelow hgrows

/-- The sends of a scope are resolved one after another, each by its attempts. -/
theorem expandSends_grows {sites : List SendSite}
    (hsites : ∀ site ∈ sites, site ∈ c.sendsOf a.scope)
    (h : c.expandSends t (c.below t n) a sites next = .ok f) :
    c.Grows t n a (.sends sites) next f := by
  induction sites generalizing next f with
  | nil =>
    obtain rfl := Except.ok.inj h
    exact .sent
  | cons site sites ih =>
    rw [expandSends, resolve_eq] at h
    obtain ⟨⟨r, part⟩, hr, h⟩ := exists_ok_of_bind h
    obtain ⟨rest, hrest, h⟩ := exists_ok_of_bind h
    obtain rfl := Except.ok.inj h
    obtain ⟨⟨arms, part'⟩, harms, hr⟩ := exists_ok_of_map hr
    obtain ⟨rfl, rfl⟩ := Prod.mk.inj hr
    have hsite := hsites site List.mem_cons_self
    exact .send hsite (attempts_grows hd hsite (fun _ hd => hd) harms)
      (ih (fun x hx => hsites x (List.mem_cons_of_mem site hx)) hrest)

end Expand

/-- What a scope gives is the scope itself, and what its sends give. -/
theorem expand_grows (n : Nat) (a : Caller) (f : Fragment) (h : c.expand t n a = .ok f) :
    ∃ rest, f = rest.headed a.scope ∧
      c.Grows t n a (.sends (c.sendsOf a.scope)) (a.scope.id + 1) rest := by
  induction n using Nat.strongRecOn generalizing a f with
  | ind n ih =>
    rw [expand_eq, expandWith] at h
    obtain ⟨rest, hrest, h⟩ := exists_ok_of_bind h
    obtain rfl := Except.ok.inj h
    exact ⟨rest, rfl, expandSends_grows (fun k hk => ih k (by omega)) (fun _ hs => hs) hrest⟩

/-- The callees that were inlined are those of classes that were tried, in their order,
    each at the offset of its scope. -/
theorem Grows.arms {ds : List ClassId} {arms : List (ClassId × Offset)}
    (h : c.Grows t n a (.attempts site ds arms) next f) :
    (arms.map (·.1)).Sublist ds ∧
      ∀ x ∈ arms, ∃ i b, f.scopes[i]? = some b.scope ∧ x.2 = next + i ∧
        c.Enters t a site x.1 b := by
  generalize hw : Work.attempts site ds arms = w at h
  induction h generalizing ds arms with
  | tried =>
    cases hw
    exact ⟨.slnil, by rintro _ ⟨⟩⟩
  | refused why _ _ ih =>
    cases hw
    obtain ⟨hsub, harms⟩ := ih rfl
    exact ⟨hsub.cons _, harms⟩
  | @enter n a site' d ds' arms' b f f' henter _ _ _ _ ih =>
    cases hw
    obtain ⟨hsub, harms⟩ := ih rfl
    refine ⟨hsub.cons_cons d, fun x hx => ?_⟩
    -- The first scope is the callee of this attempt. Those of later ones come after all of its own.
    rcases List.mem_cons.1 hx with rfl | hx
    · exact ⟨0, b, rfl, rfl, henter⟩
    · obtain ⟨i, b', hb', hi, henter'⟩ := harms x hx
      refine ⟨(f.headed b.scope).scopes.length + i, b', ?_, by rw [hi, Nat.add_assoc], henter'⟩
      rw [Fragment.scopes_append, List.getElem?_append_right (Nat.le_add_right ..),
        Nat.add_sub_cancel_left, hb']
  | sent => cases hw
  | send => cases hw

end Compiler

end Warmup
