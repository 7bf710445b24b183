import Warmup.Proofs.Run

/-!
# The search for a candidate

A request to recompile goes up the stack step by step: from a block to its home, and from a method
that would be inlined to its caller (`Compiler.Climbs`). Every step leads to an older activation, so
the search ends, at an activation from which it does not go on (`Compiler.Rests`). What was entered
by a super send is then left to its caller (`BelowSupers`), and what is found in this way is decided
on (`Compiler.Selects`).

* `ascend_eq_iff`: the search that takes no more steps than there are older activations finds this
  end;
* `candidate_eq_ok_iff`: the verdict on a request;
* `candidate_recompile`: which activations can be chosen, and when one of them is a block.
-/

namespace Warmup

/-- The activation that has made a context is looked for below a given one only. -/
theorem creator?_lt {stack : List Activation} {x : ContextId} {below i : Nat}
    (h : creator? stack x below = some i) :
    i < below := by
  have hi := List.mem_of_find?_eq_some h
  rw [List.mem_reverse, List.mem_range] at hi
  omega

/-! ## Super sends -/

/-- The activation at a place is there and was entered by a super send. -/
def SuperAt (stack : List Activation) (i : Nat) : Prop := ∃ a, stack[i]? = some a ∧ a.superSend

/-- The activation at a place is there and is one of a block. -/
def BlockAt (stack : List Activation) (i : Nat) : Prop := ∃ a, stack[i]? = some a ∧ a.isBlock

/-- What was entered by super sends, from `i` down, is left to the activation at `j`: the nearest
    one that was not entered so itself, or the oldest one. -/
structure BelowSupers (stack : List Activation) (i j : Nat) : Prop where
  le : j ≤ i
  supers : ∀ k, j < k → k ≤ i → SuperAt stack k
  first : SuperAt stack j → j = 0

theorem any_superSend_iff {stack : List Activation} {i : Nat} :
    stack[i]?.any (·.superSend) ↔ SuperAt stack i := by
  rw [SuperAt]
  rcases stack[i]? with _ | a
  · simp
  · simp

/-- Going down from a super send stops at the first activation that was not entered by one, or at
    the oldest. -/
theorem belowSupers_spec (stack : List Activation) (i : Nat) :
    BelowSupers stack i (Compiler.belowSupers stack i) := by
  induction i with
  | zero => exact ⟨Nat.le_refl 0, fun k hk hk' => absurd hk (Nat.not_lt.2 hk'), fun _ => rfl⟩
  | succ i ih =>
    rw [Compiler.belowSupers]
    split
    · next hsuper =>
      refine ⟨Nat.le_succ_of_le ih.le, fun k hk hk' => ?_, ih.first⟩
      rcases Nat.le_succ_iff.1 hk' with hk' | rfl
      · exact ih.supers k hk hk'
      · exact any_superSend_iff.1 hsuper
    · next hsuper =>
      refine ⟨Nat.le_refl _, fun k hk hk' => absurd hk (Nat.not_lt.2 hk'), fun h => ?_⟩
      exact absurd (any_superSend_iff.2 h) hsuper

theorem BelowSupers.unique {stack : List Activation} {i j j' : Nat} (h : BelowSupers stack i j)
    (h' : BelowSupers stack i j') : j = j' := by
  rcases Nat.lt_trichotomy j j' with hlt | heq | hgt
  · have hzero := h'.first (h.supers j' hlt h'.le)
    omega
  · exact heq
  · have hzero := h.first (h'.supers j hgt h.le)
    omega

theorem belowSupers_iff {stack : List Activation} {i j : Nat} :
    BelowSupers stack i j ↔ Compiler.belowSupers stack i = j :=
  ⟨fun h => (belowSupers_spec stack i).unique h, fun h => h ▸ belowSupers_spec stack i⟩

namespace Compiler

/-- Where a search stands: at an activation, having gone on to some callers, of which some were
    interpreted. -/
structure Position where
  frame : Nat
  crossed : Nat := 0
  interpreted : Nat := 0

section Search

variable (c : Compiler) (stack : List Activation)

/-- A step of the search. -/
inductive Climbs : Position → Position → Prop
  /-- From a block to its home. -/
  | home {i crossed interpreted home : Nat} {a : Activation} (ha : stack[i]? = some a)
    (hblock : a.isBlock) (hhome : (a.home.bind fun x => creator? stack x i) = some home) :
    Climbs ⟨i, crossed, interpreted⟩ ⟨home, crossed, interpreted⟩
  /-- From a method to its caller. -/
  | caller {j crossed interpreted : Nat} {a b : Activation} (ha : stack[j + 1]? = some a)
    (hblock : ¬a.isBlock)
    (hinlines : c.inlinesActivation a = .ok true)
      (hcrossed : crossed + 1 ≤ c.settings.recompile.maxCrossed.toNat)
    (hb : stack[j]? = some b) (hmay : c.maySearch b interpreted) :
    Climbs ⟨j + 1, crossed, interpreted⟩
      ⟨j, crossed + 1, if b.isCompiled then interpreted else interpreted + 1⟩

/-- The end of a search that stands at a position: it goes on to no other one. -/
inductive Rests : Position → Except Fault Ascent → Prop
  /-- The home of a block is not on the stack. -/
  | orphan {i crossed interpreted : Nat} {a : Activation} (ha : stack[i]? = some a)
    (hblock : a.isBlock) (hhome : (a.home.bind fun x => creator? stack x i) = none) :
    Rests ⟨i, crossed, interpreted⟩ (.ok (.orphan (c.orphanHome a)))
  /-- There is no caller. -/
  | oldest {crossed interpreted : Nat} {a : Activation} (ha : stack[0]? = some a)
    (hblock : ¬a.isBlock) : Rests ⟨0, crossed, interpreted⟩ (.ok (.frame 0))
  /-- The method would not be inlined, or the search may not go on to the caller. -/
  | stays {j crossed interpreted : Nat} {a b : Activation} {inlines : Bool}
    (ha : stack[j + 1]? = some a)
    (hblock : ¬a.isBlock) (hinlines : c.inlinesActivation a = .ok inlines) (hb : stack[j]? = some b)
    (hstays : ¬(inlines ∧ crossed + 1 ≤ c.settings.recompile.maxCrossed.toNat ∧
      c.maySearch b interpreted)) :
    Rests ⟨j + 1, crossed, interpreted⟩ (.ok (.frame (j + 1)))
  /-- It cannot be said whether the method would be inlined. -/
  | fault {j crossed interpreted : Nat} {a : Activation} {f : Fault} (ha : stack[j + 1]? = some a)
    (hblock : ¬a.isBlock) (hinlines : c.inlinesActivation a = .error f) :
    Rests ⟨j + 1, crossed, interpreted⟩ (.error f)

/-- The search from an activation on ends in this way. -/
def Ends (start : Nat) (r : Except Fault Ascent) : Prop :=
  ∃ q, Relation.ReflTransGen (c.Climbs stack) ⟨start, 0, 0⟩ q ∧ c.Rests stack q r

/-- A request by the activation at `start` is decided on by the activation at `j`. -/
def Selects (start j : Nat) : Prop :=
  ∃ i, c.Ends stack start (.ok (.frame i)) ∧ BelowSupers stack i j

end Search

variable {c : Compiler} {stack : List Activation} {p q : Position} {r : Except Fault Ascent}
  {start i j steps : Nat}

/-! ## The search ends -/

/-- Every step leads to an older activation. This is why the search ends. -/
theorem Climbs.lt (h : c.Climbs stack p q) : q.frame < p.frame := by
  cases h with
  | home ha hblock hhome =>
    obtain ⟨x, -, hcreator⟩ := Option.bind_eq_some_iff.1 hhome
    exact creator?_lt hcreator
  | caller => exact Nat.lt_succ_self _

theorem Climbs.lt_length (h : c.Climbs stack p q) : p.frame < stack.length := by
  cases h with
  | home ha => exact (List.getElem?_eq_some_iff.1 ha).1
  | caller ha => exact (List.getElem?_eq_some_iff.1 ha).1

/-- A search cannot go on for ever, since every step leads to an older activation. -/
theorem wellFounded_climbs (c : Compiler) (stack : List Activation) :
    WellFounded fun q p => c.Climbs stack p q :=
  Subrelation.wf Climbs.lt (measure Position.frame).wf

/-- A search goes on, or has ended. -/
theorem exists_climbs_or_rests (c : Compiler) (h : p.frame < stack.length) :
    (∃ q, c.Climbs stack p q) ∨ ∃ r, c.Rests stack p r := by
  obtain ⟨i, crossed, interpreted⟩ := p
  have ha := List.getElem?_eq_getElem h
  generalize stack[i] = a at ha
  by_cases hblock : a.isBlock
  · rcases hhome : (a.home.bind fun x => creator? stack x i) with _ | home
    · exact .inr ⟨_, .orphan ha hblock hhome⟩
    · exact .inl ⟨_, .home ha hblock hhome⟩
  · cases i with
    | zero => exact .inr ⟨_, .oldest ha hblock⟩
    | succ j =>
      rcases hinlines : c.inlinesActivation a with f | inlines
      · exact .inr ⟨_, .fault ha hblock hinlines⟩
      · obtain ⟨b, hb⟩ : ∃ b, stack[j]? = some b :=
          ⟨_, List.getElem?_eq_getElem (Nat.lt_of_succ_lt h)⟩
        -- A method has a caller here, so it depends on the three conditions for going on.
        by_cases hgo : inlines ∧ crossed + 1 ≤ c.settings.recompile.maxCrossed.toNat ∧
          c.maySearch b interpreted
        · obtain ⟨rfl, hcrossed, hmay⟩ := hgo
          exact .inl ⟨_, .caller ha hblock hinlines hcrossed hb hmay⟩
        · exact .inr ⟨_, .stays ha hblock hinlines hb hgo⟩

/-- From every activation the search gets to an end. -/
theorem exists_rests (c : Compiler) (h : p.frame < stack.length) :
    ∃ q r, Relation.ReflTransGen (c.Climbs stack) p q ∧ c.Rests stack q r := by
  induction p using (wellFounded_climbs c stack).induction with
  | _ p ih =>
    rcases exists_climbs_or_rests c h with ⟨p', hclimbs⟩ | ⟨r, hrests⟩
    · obtain ⟨q, r, hpath, hrests⟩ := ih p' hclimbs (Nat.lt_trans hclimbs.lt h)
      exact ⟨q, r, .head hclimbs hpath, hrests⟩
    · exact ⟨p, r, .refl, hrests⟩

/-! ## What is computed is the end -/

theorem ascend_of_climbs (h : c.Climbs stack p q) (steps : Nat) :
    c.ascend stack (steps + 1) p.frame p.crossed p.interpreted =
      c.ascend stack steps q.frame q.crossed q.interpreted := by
  cases h with
  | home ha hblock hhome =>
    rw [ascend]
    simp only [ha, hblock, hhome, if_true]
  | caller ha hblock hinlines hcrossed hb hmay =>
    rw [ascend]
    simp only [ha, hblock, hinlines, hb, hmay, Option.filter_some, if_true, bind, Except.bind]
    simp [Nat.not_lt.2 hcrossed]

/-- The function stops where the search ends. -/
theorem ascend_of_rests (h : c.Rests stack p r) (steps : Nat) :
    c.ascend stack (steps + 1) p.frame p.crossed p.interpreted = r := by
  cases h with
  | orphan ha hblock hhome =>
    rw [ascend]
    simp only [ha, hblock, hhome, if_true]
  | oldest ha hblock =>
    rw [ascend]
    simp [ha, hblock]
  | @stays j crossed interpreted a b inlines ha hblock hinlines hb hstays =>
    rw [ascend]
    simp only [ha, hblock, hinlines, hb, bind, Except.bind]
    by_cases hfar : c.settings.recompile.maxCrossed.toNat < crossed + 1
    · simp [hfar, pure, Except.pure]
    · have hmay : inlines = true → c.maySearch b interpreted = false := by
        simpa [Nat.not_lt.1 hfar] using hstays
      cases inlines with
      | false => simp [pure, Except.pure]
      | true => simp [hfar, hmay rfl, Option.filter_some, pure, Except.pure]
  | fault ha hblock hinlines =>
    rw [ascend]
    simp [ha, hblock, hinlines, bind, Except.bind]

/-- With more steps than there are older activations the function gets to the end of the search. -/
theorem ascend_of_path (h : Relation.ReflTransGen (c.Climbs stack) p q) (hr : c.Rests stack q r)
    (hsteps : p.frame < steps) : c.ascend stack steps p.frame p.crossed p.interpreted = r := by
  induction h using Relation.ReflTransGen.head_induction_on generalizing steps with
  | refl =>
    obtain ⟨steps, rfl⟩ := Nat.exists_eq_succ_of_ne_zero (Nat.ne_zero_of_lt hsteps)
    exact ascend_of_rests hr steps
  | head hclimbs _ ih =>
    obtain ⟨steps, rfl⟩ := Nat.exists_eq_succ_of_ne_zero (Nat.ne_zero_of_lt hsteps)
    rw [ascend_of_climbs hclimbs]
    exact ih (Nat.lt_of_lt_of_le hclimbs.lt (Nat.lt_succ_iff.1 hsteps))

/-- A search that may take more steps than there are older activations comes to its end. -/
theorem ascend_eq_iff (hstart : start < stack.length) (hsteps : start < steps) :
    c.ascend stack steps start 0 0 = r ↔ c.Ends stack start r := by
  constructor
  · rintro rfl
    obtain ⟨q, r, hpath, hrests⟩ := exists_rests (p := ⟨start, 0, 0⟩) c hstart
    refine ⟨q, hpath, ?_⟩
    rw [show c.ascend stack steps start 0 0 = r from ascend_of_path hpath hrests hsteps]
    exact hrests
  · rintro ⟨q, hpath, hrests⟩
    exact ascend_of_path hpath hrests hsteps

/-! ## Where it ends -/

theorem Ends.lt_length (h : c.Ends stack start r) : start < stack.length := by
  obtain ⟨q, hpath, hrests⟩ := h
  rcases Relation.ReflTransGen.cases_head hpath with rfl | ⟨p, hclimbs, -⟩
  · cases hrests with
    | orphan ha => exact (List.getElem?_eq_some_iff.1 ha).1
    | oldest ha => exact (List.getElem?_eq_some_iff.1 ha).1
    | stays ha => exact (List.getElem?_eq_some_iff.1 ha).1
    | fault ha => exact (List.getElem?_eq_some_iff.1 ha).1
  · exact hclimbs.lt_length

/-- The search never leads to a newer activation. -/
theorem frame_le_of_path (h : Relation.ReflTransGen (c.Climbs stack) p q) : q.frame ≤ p.frame := by
  induction h with
  | refl => exact Nat.le_refl _
  | tail _ hclimbs ih => exact Nat.le_trans (Nat.le_of_lt hclimbs.lt) ih

/-- The activation at which a search ends is no newer than the first one, and no block. -/
theorem Ends.frame (h : c.Ends stack start (.ok (.frame i))) :
    i ≤ start ∧ ¬BlockAt stack i := by
  obtain ⟨q, hpath, hrests⟩ := h
  have hle := frame_le_of_path hpath
  have hnot {a : Activation} {k : Nat} (ha : stack[k]? = some a) (hblock : ¬a.isBlock) :
      ¬BlockAt stack k := by
    rintro ⟨b, hb, hbblock⟩
    obtain rfl : a = b := Option.some.inj (ha.symm.trans hb)
    exact hblock hbblock
  cases hrests with
  | oldest ha hblock => exact ⟨hle, hnot ha hblock⟩
  | stays ha hblock => exact ⟨hle, hnot ha hblock⟩

/-- One activation is selected at most. -/
theorem Selects.unique (h : c.Selects stack start j) (h' : c.Selects stack start i) : j = i := by
  obtain ⟨k, hends, hbelow⟩ := h
  obtain ⟨k', hends', hbelow'⟩ := h'
  have hascend := (ascend_eq_iff hends.lt_length (Nat.lt_succ_self start)).2 hends
  have hascend' := (ascend_eq_iff hends.lt_length (Nat.lt_succ_self start)).2 hends'
  obtain rfl : k = k' := Ascent.frame.inj (Except.ok.inj (hascend.symm.trans hascend'))
  exact hbelow.unique hbelow'

/-! ## Verdicts -/

/-- The verdict on the activation at `j`, by the level of the code to come. -/
def verdictOn (c : Compiler) (j : Nat) (a : Activation) : Except Refusal Nat → Verdict
  | .ok level => .recompile ⟨j, a.key, a.method, c.code.current? a.key, level⟩
  | .error why => .declined why

variable {t : ProcessTable} {pid : ProcessId} {trigger : Trigger} {v : Verdict}

theorem frame_eq_ok_iff_getElem? {a : Activation} (hstack : t.stack pid = .ok stack) :
    t.frame pid i = .ok a ↔ stack[i]? = some a := by
  rw [ProcessTable.frame, hstack]
  rcases hi : stack[i]? with _ | b
  · simp [hi, bind, Except.bind]
  · simp [hi, bind, Except.bind]

/-- The verdict on a request is the one on the activation that is selected, or it is put off since
    the home of a block is not on the stack. -/
theorem candidate_eq_ok_iff (hstack : t.stack pid = .ok stack) :
    c.candidate t pid start trigger = .ok v ↔
      (∃ home, c.Ends stack start (.ok (.orphan home)) ∧ v = .deferred home) ∨
        ∃ j a level, c.Selects stack start j ∧ stack[j]? = some a ∧
          c.nextLevel a.key trigger = .ok level ∧ v = c.verdictOn j a level := by
  constructor
  · intro h
    rw [candidate] at h
    obtain ⟨_, hstack', h⟩ := exists_ok_of_bind h
    obtain rfl := Except.ok.inj (hstack.symm.trans hstack')
    obtain ⟨a₀, ha₀, h⟩ := exists_ok_of_bind h
    obtain ⟨ascent, hascent, h⟩ := exists_ok_of_bind h
    have hstart := (List.getElem?_eq_some_iff.1 ((frame_eq_ok_iff_getElem? hstack).1 ha₀)).1
    have hends := (ascend_eq_iff hstart (Nat.lt_succ_self start)).1 hascent
    cases ascent with
    | orphan home => exact .inl ⟨home, hends, (Except.ok.inj h).symm⟩
    -- The search has ended at an activation, and what was entered by super sends is left to its
    -- callers.
    | frame i =>
      obtain ⟨a, ha, h⟩ := exists_ok_of_bind h
      obtain ⟨level, hlevel, h⟩ := exists_ok_of_bind h
      have ha' := (frame_eq_ok_iff_getElem? hstack).1 ha
      refine .inr ⟨_, a, level, ⟨i, hends, belowSupers_spec stack i⟩, ha', hlevel, ?_⟩
      rcases level with why | level
      · exact (Except.ok.inj h).symm
      · exact (Except.ok.inj h).symm
  · intro h
    -- A search that ends has started at an activation.
    have hstart : start < stack.length := by
      rcases h with ⟨home, hends, -⟩ | ⟨j, a, level, ⟨i, hends, -⟩, -⟩
      · exact hends.lt_length
      · exact hends.lt_length
    have ha₀ := (frame_eq_ok_iff_getElem? hstack).2 (List.getElem?_eq_getElem hstart)
    have hascend {r : Except Fault Ascent} (hends : c.Ends stack start r) :
        c.ascend stack (start + 1) start 0 0 = r :=
      (ascend_eq_iff hstart (Nat.lt_succ_self start)).2 hends
    rw [candidate, hstack]
    rcases h with ⟨home, hends, rfl⟩ | ⟨j, a, level, ⟨i, hends, hbelow⟩, ha, hlevel, rfl⟩
    · simp only [ha₀, hascend hends, bind, Except.bind, pure, Except.pure]
    · obtain rfl := belowSupers_iff.1 hbelow
      simp only [ha₀, hascend hends, (frame_eq_ok_iff_getElem? hstack).2 ha, hlevel,
        bind, Except.bind, pure, Except.pure]
      rcases level with why | level
      · rfl
      · rfl

/-- No search goes on for ever, whatever the links from blocks to their homes are, and the number of
    steps that it is given is enough. The activation that is chosen is no newer than the one that
    asks, and was entered by a super send only if it is the oldest one. It is one of a block exactly
    if the search has ended at a super send above a block, with nothing but super sends between
    them. -/
theorem candidate_recompile (c : Compiler) (t : ProcessTable) (pid : ProcessId) (start : Nat)
    (trigger : Trigger) :
    (∀ stack, WellFounded fun q p => c.Climbs stack p q) ∧
    (∀ stack, start < stack.length →
      ∃ r, c.Ends stack start r ∧ ∀ steps, start < steps → c.ascend stack steps start 0 0 = r) ∧
    ∀ choice, c.candidate t pid start trigger = .ok (.recompile choice) →
      ∃ stack i a, t.stack pid = .ok stack ∧ c.Ends stack start (.ok (.frame i)) ∧
        stack[choice.frame]? = some a ∧ choice.frame ≤ start ∧ (a.superSend → choice.frame = 0) ∧
        (a.isBlock ↔
          ∃ j < i, BlockAt stack j ∧ (∀ k, j < k → k ≤ i → SuperAt stack k) ∧
            (SuperAt stack j → j = 0)) := by
  refine ⟨wellFounded_climbs c, fun stack hstart => ?_, fun choice h => ?_⟩
  · refine ⟨_, (ascend_eq_iff hstart (Nat.lt_succ_self start)).1 rfl, fun steps hsteps => ?_⟩
    exact (ascend_eq_iff hstart hsteps).2 ((ascend_eq_iff hstart (Nat.lt_succ_self start)).1 rfl)
  · obtain ⟨stack, hstack, -⟩ := exists_ok_of_bind h
    rcases (candidate_eq_ok_iff hstack).1 h with ⟨home, -, hv⟩ | ⟨j, a, level, hselects, ha, -, hv⟩
    · cases hv
    · rcases level with why | level
      · cases hv
      · obtain rfl := Verdict.recompile.inj hv
        obtain ⟨i, hends, hbelow⟩ := hselects
        obtain ⟨hle, hmethod⟩ := hends.frame
        refine ⟨stack, i, a, hstack, hends, ha, Nat.le_trans hbelow.le hle,
          fun hsuper => hbelow.first ⟨a, ha, hsuper⟩, ?_⟩
        constructor
        · -- The search has not ended at a block, so the block is below its end.
          intro hblock
          refine ⟨j, Nat.lt_of_le_of_ne hbelow.le fun heq => ?_, ⟨a, ha, hblock⟩,
            hbelow.supers, hbelow.first⟩
          exact hmethod (heq ▸ ⟨a, ha, hblock⟩)
        · rintro ⟨j', hlt, ⟨b, hb, hblock⟩, hsupers, hfirst⟩
          obtain rfl := hbelow.unique ⟨Nat.le_of_lt hlt, hsupers, hfirst⟩
          obtain rfl : a = b := Option.some.inj (ha.symm.trans hb)
          exact hblock

/-- A method with a block that makes a super send to a larger method. The activation of that method
    stands on the one of the block, and this on its home. -/
def superSendOfBlock : List Event := [
  .defineClass "Shape" (some ⟨0⟩), .defineClass "Square" (some ⟨9⟩),
  .replace ⟨10⟩ { selector := ⟨0⟩, steps := [.work 100] },
  .addBlock ⟨0⟩ { selector := ⟨1⟩, steps := [.superSend ⟨2⟩ []] },
  .replace ⟨9⟩ { selector := ⟨2⟩, steps := [.work 100] },
  .setProcesses {
    callStacks := [[{ key := .send ⟨10⟩ ⟨0⟩, method := ⟨0⟩, own := some ⟨0⟩ },
      { key := .given ⟨8⟩ ⟨1⟩, method := ⟨1⟩, isBlock := true, home := some ⟨0⟩ },
      { key := .send ⟨10⟩ ⟨2⟩, method := ⟨2⟩, superSend := true }]]
    contexts := [⟨⟨0⟩, false, true⟩] }]

/-- The block is chosen, although its home is on the stack. -/
theorem candidate_superSendOfBlock :
    let e := (Engine.startWith {} .initial).run superSendOfBlock
    e.compiler.candidate e.processes ⟨0⟩ 2 .counter =
      .ok (.recompile ⟨1, .given ⟨8⟩ ⟨1⟩, ⟨1⟩, none, 1⟩) ∧
      (e.processes.frame? (⟨0⟩, 1)).any (·.isBlock) ∧ e.processes.homeFrame ⟨0⟩ 1 = .ok (some 0) :=
  ⟨rfl, rfl, rfl⟩

/-- The search ends at the super send, and the block is below it. -/
theorem candidate_recompile_superSendOfBlock : ∃ e choice stack i a,
    e = (Engine.startWith {} .initial).run superSendOfBlock ∧
    e.compiler.candidate e.processes ⟨0⟩ 2 .counter = .ok (.recompile choice) ∧ choice.frame = 1 ∧
    e.processes.stack ⟨0⟩ = .ok stack ∧ e.compiler.Ends stack 2 (.ok (.frame i)) ∧
      stack[choice.frame]? = some a ∧
    choice.frame ≤ 2 ∧ (a.superSend → choice.frame = 0) ∧ a.isBlock ∧
    ∃ j < i, BlockAt stack j ∧ (∀ k, j < k → k ≤ i → SuperAt stack k) ∧
      (SuperAt stack j → j = 0) := by
  obtain ⟨e, he⟩ : ∃ e, e = (Engine.startWith {} .initial).run superSendOfBlock := ⟨_, rfl⟩
  have hcandidate : e.compiler.candidate e.processes ⟨0⟩ 2 .counter =
      .ok (.recompile ⟨1, .given ⟨8⟩ ⟨1⟩, ⟨1⟩, none, 1⟩) := by
    rw [he]
    rfl
  obtain ⟨-, -, hchoice⟩ := candidate_recompile e.compiler e.processes ⟨0⟩ 2 .counter
  obtain ⟨stack, i, a, hstack, hends, ha, hle, hsuper, hblock⟩ := hchoice _ hcandidate
  have hisBlock : a.isBlock := by
    rw [he] at hstack
    obtain rfl := Except.ok.inj hstack
    obtain rfl := Option.some.inj ha
    rfl
  exact ⟨e, _, stack, i, a, he, hcandidate, rfl, hstack, hends, ha, hle, hsuper,
    hisBlock, hblock.1 hisBlock⟩

end Compiler

end Warmup
