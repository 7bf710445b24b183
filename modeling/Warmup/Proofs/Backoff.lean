import Warmup.Proofs.TrapLog

/-!
# Backoff

The more often code of a key was given up for its traps, the more invocations it takes until the key
is compiled again: the limit doubles with the exponent of the key. This module says which limit
belongs to an exponent (`Settings.invocationLimit_eq_ok_iff`), that there is none if the exponent
and the largest one are 32 or more, and that events only raise exponents (`Engine.BacksOff`). So
limits are never lowered in a run, but the invocations of a key that has trapped 32 times fail if
the settings allow that exponent (`Engine.limits_of_attained`). -/

namespace Warmup

namespace Settings

variable {s : Settings} {b b' limit limit' : Nat}

/-- The limit doubles with the exponent up to the largest word, and the exponent counts only up to
    the largest one. There is a limit if this is less than the width of the word. -/
theorem invocationLimit_eq_ok_iff :
    s.invocationLimit b = .ok limit ↔ min b s.recompile.maxBackoff.toNat < 32 ∧
    limit = min (Word.size 32 - 1)
      (s.recompile.invocationLimit.toNat * Word.size (min b s.recompile.maxBackoff.toNat)) := by
  rw [invocationLimit, Word.saturate, Nat.min_comm (Word.size 32 - 1)]
  split
  · next h => simp [h, eq_comm]
  · next h => simp [h]

/-- An exponent has a limit unless both it and the largest exponent are 32 or more. -/
theorem exists_invocationLimit_iff :
    (∃ limit, s.invocationLimit b = .ok limit) ↔ b < 32 ∨ s.recompile.maxBackoff.toNat < 32 := by
  simp only [invocationLimit_eq_ok_iff, exists_and_left, exists_eq, and_true]
  omega

/-- Shifting by 32 bits or more fails. -/
theorem invocationLimit_of_large (hb : 32 ≤ b) (hmax : 32 ≤ s.recompile.maxBackoff.toNat) :
    s.invocationLimit b = .error .overflow := by
  rw [invocationLimit]
  exact if_neg (by omega)

/-- The limit of the settings is a word, and a power of two is at least one. -/
theorem le_of_invocationLimit (h : s.invocationLimit b = .ok limit) :
    s.recompile.invocationLimit.toNat ≤ limit := by
  obtain ⟨-, rfl⟩ := invocationLimit_eq_ok_iff.1 h
  refine Nat.le_min.2 ⟨?_, Nat.le_mul_of_pos_right _ (Nat.pow_pos (by decide))⟩
  have hword : s.recompile.invocationLimit.toNat < Word.size 32 :=
    s.recompile.invocationLimit.toNat_lt
  omega

theorem lt_of_invocationLimit (h : s.invocationLimit b = .ok limit) : limit < Word.size 32 := by
  obtain ⟨-, rfl⟩ := invocationLimit_eq_ok_iff.1 h
  exact Nat.lt_of_le_of_lt (Nat.min_le_left _ _) (by decide)

/-- A larger exponent never has a smaller limit. -/
theorem invocationLimit_mono (hle : b ≤ b') (h : s.invocationLimit b = .ok limit)
    (h' : s.invocationLimit b' = .ok limit') : limit ≤ limit' := by
  obtain ⟨-, rfl⟩ := invocationLimit_eq_ok_iff.1 h
  obtain ⟨-, rfl⟩ := invocationLimit_eq_ok_iff.1 h'
  have hsize : Word.size (min b s.recompile.maxBackoff.toNat) ≤
      Word.size (min b' s.recompile.maxBackoff.toNat) :=
    Nat.pow_le_pow_right (by decide) (by omega)
  have hproduct := Nat.mul_le_mul_left s.recompile.invocationLimit.toNat hsize
  omega

end Settings

namespace Engine

variable {s : Settings} {e e' e'' : Engine} {p : ProcessId} {i : Nat}

/-- Exponents go up, and not beyond the largest one. -/
structure BacksOff (e e' : Engine) : Prop where
  settings : e'.settings = e.settings
  backoff : ∀ k, e.traps.backoff k ≤ e.settings.recompile.maxBackoff.toNat →
    e.traps.backoff k ≤ e'.traps.backoff k ∧
    e'.traps.backoff k ≤ e.settings.recompile.maxBackoff.toNat

/-- What leaves the settings and the exponents alone does not lower any. -/
theorem BacksOff.of_eq (hsettings : e'.settings = e.settings)
    (htraps : e'.traps.backoffs = e.traps.backoffs) :
    e.BacksOff e' := by
  refine ⟨hsettings, fun k hk => ?_⟩
  have hsame : e'.traps.backoff k = e.traps.backoff k := by
    rw [TrapHistory.backoff, htraps, TrapHistory.backoff]
  rw [hsame]
  exact ⟨Nat.le_refl _, hk⟩

theorem BacksOff.trans (h : e.BacksOff e') (h' : e'.BacksOff e'') : e.BacksOff e'' where
  settings := h'.settings.trans h.settings
  backoff k hk := by
    obtain ⟨hle, hmax⟩ := h.backoff k hk
    obtain ⟨hle', hmax'⟩ := h'.backoff k (h.settings ▸ hmax)
    exact ⟨Nat.le_trans hle hle', h.settings ▸ hmax'⟩

/-- Recompiling code, and whatever else follows an event, raises no exponent. -/
theorem Chore.backsOff (h : e.Chore false e') : e.BacksOff e' := by
  cases h with
  | aside => exact .of_eq rfl rfl
  | link => exact .of_eq rfl rfl
  | install => exact .of_eq rfl rfl
  | count => exact .of_eq rfl rfl
  | patch h => cases h
  | invalidate h => cases h

theorem Upkeep.backsOff (h : e.Upkeep false e') : e.BacksOff e' :=
  h.induction (P := e.BacksOff) (fun _ _ hchore he => he.trans hchore.backsOff) (.of_eq rfl rfl)

/-- If code is given up, the exponent of its key goes up by one, up to the largest. -/
theorem backsOff_fire (e : Engine) (p : ProcessId) (i trap : Nat) :
    e.BacksOff (e.fire p i trap).state := by
  rcases e.fire_cases p i trap with ⟨f, hfire⟩ | ⟨n, site, hfiring, hfit⟩
  · rw [hfire]
    exact .of_eq rfl rfl
  · rw [fire_eq hfiring hfit]
    refine ⟨rest_mark.1, fun k hk => ?_⟩
    simp only [backoff_mark]
    split
    · omega
    · exact ⟨Nat.le_refl _, hk⟩

/-- No event lowers the exponent of a key. -/
theorem backsOff_step (e : Engine) (ev : Event) : e.BacksOff (e.step ev) := by
  have huntrapped {e' : Engine} (h : e.Untrapped e') : e.BacksOff e' := .of_eq h.settings h.backoffs
  -- Only traps give code up. Sends, replacements and cleanups do not touch exponents, nor does
  -- upkeep.
  by_cases hsteady : ev.isSteady
  · rcases e.upkeep_step hsteady with hupkeep | ⟨t, -, -, -, hstep⟩
    · exact hupkeep.backsOff
    · rw [hstep]
      exact .of_eq rfl rfl
  · cases ev with
    | send place r => exact huntrapped (e.untrapped_send place r)
    | trap p i trap =>
      exact (e.backsOff_fire p i trap).trans (e.upkeep_fire_uncommonTrap p i trap).backsOff
    | replace c d => exact huntrapped (.orElse fun e' m => untrapped_replaceMethod)
    | cleanup => exact huntrapped e.untrapped_cleanup
    | _ => exact absurd rfl hsteady

theorem backsOff_run (e : Engine) (events : List Event) : e.BacksOff (e.run events) := by
  induction events generalizing e with
  | nil => exact .of_eq rfl rfl
  | cons ev events ih => exact (e.backsOff_step ev).trans (ih (e.step ev))

/-- Settings stay what they are, and no exponent goes beyond the largest one. -/
theorem Attained.backoff_le (h : Attained s e) :
    e.settings = s ∧ ∀ k, e.traps.backoff k ≤ s.recompile.maxBackoff.toNat := by
  induction h with
  | start t => exact ⟨rfl, fun k => Nat.zero_le _⟩
  | @step e _ ev ih =>
    obtain ⟨rfl, hle⟩ := ih
    have hstep := e.backsOff_step ev
    exact ⟨hstep.settings, fun k => (hstep.backoff k (hle k)).2⟩
  | define _ t ih => exact ih

/-- An activation of a key that has no limit cannot be invoked. -/
theorem invoke_of_large {a : Activation} (ha : e.processes.frame? (p, i) = some a)
    (hb : 32 ≤ e.traps.backoff a.key) (hmax : 32 ≤ e.settings.recompile.maxBackoff.toNat) :
    e.invoke p i = .fail e .overflow := by
  rw [invoke]
  simp only [ProcessTable.frame_eq_ok_iff.2 ha, Settings.invocationLimit_of_large hb hmax,
    bind, Except.bind]

/-! ## Main result -/

/-- The limit that belongs to an exponent is the one of the settings times a power of two, up to the
    largest word; it is at least the one of the settings, and grows with the exponent. There is none
    exactly if both the exponent and the largest one are 32 or more. In a run no exponent and no
    limit is ever lowered, and no exponent goes beyond the largest one. So a key is without a limit
    once its exponent is 32, and its activations cannot be invoked from then on. -/
theorem limits_of_attained (h : Attained s e) (events : List Event) :
    let largest := s.recompile.maxBackoff.toNat
    let e' := e.run events
    (∀ b, (∃ limit, s.invocationLimit b = .ok limit) ↔ b < 32 ∨ largest < 32) ∧
    (∀ b limit, s.invocationLimit b = .ok limit →
      limit = min (Word.size 32 - 1) (s.recompile.invocationLimit.toNat *
        Word.size (min b largest)) ∧ s.recompile.invocationLimit.toNat ≤ limit) ∧
    (∀ b b' limit limit', b ≤ b' → s.invocationLimit b = .ok limit →
      s.invocationLimit b' = .ok limit' → limit ≤ limit') ∧
    (e'.settings = s ∧ ∀ k, e.traps.backoff k ≤ e'.traps.backoff k ∧ e'.traps.backoff k ≤ largest ∧
      ((∃ limit, s.invocationLimit (e'.traps.backoff k) = .ok limit) ↔ e'.traps.backoff k < 32) ∧
      ∀ limit limit', s.invocationLimit (e.traps.backoff k) = .ok limit →
        s.invocationLimit (e'.traps.backoff k) = .ok limit' → limit ≤ limit') ∧
    ∀ p i a, e'.processes.frame? (p, i) = some a → 32 ≤ e'.traps.backoff a.key →
      e'.invoke p i = .fail e' .overflow := by
  intro largest e'
  obtain ⟨hsettings', hle'⟩ := (h.run events).backoff_le
  have hle := h.backoff_le.2
  refine ⟨fun b => Settings.exists_invocationLimit_iff, fun b limit hlimit => ?_,
    fun b b' limit limit' => Settings.invocationLimit_mono, ⟨hsettings', fun k => ?_⟩,
    fun p i a ha hb => ?_⟩
  · exact ⟨(Settings.invocationLimit_eq_ok_iff.1 hlimit).2, Settings.le_of_invocationLimit hlimit⟩
  · -- The exponent stays below the largest one, so it alone decides.
    have hgrows : e.traps.backoff k ≤ e'.traps.backoff k :=
      ((e.backsOff_run events).backoff k (h.backoff_le.1 ▸ hle k)).1
    refine ⟨hgrows, hle' k, ?_, fun limit limit' => Settings.invocationLimit_mono hgrows⟩
    rw [Settings.exists_invocationLimit_iff]
    have hk : e'.traps.backoff k ≤ s.recompile.maxBackoff.toNat := hle' k
    omega
  · exact invoke_of_large ha hb (hsettings' ▸ Nat.le_trans hb (hle' a.key))

/-- Settings that allow an exponent without a limit. One firing gives up code, and code that was
    given up is not compiled again by itself. -/
def farBackoff : Settings :=
  { recompile := { maxBackoff := 32, maxVersions := 1 }, traps := { threshold := 1 } }

/-- A method with a trap is compiled 32 times, and each version is run by a process of its own. All
    of these get to the trap but the first one. -/
def trapsOfVersions : List Event :=
  [.replace ⟨0⟩ { selector := ⟨0⟩, steps := [.work 1] },
    .replace ⟨0⟩ { selector := ⟨1⟩, argCount := 1, steps := [.send ⟨0⟩ (.arg 0) []] }, .link ⟨1⟩] ++
  List.replicate 32 (.compile (.send ⟨0⟩ ⟨1⟩)) ++
  [.setProcesses { callStacks := (List.range 32).map fun i =>
    [{ key := .send ⟨0⟩ ⟨1⟩, method := ⟨1⟩, execution := .compiled ⟨i⟩ 0 }] }] ++
  (List.range 31).map fun i => .trap ⟨i + 1⟩ 0 0

/-- One more trap takes the exponent of a running method to 32. -/
theorem backoff_trapsOfVersions :
    ∃ e : Engine, e = (startWith farBackoff .initial).run trapsOfVersions ∧
    e.traps.backoff (.send ⟨0⟩ ⟨1⟩) = 31 ∧
      (e.run [.trap ⟨0⟩ 0 0]).traps.backoff (.send ⟨0⟩ ⟨1⟩) = 32 ∧
    ((e.run [.trap ⟨0⟩ 0 0]).processes.frame? (⟨0⟩, 0)).map (·.key) = some (.send ⟨0⟩ ⟨1⟩) :=
  ⟨_, rfl, by decide +kernel⟩

/-- The trap of the first process takes the limit away from the method. -/
theorem limits_trapsOfVersions : ∃ e a, Attained farBackoff e ∧
    e.traps.backoff (.send ⟨0⟩ ⟨1⟩) = 31 ∧ (∃ limit, farBackoff.invocationLimit 31 = .ok limit) ∧
    (e.run [.trap ⟨0⟩ 0 0]).processes.frame? (⟨0⟩, 0) = some a ∧
      32 ≤ (e.run [.trap ⟨0⟩ 0 0]).traps.backoff a.key ∧
    (e.run [.trap ⟨0⟩ 0 0]).invoke ⟨0⟩ 0 = .fail (e.run [.trap ⟨0⟩ 0 0]) .overflow := by
  obtain ⟨e, he, hbefore, hafter, hkey⟩ := backoff_trapsOfVersions
  have hattained : Attained farBackoff e := he ▸ (Attained.start .initial).run trapsOfVersions
  obtain ⟨hexists, -, -, -, hfails⟩ := limits_of_attained hattained [.trap ⟨0⟩ 0 0]
  obtain ⟨a, ha, hkey⟩ := Option.map_eq_some_iff.1 hkey
  have hlarge : 32 ≤ (e.run [.trap ⟨0⟩ 0 0]).traps.backoff a.key := by rw [hkey, hafter]
  exact ⟨e, a, hattained, hbefore, (hexists 31).2 (.inl (by decide)), ha, hlarge,
    hfails ⟨0⟩ 0 a ha hlarge⟩

/-- These settings pass the validation, but a key may be left without a limit. -/
theorem valid_farBackoff :
    farBackoff.validate = .ok farBackoff ∧ farBackoff.invocationLimit 32 = .error .overflow ∧
    ∃ e, e = (startWith farBackoff .initial).run (trapsOfVersions ++ [.trap ⟨0⟩ 0 0]) ∧
      e.invoke ⟨0⟩ 0 = .fail e .overflow := by
  obtain ⟨e, he, -, hafter, hkey⟩ := backoff_trapsOfVersions
  obtain ⟨a, ha, hkey⟩ := Option.map_eq_some_iff.1 hkey
  refine ⟨by decide, by decide, e.run [.trap ⟨0⟩ 0 0], ?_, invoke_of_large ha ?_ ?_⟩
  · rw [he, run, run, run, List.foldl_append]
  · rw [hkey, hafter]
  · rw [(e.backsOff_run _).settings, he, ((startWith farBackoff .initial).backsOff_run _).settings]
    decide

end Engine

end Warmup
