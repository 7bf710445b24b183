import Mathlib.Logic.Relation
import Warmup.Engine.Trap
import Warmup.Proofs.Cascade
import Warmup.Proofs.CodeVersions

/-!
# Upkeep

Links, invocations, compilations and traps send nothing and define nothing. Whatever they do to
the tables, they do by a few small changes (`Engine.Chore`): a send gets an empty cache, code is
installed, an invocation is counted, and in a trap code is marked and becomes invalid. What each
of these changes keeps, all of them keep (`Upkeep.induction`).
-/

namespace Warmup.Engine

/-- A small change of the tables. Only traps mark code and make code invalid. -/
inductive Chore (inTrap : Bool) : Engine → Engine → Prop
  /-- Definitions, code and caches stay. -/
  | aside (e : Engine) (processes : ProcessTable) (database : Database)
    (counters : List (MethodId × Nat)) (tally : Tally) : Chore inTrap e
      { e with processes := processes, database := database, counters := counters, tally := tally }
  | link {e : Engine} {m : MethodId} {method : Method} {s : SendSite}
    (hm : e.classes.method m = .ok method)
    (hs : s ∈ method.sends) :
      Chore inTrap e { e with sites := e.sites.ensure m s.bci (e.freshSite method s) }
  | install {e : Engine} {k : LookupKey} {level : Nat} {comp : Compilation}
    {code : CodeTable} {i : NativeId}
    (hprepare : e.prepare k level = .ok comp)
      (hinstall : e.code.install comp.native = .ok (code, i)) :
    Chore inTrap e { e with code := code }
  | count (e : Engine) (i : NativeId) (ticks : Nat) :
      Chore inTrap e { e with code := e.code.modify i fun n =>
      { n with invocations := Word.saturate 32 (n.invocations + 1), overflowCount := ticks } }
  | patch {e : Engine} {n : NativeMethod} (h : inTrap) (hn : e.code.get? n.id = some n)
    (trap count : Nat) :
    Chore inTrap e { e with code := e.code.modify n.id fun _ => n.patch trap count }
  | invalidate (e : Engine) (h : inTrap) (i : NativeId) (traps : TrapHistory) :
    Chore inTrap e { e with code := (e.code.invalidate i).2, traps := traps }

/-- Some small changes, one after the other. -/
def Upkeep (inTrap : Bool) : Engine → Engine → Prop := Relation.ReflTransGen (Chore inTrap)

variable {e e' e'' : Engine} {inTrap : Bool}

theorem Chore.upkeep (h : e.Chore inTrap e') : e.Upkeep inTrap e' := Relation.ReflTransGen.single h

theorem Upkeep.refl (e : Engine) : e.Upkeep inTrap e := Relation.ReflTransGen.refl

theorem Upkeep.trans (h : e.Upkeep inTrap e') (h' : e'.Upkeep inTrap e'') : e.Upkeep inTrap e'' :=
  Relation.ReflTransGen.trans h h'

/-- What every small change keeps. -/
theorem Upkeep.induction {P : Engine → Prop} (hP : ∀ e e', Chore inTrap e e' → P e → P e')
    (h : e.Upkeep inTrap e') (he : P e) : P e' := by
  induction h with
  | refl => exact he
  | tail _ hchore ih => exact hP _ _ hchore ih

theorem Chore.classes_eq (h : e.Chore inTrap e') : e'.classes = e.classes := by
  cases h <;> rfl

theorem Upkeep.classes_eq (h : e.Upkeep inTrap e') : e'.classes = e.classes :=
  h.induction (P := fun e' => e'.classes = e.classes)
    (fun _ _ hchore heq => hchore.classes_eq.trans heq) rfl

/-! ## Compilations and invocations -/

section Compile

variable {k : LookupKey} {level : Nat} {i : NativeId}

/-- A compilation is upkeep: it installs code. -/
theorem upkeep_compileAt (h : e.compileAt k level = .ok (e', i)) : e.Upkeep inTrap e' := by
  rw [compileAt] at h
  obtain ⟨comp, hprepare, h⟩ := exists_ok_of_bind h
  obtain ⟨⟨code, id⟩, hinstall, h⟩ := exists_ok_of_bind h
  cases h
  exact (Chore.install hprepare hinstall).upkeep.trans (Chore.aside _ _ _ _ _).upkeep

theorem upkeep_compile (h : e.compile k = .ok (e', i)) : e.Upkeep inTrap e' := by
  rw [compile] at h
  split at h
  · exact upkeep_compileAt h
  · obtain ⟨level, -, h⟩ := exists_ok_of_bind h
    exact upkeep_compileAt h

/-- A recompilation is upkeep, granted or not. -/
theorem upkeep_recompile {p : ProcessId} {frame : Nat} {trigger : Trigger} {r : Recompiled}
    (h : e.recompile p frame trigger = .ok (e', r)) : e.Upkeep inTrap e' := by
  rw [recompile] at h
  obtain ⟨choice, -, h⟩ := exists_ok_of_bind h
  split at h
  · obtain ⟨⟨e₁, n⟩, hcompile, h⟩ := exists_ok_of_bind h
    cases h
    exact (upkeep_compileAt hcompile).trans (Chore.aside _ _ _ _ _).upkeep
  · cases h
    exact (Chore.aside _ _ _ _ _).upkeep
  · cases h
    exact (Chore.aside _ _ _ _ _).upkeep

end Compile

/-- Linking a method gives its sends empty caches. -/
theorem upkeep_link {m : MethodId} (h : e.link m = .ok e') : e.Upkeep inTrap e' := by
  rw [link] at h
  obtain ⟨method, hm, h⟩ := exists_ok_of_bind h
  cases h
  -- Which caches are made does not depend on the caches that there are.
  suffices ∀ (l : List SendSite) (t : SiteTable), (∀ s ∈ l, s ∈ method.sends) →
      Upkeep inTrap { e with sites := t }
      { e with sites := l.foldl (fun t s => t.ensure m s.bci (e.freshSite method s)) t } from
    this method.sends e.sites fun _ hs => hs
  intro l
  induction l with
  | nil => exact fun t _ => .refl _
  | cons s l ih =>
    intro t hl
    have hlink : Chore inTrap { e with sites := t }
        { e with sites := t.ensure m s.bci (e.freshSite method s) } :=
      Chore.link hm (hl s List.mem_cons_self)
    exact hlink.upkeep.trans (ih _ fun s' hs' => hl s' (List.mem_cons_of_mem s hs'))

theorem upkeep_count {a : Activation} {limit : Nat} {full : Bool}
    (h : e.count a limit = .ok (e', full)) :
    e.Upkeep inTrap e' := by
  rw [count] at h
  split at h
  · obtain ⟨native, -, h⟩ := exists_ok_of_bind h
    cases h
    exact (Chore.count _ _ _).upkeep
  · split at h
    · cases h
      exact (Chore.aside _ _ _ _ _).upkeep
    · obtain ⟨e₁, hlink, h⟩ := exists_ok_of_bind h
      cases h
      exact (upkeep_link hlink).trans (Chore.aside _ _ _ _ _).upkeep

/-- An invocation is counted, and may lead to a recompilation. -/
theorem upkeep_invoke (e : Engine) (p : ProcessId) (i : Nat) :
    e.Upkeep inTrap (e.invoke p i).state := by
  rw [invoke]
  split
  · exact .refl e
  · next e₁ hcount =>
    obtain ⟨a, -, hcount⟩ := exists_ok_of_bind hcount
    obtain ⟨limit, -, hcount⟩ := exists_ok_of_bind hcount
    exact upkeep_count hcount
  · next e₁ hcount =>
    obtain ⟨a, -, hcount⟩ := exists_ok_of_bind hcount
    obtain ⟨limit, -, hcount⟩ := exists_ok_of_bind hcount
    -- The invocation stays counted if the recompilation fails.
    split
    · exact upkeep_count hcount
    · next e₂ r hrecompile => exact (upkeep_count hcount).trans (upkeep_recompile hrecompile)

/-! ## Traps -/

/-- Code that is retired becomes invalid. -/
theorem upkeep_retire (e : Engine) (n : NativeMethod) : e.Upkeep true (e.retire n).1 := by
  rw [retire]
  split
  · exact (Chore.invalidate e rfl n.id _).upkeep
  · exact .refl e

section Fire

variable {p : ProcessId} {i trap : Nat} {n : NativeMethod} {site : TrapSite}

/-- A trap fires outside the scheduler, in a compiled activation whose code has it. -/
theorem firing_eq_ok_iff : e.firing p i trap = .ok (n, site) ↔ e.processes.inScheduler = false ∧
      ∃ a id o, e.processes.frame? (p, i) = some a ∧ a.execution = .compiled id o ∧
        e.code.get? id = some n ∧ n.traps[trap]? = some site := by
  constructor
  · intro h
    rw [firing] at h
    split at h
    · cases h
    · next hsched =>
      obtain ⟨a, ha, h⟩ := exists_ok_of_bind h
      split at h
      · cases h
      · next id hid =>
        obtain ⟨n', hn', h⟩ := exists_ok_of_bind h
        split at h
        · cases h
        · next hs =>
          obtain ⟨rfl, rfl⟩ := Prod.mk.inj (Except.ok.inj h)
          obtain ⟨o, hexec⟩ : ∃ o, a.execution = .compiled id o := by
            rw [Activation.native?] at hid
            split at hid
            · cases hid
            · next hexec => exact ⟨_, Option.some.inj hid ▸ hexec⟩
          exact ⟨by simpa using hsched, a, id, o, ProcessTable.frame_eq_ok_iff.1 ha, hexec,
            CodeTable.get_ok hn', hs⟩
  · rintro ⟨hsched, a, id, o, ha, hexec, hn, hs⟩
    simp [firing, hsched, ProcessTable.frame_eq_ok_iff.2 ha, Activation.native?, hexec,
      CodeTable.get, hn, hs, bind, Except.bind, pure, Except.pure]

theorem get?_of_firing (hid : ∀ j m, e.code.get? j = some m → m.id = j)
    (h : e.firing p i trap = .ok (n, site)) :
    e.code.get? n.id = some n := by
  obtain ⟨-, a, id, o, -, -, hn, -⟩ := firing_eq_ok_iff.1 h
  rwa [hid id n hn]

/-- The engine in which a trap of code is marked and counted, and the code if it was given up. -/
def mark (e : Engine) (n : NativeMethod) (trap : Nat) : Engine × Option Retired :=
  { e with code := e.code.modify n.id fun _ => n.patch trap (n.trapCount + 1) }.retire
    (n.patch trap (n.trapCount + 1))

theorem rest_mark :
    (e.mark n trap).1.settings = e.settings ∧ (e.mark n trap).1.processes = e.processes := by
  rw [mark, retire]
  split
  · exact ⟨rfl, rfl⟩
  · exact ⟨rfl, rfl⟩

theorem fire_of_error {f : Fault} (h : e.firing p i trap = .error f) :
    e.fire p i trap = .fail e f := by
  rw [fire, h]
  rfl

/-- A trap fails if it cannot be counted. -/
theorem fire_of_overflow (h : e.firing p i trap = .ok (n, site))
    (hfit : ¬n.trapCount + 1 < Word.size 32) :
    e.fire p i trap = .fail e .overflow := by
  rw [fire, h]
  simp only [bind, Except.bind, Word.fit, if_neg hfit]

/-- A trap is marked first. Then its activation is deoptimized, which may fail. -/
theorem fire_eq (h : e.firing p i trap = .ok (n, site)) (hfit : n.trapCount + 1 < Word.size 32) :
    let o := e.processes.deoptimize (e.mark n trap).1.code p i
    e.fire p i trap = ⟨{ (e.mark n trap).1 with processes := o.state },
      o.result.map fun d => ⟨!site.used, n.trapCount + 1, d, (e.mark n trap).2⟩⟩ := by
  intro o
  have ho : o = (e.mark n trap).1.processes.deoptimize (e.mark n trap).1.code p i := by
    rw [rest_mark.2]
  obtain ⟨state, result⟩ := o
  rw [fire, h]
  simp only [bind, Except.bind, Word.fit_eq_ok_iff.2 ⟨rfl, hfit⟩, pure, Except.pure]
  -- The processes are deoptimized with the marked code; marking leaves them alone.
  obtain ⟨e₁, retired, hmark⟩ : ∃ e₁ retired, e.mark n trap = (e₁, retired) := ⟨_, _, rfl⟩
  rw [hmark] at ho ⊢
  rw [mark] at hmark
  simp only [NativeMethod.patch] at hmark ⊢
  simp only [hmark, ← ho]
  cases result with
  | error f => rfl
  | ok d => rfl

/-- A trap fails before anything is done, or it is marked. -/
theorem fire_cases (e : Engine) (p : ProcessId) (i trap : Nat) :
    (∃ f, e.fire p i trap = .fail e f) ∨
    ∃ n site, e.firing p i trap = .ok (n, site) ∧ n.trapCount + 1 < Word.size 32 := by
  rcases hfiring : e.firing p i trap with f | ⟨n, site⟩
  · exact .inl ⟨f, fire_of_error hfiring⟩
  · by_cases hfit : n.trapCount + 1 < Word.size 32
    · exact .inr ⟨n, site, rfl, hfit⟩
    · exact .inl ⟨.overflow, fire_of_overflow hfiring hfit⟩

/-- Code is put back into its own place with the mark, since its handle is that place, and may
    become invalid. -/
theorem upkeep_mark (hn : e.code.get? n.id = some n) (trap : Nat) :
    e.Upkeep true (e.mark n trap).1 :=
  (Chore.patch rfl hn trap _).upkeep.trans (upkeep_retire _ _)

end Fire

/-- A trap that fires is marked and counted, may make its code invalid, and
    changes stacks. -/
theorem upkeep_fire (hw : e.code.WellFormed) (p : ProcessId) (i trap : Nat) :
    e.Upkeep true (e.fire p i trap).state := by
  rcases e.fire_cases p i trap with ⟨f, hfire⟩ | ⟨n, site, hfiring, hfit⟩
  · rw [hfire]
    exact .refl e
  · rw [fire_eq hfiring hfit]
    exact (upkeep_mark (get?_of_firing hw.id_eq hfiring) trap).trans (Chore.aside _ _ _ _ _).upkeep

/-- Once a trap has fired there is at most a compilation. -/
theorem upkeep_fire_uncommonTrap (e : Engine) (p : ProcessId) (i trap : Nat) :
    (e.fire p i trap).state.Upkeep inTrap (e.uncommonTrap p i trap).state := by
  rw [uncommonTrap, Outcome.andThen]
  split
  · next fired hfired =>
    have hcounted (tally : Tally) :
        (e.fire p i trap).state.Upkeep inTrap { (e.fire p i trap).state with tally := tally } :=
      (Chore.aside _ _ _ _ _).upkeep
    split
    · exact hcounted _
    · simp only
      split
      · exact hcounted _
      · next hrecompile => exact (hcounted _).trans (upkeep_recompile hrecompile)
  · exact .refl _

/-- A trap is upkeep, with the recompilation that it may lead to. -/
theorem upkeep_uncommonTrap (hw : e.code.WellFormed) (p : ProcessId) (i trap : Nat) :
    e.Upkeep true (e.uncommonTrap p i trap).state :=
  (upkeep_fire hw p i trap).trans (e.upkeep_fire_uncommonTrap p i trap)

end Warmup.Engine
