import Warmup.Proofs.Deoptimization
import Warmup.Proofs.Requests

/-!
# The log of traps

All traps that fire in a run, in order (`Engine.firings`), with what each of them found and led to
(`Firing`). As long as compiled activations are in scopes of installed code (`Engine.isGrounded`), a
trap that fires does not fail (`Engine.fire_of_firing`). Then the log accounts for all that the
engine remembers of traps (`Engine.Records`): code has counted its firings, and the exponent of a
key is the number of times its code was given up, up to the largest one. In the log itself
(`Firing.Exact`), a trap is patched when it fires first, and code is given up when it is due
first. -/

namespace Warmup

/-- A trap that has fired. -/
structure Firing where
  native : NativeId
  key : LookupKey
  trap : Nat
  /-- The code was not invalid before. -/
  valid : Bool
  fired : Fired
  deriving DecidableEq

namespace Firing

variable {s : Settings} {log : List Firing} {f : Firing}

/-- Whether the code was given up, and is to be compiled again. -/
def retires (f : Firing) : Bool := f.fired.retired.isSome

/-- Whether valid code has trapped often enough. -/
def isDue (s : Settings) (f : Firing) : Bool :=
  f.valid && s.traps.threshold.toNat ≤ f.fired.trapCount

/-- What holds of the firings of a run by themselves. -/
structure Exact (s : Settings) (log : List Firing) : Prop where
  counts : ∀ before f after, log = before ++ f :: after →
    f.fired.trapCount = before.countP (·.native = f.native) + 1
  patches : ∀ i trap, log.filter (fun f => f.native = i && f.trap = trap && f.fired.patched) =
    (log.find? fun f => f.native = i && f.trap = trap).toList
  retirements : ∀ i, log.filter (fun f => f.native = i && f.retires) =
    (log.find? fun f => f.native = i && f.isDue s).toList
  named : ∀ f ∈ log, ∀ ret, f.fired.retired = some ret → ret.native = f.native ∧ ret.key = f.key

/-- Of the elements with one property, the first one is the only one that has another. -/
theorem filter_concat_eq_find? {α : Type} {l : List α} {p q : α → Bool} {a : α}
    (h : l.filter p = (l.find? q).toList) (ha : p a ↔ q a ∧ l.find? q = none) :
    (l ++ [a]).filter p = ((l ++ [a]).find? q).toList := by
  rw [List.filter_append, List.find?_append, h]
  rcases hq : l.find? q with _ | b
  · have hpq : p a = q a := Bool.eq_iff_iff.2 (ha.trans ⟨fun h => h.1, fun h => ⟨h, hq⟩⟩)
    by_cases hqa : q a
    · simp [hpq, hqa]
    · simp [hpq, hqa]
  · have hpa : ¬p a := by
      intro hpa
      cases hq.symm.trans (ha.1 hpa).2
    simp [hpa]

/-- One more firing in an exact log, with what has to be known about it. -/
theorem Exact.concat (h : Exact s log)
    (hcount : f.fired.trapCount = log.countP (·.native = f.native) + 1)
    (hpatched : f.fired.patched ↔ ∀ g ∈ log, g.native = f.native → g.trap ≠ f.trap)
    (hdue : f.retires ↔ f.isDue s) (hfirst : f.valid → ∀ g ∈ log, g.native = f.native → ¬g.retires)
    (hnamed : ∀ ret, f.fired.retired = some ret → ret.native = f.native ∧ ret.key = f.key) :
    Exact s (log ++ [f]) where
  counts before g after heq := by
    rcases List.eq_nil_or_concat' after with rfl | ⟨after, g', rfl⟩
    · obtain ⟨rfl, hf⟩ := List.append_inj' heq rfl
      obtain rfl := List.head_eq_of_cons_eq hf
      exact hcount
    · rw [← List.cons_append, ← List.append_assoc] at heq
      exact h.counts before g after (List.append_inj' heq rfl).1
  patches i trap := by
    refine filter_concat_eq_find? (h.patches i trap) ?_
    simp only [Bool.and_eq_true, decide_eq_true_eq, List.find?_eq_none, hpatched,
      and_congr_right_iff, and_imp]
    rintro rfl rfl
    simp
  retirements i := by
    refine filter_concat_eq_find? (h.retirements i) ?_
    simp only [Bool.and_eq_true, decide_eq_true_eq, hdue]
    refine ⟨fun hf => ⟨hf, ?_⟩, fun hf => hf.1⟩
    obtain ⟨rfl, hf⟩ := hf
    have hvalid : f.valid := (Bool.and_eq_true_iff.1 hf).1
    -- An earlier firing that was due has made the code invalid.
    rcases hg : log.find? fun g => decide (g.native = f.native) && g.isDue s with _ | g
    · exact hg
    · have hmem : g ∈ log.filter fun g => decide (g.native = f.native) && g.retires := by
        rw [h.retirements, hg]
        exact List.mem_singleton_self g
      obtain ⟨hlog, hg⟩ := List.mem_filter.1 hmem
      simp only [Bool.and_eq_true, decide_eq_true_eq] at hg
      exact absurd hg.2 (hfirst hvalid g hlog hg.1)
  named g hg := by
    rcases List.mem_append.1 hg with hg | hg
    · exact h.named g hg
    · obtain rfl := List.mem_singleton.1 hg
      exact hnamed

end Firing

namespace TrapHistory

/-- Giving up code raises the exponent of its key, up to the largest one. -/
theorem backoff_bump (h : TrapHistory) (k : LookupKey) (max : Nat) (k' : LookupKey) :
    (h.bump k max).backoff k' = if k = k' then min (h.backoff k' + 1) max else h.backoff k' := by
  rw [bump, backoff, lookup_set]
  by_cases hk : k = k'
  · simp [hk]
  · simp [hk, Ne.symm hk, backoff]

theorem backoffs_foldl_disable (l : List (MethodId × Bci)) (h : TrapHistory) :
    (l.foldl (fun h d => h.disable d.1 d.2) h).backoffs = h.backoffs := by
  induction l generalizing h with
  | nil => rfl
  | cons d l ih =>
    rw [List.foldl_cons, ih, disable]
    split
    · rfl
    · rfl

end TrapHistory

/-- Code after one of its traps has fired, which is invalid if it was given up for that. -/
def NativeMethod.struck (n : NativeMethod) (trap : Nat) (retired : Bool) : NativeMethod :=
  { n.patch trap (n.trapCount + 1) with state := if retired then .invalid else n.state }

theorem NativeMethod.became_struck (n : NativeMethod) (trap : Nat) (retired : Bool) :
    n.Became (n.struck trap retired) where
  same := rfl
  valid h := by
    cases retired with
    | false => exact h
    | true => cases h

/-- Whether an event is a trap. -/
def Event.isTrap : Event → Bool
  | trap _ _ _ => true
  | _ => false

namespace Engine

variable {e e' : Engine} {s : Settings} {log : List Firing}

/-- The trap that fires in an event. -/
def firing? (e : Engine) : Event → Option Firing
  | .trap p i trap =>
    match e.firing p i trap, (e.fire p i trap).result with
    | .ok (n, _), .ok fired => some ⟨n.id, n.key, trap, n.isValid, fired⟩
    | _, _ => none
  | _ => none

/-- The traps that fire in some events. -/
def firings (e : Engine) : List Event → List Firing
  | [] => []
  | ev :: events => (e.firing? ev).toList ++ (e.step ev).firings events

/-- Whether every compiled activation is in a scope of installed code. -/
def isGrounded (e : Engine) : Bool := e.processes.activations.all fun a =>
  match a.2.execution with
  | .interpreted => true
  | .compiled n o => (e.code.get? n).any fun m => (m.scope? o).isSome

/-- Whether this is so at every trap among some events. -/
def trapsGrounded (e : Engine) (events : List Event) : Bool :=
  e.isAlways (fun e ev => !ev.isTrap || e.isGrounded) events

/-! ## What a log accounts for -/

/-- What an engine remembers of the traps that have fired. -/
structure Records (s : Settings) (log : List Firing) (e : Engine) : Prop where
  settings : e.settings = s
  compiled : e.code.Compiled
  counted : ∀ i n, e.code.get? i = some n → n.trapCount = log.countP (·.native = i)
  used : ∀ i n trap site, e.code.get? i = some n → n.traps[trap]? = some site →
    (site.used ↔ ∃ f ∈ log, f.native = i ∧ f.trap = trap)
  known : ∀ f ∈ log, ∃ n, e.code.get? f.native = some n ∧ n.key = f.key ∧ (f.retires → ¬n.isValid)
  backoff : ∀ k, e.traps.backoff k =
    min s.recompile.maxBackoff.toNat (log.countP fun f => f.key = k && f.retires)

theorem Records.start (s : Settings) (t : ClassTable) : (startWith s t).Records s [] where
  settings := rfl
  compiled i n hn := by simp [startWith, Engine.start, CodeTable.get?] at hn
  counted i n hn := by simp [startWith, Engine.start, CodeTable.get?] at hn
  used i n trap site hn := by simp [startWith, Engine.start, CodeTable.get?] at hn
  known f hf := by cases hf
  backoff k := by simp [startWith, Engine.start, TrapHistory.backoff]

/-- Code of which traps have fired stays, and stays invalid if it was given up. -/
theorem Records.known_of_keeps (h : e.Records s log) {code : CodeTable} (hkeeps : e.code.Keeps code)
    {f : Firing} (hf : f ∈ log) :
    ∃ n, code.get? f.native = some n ∧ n.key = f.key ∧ (f.retires → ¬n.isValid) := by
  obtain ⟨n, hn, hkey, hinvalid⟩ := h.known f hf
  obtain ⟨n', hn', hbecame⟩ := hkeeps _ n hn
  exact ⟨n', hn', hbecame.key.trans hkey, fun hretires hvalid => hinvalid
    hretires (hbecame.valid hvalid)⟩

/-- Where no trap fires, code keeps what it has counted and patched. -/
theorem Untrapped.exists_get? (h : e.Untrapped e') {i : NativeId} {n' : NativeMethod}
    (hn' : e'.code.get? i = some n') :
    ∃ n, e.code.get? i = some n ∧ n.Became n' ∧ n'.trapRecord = n.trapRecord := by
  have hrecord : (e'.code.methods[i.index]?).map NativeMethod.trapRecord =
      (e.code.methods[i.index]?).map NativeMethod.trapRecord := by
    rw [← List.getElem?_map, h.records, List.getElem?_map]
  rw [show e'.code.methods[i.index]? = some n' from hn', Option.map_some] at hrecord
  obtain ⟨n, hn, heq⟩ := Option.map_eq_some_iff.1 hrecord.symm
  obtain ⟨n₁, hn₁, hbecame⟩ := h.code.kept i n hn
  obtain rfl := Option.some.inj (hn₁.symm.trans hn')
  exact ⟨n, hn, hbecame, heq.symm⟩

/-- Where no trap fires, the log still accounts for everything. -/
theorem Records.untrapped (h : e.Records s log) (hu : e.Untrapped e') : e'.Records s log where
  settings := hu.settings.trans h.settings
  compiled i n' hn' := by
    obtain ⟨n, hn, hbecame, -⟩ := hu.exists_get? hn'
    exact hbecame.compiled (h.compiled i n hn)
  counted i n' hn' := by
    obtain ⟨n, hn, -, hrecord⟩ := hu.exists_get? hn'
    rw [(Prod.mk.inj hrecord).1]
    exact h.counted i n hn
  used i n' trap site hn' hsite := by
    obtain ⟨n, hn, -, hrecord⟩ := hu.exists_get? hn'
    rw [(Prod.mk.inj hrecord).2] at hsite
    exact h.used i n trap site hn hsite
  known f hf := h.known_of_keeps hu.code.kept hf
  backoff k := by
    rw [TrapHistory.backoff, hu.backoffs]
    exact h.backoff k

/-- No trap of code that is new has fired. -/
theorem Records.install (h : e.Records s log) (hb : e.classes.Built) {k : LookupKey} {level : Nat}
    {comp : Compilation} {code : CodeTable} {i : NativeId} (hprepare : e.prepare k level = .ok comp)
    (hinstall : e.code.install comp.native = .ok (code, i)) :
    Records s log { e with code := code } := by
  obtain ⟨version, hself⟩ := CodeTable.get?_install_self hinstall
  obtain ⟨hzero, hunused⟩ := prepare_unused hprepare
  -- Code that is in the log was installed before, so the new code is none of it.
  have hnew {f : Firing} (hf : f ∈ log) : f.native ≠ i := by
    obtain ⟨n, hn, -⟩ := h.known f hf
    exact CodeTable.ne_of_install hinstall hn
  have hold {j : NativeId} {n' : NativeMethod} (hj : j ≠ i) (hn' : code.get? j = some n') :
      ∃ n, e.code.get? j = some n ∧ n'.trapRecord = n.trapRecord := by
    rw [CodeTable.get?_install hinstall hj] at hn'
    obtain ⟨n, hn, rfl⟩ := Option.map_eq_some_iff.1 hn'
    exact ⟨n, hn, by split <;> rfl⟩
  refine ⟨h.settings, ?_, fun j n' hn' => ?_, fun j n' trap site hn' hsite => ?_,
    fun f hf => h.known_of_keeps (CodeTable.keeps_install hinstall) hf, h.backoff⟩
  · rw [prepare] at hprepare
    obtain ⟨m, -, hcompile⟩ := exists_ok_of_bind hprepare
    exact h.compiled.install (Compiler.compiled_of_compile hb hcompile) hinstall
  · by_cases hj : j = i
    · subst hj
      obtain rfl := Option.some.inj (hself.symm.trans hn')
      rw [hzero, eq_comm, List.countP_eq_zero]
      exact fun f hf => by simpa using hnew hf
    · obtain ⟨n, hn, hrecord⟩ := hold hj hn'
      rw [(Prod.mk.inj hrecord).1]
      exact h.counted j n hn
  · by_cases hj : j = i
    · subst hj
      obtain rfl := Option.some.inj (hself.symm.trans hn')
      rw [hunused site (List.mem_of_getElem? hsite)]
      simpa using fun f hf hj _ => hnew hf hj
    · obtain ⟨n, hn, hrecord⟩ := hold hj hn'
      rw [(Prod.mk.inj hrecord).2] at hsite
      exact h.used j n trap site hn hsite

theorem Records.chore (h : e.Records s log) (hb : e.classes.Built) (hchore : e.Chore false e') :
    e'.Records s log := by
  cases hchore with
  | aside => exact h.untrapped (.of_eq rfl rfl rfl)
  | link => exact h.untrapped (.of_eq rfl rfl rfl)
  | install hprepare hinstall => exact h.install hb hprepare hinstall
  | count => exact h.untrapped (.modify fun n => ⟨⟨rfl, fun h => h⟩, rfl, rfl⟩)
  | patch h => cases h
  | invalidate h => cases h

theorem Records.upkeep (h : e.Records s log) (hb : e.classes.Built) (hupkeep : e.Upkeep false e') :
    e'.Records s log := by
  suffices e'.classes.Built ∧ e'.Records s log from this.2
  refine hupkeep.induction (P := fun e => e.classes.Built ∧ e.Records s log)
    (fun e₁ e₂ hchore he₁ => ?_) ⟨hb, h⟩
  exact ⟨hchore.steady.built he₁.1, he₁.2.chore he₁.1 hchore⟩

/-! ## Traps -/

/-- All compiled activations are in scopes of installed code. -/
theorem isGrounded_iff :
    e.isGrounded ↔ ∀ r a n o, e.processes.frame? r = some a → a.execution = .compiled n o →
    ∃ m d, e.code.get? n = some m ∧ m.scope? o = some d := by
  rw [isGrounded, List.all_eq_true]
  constructor
  · intro h r a n o ha hexec
    have hscope := h (r, a) (ProcessTable.mem_activations.2 ha)
    simp only [hexec, Option.any_eq_true] at hscope
    obtain ⟨m, hm, hd⟩ := hscope
    obtain ⟨d, hd⟩ := Option.isSome_iff_exists.1 hd
    exact ⟨m, d, hm, hd⟩
  · rintro h ⟨r, a⟩ ha
    rcases hexec : a.execution with _ | ⟨n, o⟩
    · rfl
    · obtain ⟨m, d, hm, hd⟩ := h r a n o (ProcessTable.mem_activations.1 ha) hexec
      simp only [hm, Option.any_some, hd, Option.isSome_some]

section Fire

variable {p : ProcessId} {i trap : Nat} {n : NativeMethod} {site : TrapSite}

/-- Code is given up if it has trapped often enough, and is still valid. -/
theorem isSome_mark :
    (e.mark n trap).2.isSome ↔ e.settings.traps.threshold.toNat ≤ n.trapCount + 1 ∧ n.isValid := by
  rw [mark, retire]
  split
  · next h => exact iff_of_true rfl h
  · next h => exact iff_of_false Bool.false_ne_true h

/-- The code that traps is struck, and all other code stays as it is. -/
theorem get?_mark (j : NativeId) : (e.mark n trap).1.code.get? j =
    (e.code.get? j).map fun m => if j = n.id then
      n.struck trap (e.mark n trap).2.isSome else m := by
  rw [mark, retire]
  split
  · simp only [CodeTable.get?_invalidate, CodeTable.get?_modify, Option.map_map]
    congr 1
    funext m
    by_cases hj : j = n.id
    · simp [hj, NativeMethod.struck, NativeMethod.patch]
    · simp [hj, NativeMethod.patch]
  · simp [CodeTable.get?_modify, NativeMethod.struck, NativeMethod.patch]

theorem keeps_mark (hn : e.code.get? n.id = some n) (trap : Nat) :
    e.code.Keeps (e.mark n trap).1.code := by
  intro j m hm
  rw [get?_mark, hm]
  refine ⟨_, rfl, ?_⟩
  simp only
  split
  · next hj =>
    obtain rfl := Option.some.inj (hn.symm.trans (hj ▸ hm))
    exact n.became_struck trap _
  · exact .refl m

/-- The exponent of a key grows with each time its code is given up. -/
theorem backoff_mark (k : LookupKey) : (e.mark n trap).1.traps.backoff k =
    if n.key = k && (e.mark n trap).2.isSome then
      min (e.traps.backoff k + 1) e.settings.recompile.maxBackoff.toNat
    else e.traps.backoff k := by
  rw [mark, retire]
  split
  · simp only [TrapHistory.backoff_bump]
    simp only [TrapHistory.backoff, TrapHistory.backoffs_foldl_disable]
    by_cases hk : n.key = k
    · simp [NativeMethod.patch, hk]
    · simp [NativeMethod.patch, hk]
  · simp

theorem named_mark {ret : Retired} (h : (e.mark n trap).2 = some ret) :
    ret.native = n.id ∧ ret.key = n.key := by
  rw [mark, retire] at h
  split at h
  · obtain rfl := Option.some.inj h
    exact ⟨rfl, rfl⟩
  · cases h

/-- A trap is marked, and all activations that this concerns can be deoptimized. -/
theorem fire_of_firing (hw : e.code.WellFormed) (hcompiled : e.code.Compiled) (hg : e.isGrounded)
    (h : e.firing p i trap = .ok (n, site)) (hfit : n.trapCount + 1 < Word.size 32) :
    ∃ processes d, e.fire p i trap =
      .done { (e.mark n trap).1 with processes := processes }
        ⟨!site.used, n.trapCount + 1, d, (e.mark n trap).2⟩ := by
  obtain ⟨-, a, id, o, ha, -, hn, -⟩ := firing_eq_ok_iff.1 h
  obtain rfl := hw.id_eq id n hn
  obtain ⟨processes, d, hdeoptimize⟩ : ∃ processes d,
      e.processes.deoptimize (e.mark n trap).1.code p i = .done processes d := by
    -- Every activation in a scope of its code has a chain.
    rw [ProcessTable.exists_deoptimize_iff]
    refine ⟨⟨a, ha⟩, fun r b j o _ hb hexec => ?_⟩
    obtain ⟨m, scope, hm, hscope⟩ := isGrounded_iff.1 hg r b j o hb hexec
    obtain ⟨m', hm', hbecame⟩ := keeps_mark hn trap j m hm
    have hscope' : m'.scope? o = some scope := by rwa [NativeMethod.scope?, hbecame.scopes]
    obtain ⟨chain, hchain⟩ := (hbecame.compiled (hcompiled j m hm)).exists_chainTo hscope' b.bci
    exact ⟨m', chain, hm', hchain⟩
  refine ⟨processes, d, ?_⟩
  rw [fire_eq h hfit, hdeoptimize]
  rfl

/-- After a trap, code is the one that was struck, or as it was. -/
theorem get?_mark_cases {j : NativeId} {m : NativeMethod}
    (h : (e.mark n trap).1.code.get? j = some m) :
    (j = n.id ∧ m = n.struck trap (e.mark n trap).2.isSome) ∨ j ≠ n.id ∧
      e.code.get? j = some m := by
  rw [get?_mark] at h
  obtain ⟨m₀, hm₀, rfl⟩ := Option.map_eq_some_iff.1 h
  by_cases hj : j = n.id
  · exact .inl ⟨hj, if_pos hj⟩
  · exact .inr ⟨hj, by rw [if_neg hj]; exact hm₀⟩

/-- One more firing in the log accounts for the trap. -/
theorem Records.mark (h : e.Records s log) (hn : e.code.get? n.id = some n) {f : Firing}
    (hnative : f.native = n.id) (hkey : f.key = n.key)
    (hretires : f.retires = (e.mark n f.trap).2.isSome) :
    (e.mark n f.trap).1.Records s (log ++ [f]) where
  settings := rest_mark.1.trans h.settings
  compiled j m hm := by
    rcases get?_mark_cases hm with ⟨rfl, rfl⟩ | ⟨-, hm⟩
    · exact (n.became_struck f.trap _).compiled (h.compiled _ n hn)
    · exact h.compiled j m hm
  counted j m hm := by
    rw [List.countP_append]
    rcases get?_mark_cases hm with ⟨rfl, rfl⟩ | ⟨hj, hm⟩
    · rw [← h.counted _ n hn]
      simp [hnative, NativeMethod.struck, NativeMethod.patch]
    · rw [← h.counted j m hm]
      simp [hnative, Ne.symm hj]
  -- A site is used if it was, or is the one of this trap.
  used j m trap site hm hsite := by
    simp only [List.mem_append, List.mem_singleton, or_and_right, exists_or,
      exists_eq_left, hnative]
    rcases get?_mark_cases hm with ⟨rfl, rfl⟩ | ⟨hj, hm⟩
    · rw [NativeMethod.struck, NativeMethod.patch, List.getElem?_modify] at hsite
      obtain ⟨site, hsite', rfl⟩ := Option.map_eq_some_iff.1 hsite
      by_cases htrap : f.trap = trap
      · simp [htrap]
      · simpa [htrap] using h.used _ n trap site hn hsite'
    · simpa [Ne.symm hj] using h.used j m trap site hm hsite
  known g hg := by
    rcases List.mem_append.1 hg with hg | hg
    · exact h.known_of_keeps (keeps_mark hn f.trap) hg
    · obtain rfl := List.mem_singleton.1 hg
      refine ⟨n.struck g.trap (e.mark n g.trap).2.isSome, ?_, hkey.symm, fun hr => ?_⟩
      · rw [get?_mark, hnative, hn, Option.map_some, if_pos rfl]
      · rw [← hretires, hr]
        exact Bool.false_ne_true
  backoff k := by
    rw [backoff_mark, h.backoff, h.settings, ← hretires, ← hkey,
      List.countP_append, List.countP_singleton]
    split
    · omega
    · rfl

/-- Traps that fire are added to the log, and all else that is asked of a trap leaves no trace. -/
theorem Records.fire (h : e.Records s log) (hexact : Firing.Exact s log) (hw : e.code.WellFormed)
    (hg : e.isGrounded) (p : ProcessId) (i trap : Nat) :
    (e.fire p i trap).state.Records s (log ++ (e.firing? (.trap p i trap)).toList) ∧
      Firing.Exact s (log ++ (e.firing? (.trap p i trap)).toList) := by
  rcases hfiring : e.firing p i trap with fault | ⟨n, site⟩
  · simpa [firing?, hfiring, fire_of_error hfiring, Outcome.fail] using ⟨h, hexact⟩
  · obtain ⟨-, a, id, o, -, -, hn, hsite⟩ := firing_eq_ok_iff.1 hfiring
    obtain rfl := hw.id_eq id n hn
    by_cases hfit : n.trapCount + 1 < Word.size 32
    · obtain ⟨processes, d, hfire⟩ := fire_of_firing hw h.compiled hg hfiring hfit
      have hfired : (e.firing? (.trap p i trap)).toList =
          [⟨n.id, n.key, trap, n.isValid,
            ⟨!site.used, n.trapCount + 1, d, (e.mark n trap).2⟩⟩] := by
        rw [firing?, hfiring, hfire]
        rfl
      rw [hfired, hfire]
      refine ⟨(h.mark hn rfl rfl rfl).untrapped (.of_eq rfl rfl rfl),
        hexact.concat ?_ ?_ ?_ ?_ fun ret => named_mark⟩
      · rw [h.counted _ n hn]
      · simpa [← Bool.not_eq_true] using not_congr (h.used _ n trap site hn hsite)
      · rw [Firing.retires, Firing.isDue, Bool.and_eq_true, decide_eq_true_eq,
          isSome_mark, h.settings, and_comm]
      · -- Code that was given up is invalid.
        intro hvalid g hg hnative hretires
        obtain ⟨m, hm, -, hinvalid⟩ := h.known g hg
        obtain rfl := Option.some.inj (hn.symm.trans (hnative ▸ hm))
        exact hinvalid hretires hvalid
    · simpa [firing?, hfiring, fire_of_overflow hfiring hfit, Outcome.fail] using ⟨h, hexact⟩

end Fire

/-! ## Runs -/

/-- The log accounts for all that the engine remembers of traps, and is right by itself. -/
structure Ledger (s : Settings) (log : List Firing) (e : Engine) : Prop where
  sound : e.Sound
  records : e.Records s log
  exact : Firing.Exact s log

theorem Ledger.start (s : Settings) {t : ClassTable} (ht : t.Built) :
    (startWith s t).Ledger s [] where
  sound := .start s ht
  records := .start s t
  exact := ⟨by simp, fun _ _ => rfl, fun _ => rfl, fun f hf => by cases hf⟩

/-- Steady events fire no trap. -/
theorem firing?_of_isSteady (e : Engine) {ev : Event} (h : ev.isSteady) : e.firing? ev = none := by
  cases ev with
  | trap p i trap => cases h
  | _ => rfl

/-- Every event keeps the ledger, if traps fire in grounded states only. -/
theorem Ledger.step (h : e.Ledger s log) {ev : Event} (hg : ev.isTrap → e.isGrounded) :
    (e.step ev).Ledger s (log ++ (e.firing? ev).toList) := by
  have hsound := h.sound.step ev
  -- All events but traps leave the log as it is.
  have hquiet (hnone : e.firing? ev = none) (hrecords : (e.step ev).Records s log) :
      (e.step ev).Ledger s (log ++ (e.firing? ev).toList) := by
    rw [hnone, Option.toList_none, List.append_nil]
    exact ⟨hsound, hrecords, h.exact⟩
  by_cases hev : ev.isSteady
  · refine hquiet (e.firing?_of_isSteady hev) ?_
    rcases e.upkeep_step hev with hupkeep | ⟨t, -, -, -, hstep⟩
    · exact h.records.upkeep h.sound.classes hupkeep
    · rw [hstep]
      exact h.records.untrapped (.of_eq rfl rfl rfl)
  · cases ev with
    | send p r => exact hquiet rfl (h.records.untrapped (untrapped_send e p r))
    | trap p i trap =>
      obtain ⟨hrecords, hexact⟩ := h.records.fire h.exact h.sound.code (hg rfl) p i trap
      have hbuilt := (upkeep_fire h.sound.code p i trap).quiet.built h.sound.classes
      exact ⟨hsound, hrecords.upkeep hbuilt (e.upkeep_fire_uncommonTrap p i trap), hexact⟩
    | replace c d =>
      exact hquiet rfl (h.records.untrapped (.orElse fun e' m => untrapped_replaceMethod))
    | cleanup => exact hquiet rfl (h.records.untrapped (untrapped_cleanup e))
    | _ => exact absurd rfl hev

theorem Ledger.run (h : e.Ledger s log) {events : List Event} (hg : e.trapsGrounded events) :
    (e.run events).Ledger s (log ++ e.firings events) := by
  induction events generalizing e log with
  | nil =>
    rw [firings, List.append_nil]
    exact h
  | cons ev events ih =>
    rw [trapsGrounded, isAlways, Bool.and_eq_true, Bool.or_eq_true] at hg
    have hev : ev.isTrap → e.isGrounded := fun htrap => hg.1.resolve_left (by simp [htrap])
    rw [firings, ← List.append_assoc]
    exact ih (h.step hev) hg.2

/-- In a run in which compiled activations are in scopes of installed code whenever a trap fires,
    the firings are counted exactly. Code is given up at most once, namely by the first firing that
    finds it valid and its count, with this one, at the threshold or above. Its count is the number
    of its firings, and a trap is patched by the first of its firings only. The exponent of a key is
    the number of times that code of this key was given up, or the largest one if that is less. And
    a trap of a compiled activation always fires, unless the count would not fit. -/
theorem firings_exact (s : Settings) {t : ClassTable} (ht : t.Built) {events : List Event}
    (hg : (startWith s t).trapsGrounded events) :
    let e := (startWith s t).run events
    let log := (startWith s t).firings events
    (∀ i, log.filter (fun f => f.native = i && f.retires) =
      (log.find? fun f => f.native = i && f.isDue s).toList) ∧
    (∀ before f after, log = before ++ f :: after →
      f.fired.trapCount = before.countP (·.native = f.native) + 1 ∧
        (∃ n, e.code.get? f.native = some n ∧ n.key = f.key) ∧
        ∀ ret, f.fired.retired = some ret → ret.native = f.native ∧ ret.key = f.key) ∧
    (∀ i n, e.code.get? i = some n → n.trapCount = log.countP (·.native = i)) ∧
    (∀ i trap, log.filter (fun f => f.native = i && f.trap = trap && f.fired.patched) =
      (log.find? fun f => f.native = i && f.trap = trap).toList) ∧
    (∀ k, e.traps.backoff k =
      min s.recompile.maxBackoff.toNat (log.countP fun f => f.key = k && f.retires)) ∧
    (e.isGrounded → e.processes.inScheduler = false → ∀ p i trap a id o n,
      e.processes.frame? (p, i) = some a →
      a.execution = .compiled id o → e.code.get? id = some n → trap < n.traps.length →
      n.trapCount + 1 < Word.size 32 →
        ∃ fired, e.firing? (.trap p i trap) = some ⟨id, n.key, trap, n.isValid, fired⟩) := by
  intro e log
  obtain ⟨hsound, hrecords, hexact⟩ : e.Ledger s log := (Ledger.start s ht).run hg
  refine ⟨hexact.retirements, fun before f after heq => ?_, hrecords.counted,
    hexact.patches, hrecords.backoff, ?_⟩
  · have hmem : f ∈ log := heq ▸ List.mem_append_right before List.mem_cons_self
    obtain ⟨n, hn, hkey, -⟩ := hrecords.known f hmem
    exact ⟨hexact.counts before f after heq, ⟨n, hn, hkey⟩, hexact.named f hmem⟩
  · -- In a grounded state a trap that can be counted does fire.
    intro hgrounded hsched p i trap a id o n ha hexec hn hlt hfit
    have hfiring : e.firing p i trap = .ok (n, n.traps[trap]) :=
      firing_eq_ok_iff.2 ⟨hsched, a, id, o, ha, hexec, hn, List.getElem?_eq_getElem hlt⟩
    obtain ⟨processes, d, hfire⟩ :=
      fire_of_firing hsound.code hrecords.compiled hgrounded hfiring hfit
    refine ⟨⟨!n.traps[trap].used, n.trapCount + 1, d, (e.mark n trap).2⟩, ?_⟩
    rw [firing?, hfiring, hfire, ← hsound.code.id_eq id n hn]
    rfl

/-- A method is compiled with a trap, and four processes run its code. Three of them get to the
    trap. -/
def trapsInTurn : List Event := [
  .replace ⟨0⟩ { selector := ⟨0⟩, steps := [.work 1] },
  .replace ⟨0⟩ { selector := ⟨1⟩, argCount := 1, steps := [.send ⟨0⟩ (.arg 0) []] },
  .link ⟨1⟩, .compile (.send ⟨0⟩ ⟨1⟩),
  .setProcesses { callStacks :=
    List.replicate 4 [{ key := .send ⟨0⟩ ⟨1⟩, method := ⟨1⟩, execution := .compiled ⟨0⟩ 0 }] },
  .trap ⟨0⟩ 0 0, .trap ⟨1⟩ 0 0, .trap ⟨2⟩ 0 0]

/-- The second firing gives up the code, which the third one finds invalid. The trap in the fourth
    process may fire yet. -/
theorem firings_exact_trapsInTurn :
    ∃ (s : Settings) (start e : Engine) (log : List Firing) (n : NativeMethod),
    s = { traps := { threshold := 2 } } ∧ start = startWith s .initial ∧
      start.trapsGrounded trapsInTurn ∧
    e = start.run trapsInTurn ∧ log = start.firings trapsInTurn ∧
    log.map (fun f => (f.valid, f.fired.patched, f.fired.trapCount, f.retires)) =
      [(true, true, 1, false), (true, false, 2, true), (false, false, 3, false)] ∧
    log.filter (fun f => f.native = ⟨0⟩ && f.retires) =
      (log.find? fun f => f.native = ⟨0⟩ && f.isDue s).toList ∧
    e.code.get? ⟨0⟩ = some n ∧ n.trapCount = log.countP (·.native = ⟨0⟩) ∧
    e.traps.backoff (.send ⟨0⟩ ⟨1⟩) =
      min s.recompile.maxBackoff.toNat (log.countP fun f => f.key = .send ⟨0⟩ ⟨1⟩ && f.retires) ∧
    ∃ fired, e.firing? (.trap ⟨3⟩ 0 0) = some ⟨⟨0⟩, n.key, 0, false, fired⟩ := by
  -- The engines are named, so that no step below evaluates them by accident.
  obtain ⟨s, hs⟩ : ∃ s : Settings, s = { traps := { threshold := 2 } } := ⟨_, rfl⟩
  obtain ⟨start, hstart⟩ : ∃ start, start = startWith s .initial := ⟨_, rfl⟩
  obtain ⟨e, he⟩ : ∃ e, e = start.run trapsInTurn := ⟨_, rfl⟩
  obtain ⟨log, hlog⟩ : ∃ log, log = start.firings trapsInTurn := ⟨_, rfl⟩
  have hg : start.trapsGrounded trapsInTurn := by
    rw [hstart, hs]
    decide +kernel
  have hgrounded : e.isGrounded ∧ e.processes.inScheduler = false := by
    rw [he, hstart, hs]
    decide +kernel
  have hframe : e.processes.frame? (⟨3⟩, 0) =
      some { key := .send ⟨0⟩ ⟨1⟩, method := ⟨1⟩, execution := .compiled ⟨0⟩ 0 } := by
    rw [he, hstart, hs]
    decide +kernel
  have hcode : (e.code.get? ⟨0⟩).any fun n => 0 < n.traps.length && !n.isValid := by
    rw [he, hstart, hs]
    decide +kernel
  obtain ⟨n, hn, htraps⟩ := (Option.any_eq_true _ _).1 hcode
  simp only [Bool.and_eq_true, decide_eq_true_eq, Bool.not_eq_true'] at htraps
  have hexact := firings_exact s .initial (hstart ▸ hg)
  simp only [← hstart, ← he, ← hlog] at hexact
  obtain ⟨hretirements, -, hcounted, -, hbackoff, hfires⟩ := hexact
  have hcount : n.trapCount = log.countP (·.native = ⟨0⟩) := hcounted ⟨0⟩ n hn
  have hlength : log.map (fun f => (f.valid, f.fired.patched, f.fired.trapCount, f.retires)) =
      [(true, true, 1, false), (true, false, 2, true), (false, false, 3, false)] := by
    rw [hlog, hstart, hs]
    decide +kernel
  refine ⟨s, start, e, log, n, hs, hstart, hg, he, hlog, hlength, hretirements ⟨0⟩,
    hn, hcount, hbackoff _, ?_⟩
  have hfit : n.trapCount + 1 < Word.size 32 := by
    have hthree : log.length = 3 := by simpa using congrArg List.length hlength
    have hle : n.trapCount ≤ log.length := hcount ▸ List.countP_le_length
    exact Nat.lt_of_le_of_lt (Nat.succ_le_succ (hthree ▸ hle)) (by decide)
  have hfire := hfires hgrounded.1 hgrounded.2 ⟨3⟩ 0 0 _ ⟨0⟩ 0 n hframe rfl hn htraps.1 hfit
  rwa [htraps.2] at hfire

end Engine

end Warmup
