import Warmup.Proofs.Definitions

/-!
# Logs of definitions

A class table answers by its dictionaries and marks the methods that were replaced. Both are kept up
to date by hand, definition by definition. Here the definitions that were made in a fresh table are
written down, each with its answer (`ClassTable.Logged`), and the log alone says which method a
class has for a selector (`Latest`), which methods were replaced (`Replaced`), and what is above a
class (`Declared`). The table agrees with its log (`Logged.agrees`):

* `Tracks`, `Logged.tracks`: dictionaries and marks are those of the log;
* `Descends`, `Logged.descends`: superclasses are those of the log, and were there first, so that
  every chain ends;
* `lookup_eq_some_iff`: what is found is the own method of the first class on the chain that has
  one. -/

namespace Warmup

/-- A definition that is made in a class table. -/
inductive Definition
  | selector (name : String)
  | cls (name : String) (superclass : Option ClassId)
  | method (c : ClassId) (d : Draft)
  | block (home : MethodId) (d : Draft)

/-- What a definition answers. -/
inductive Defined
  | selector (s : Selector)
  | cls (c : ClassId)
  | method (m : MethodId)
  deriving DecidableEq

/-- A definition with its answer. -/
structure LogEntry where
  call : Definition
  answer : Except Fault Defined

namespace LogEntry

/-- The class, the selector and the method, if a method was put into a dictionary. -/
def installed? : LogEntry → Option (ClassId × Selector × MethodId)
  | ⟨.method c d, .ok (.method m)⟩ => some (c, d.selector, m)
  | _ => none

/-- The class that was asked for and the superclass that was named for it. -/
def declared? : LogEntry → Option (ClassId × Option ClassId)
  | ⟨.cls _ superclass, .ok (.cls c)⟩ => some (c, superclass)
  | _ => none

end LogEntry

/-! ## What a log says -/

namespace DefinitionLog

variable (log : List LogEntry)

/-- The entry at place `i` puts a method into the dictionary of a class. -/
def Installs (i : Nat) (c : ClassId) (s : Selector) (m : MethodId) : Prop :=
  log[i]?.bind LogEntry.installed? = some (c, s, m)

/-- Some method was put into the dictionary of a class for a selector. -/
def Has (c : ClassId) (s : Selector) : Prop := ∃ i m, Installs log i c s m

/-- The method was put into the dictionary of a class for a selector, and none was later on. -/
def Latest (c : ClassId) (s : Selector) (m : MethodId) : Prop :=
  ∃ i, Installs log i c s m ∧ ∀ j m', i < j → ¬Installs log j c s m'

/-- The method was put into a dictionary, and another one for the same class and selector later
    on. -/
def Replaced (m : MethodId) : Prop :=
  ∃ i j c s m', i < j ∧ Installs log i c s m ∧ Installs log j c s m'

/-- The entry at place `i` asks for a class, with or without a superclass. -/
def Declares (i : Nat) (c : ClassId) (superclass : Option ClassId) : Prop :=
  log[i]?.bind LogEntry.declared? = some (c, superclass)

/-- The class has a superclass: from the start, or since it was first asked for. -/
def Declared (c d : ClassId) : Prop :=
  ClassTable.initial.superclass? c = some d ∨ ClassTable.initial.class? c = none ∧
    ∃ i, Declares log i c (some d) ∧ ∀ j superclass, j < i → ¬Declares log j c superclass

variable {log} {x : LogEntry} {i : Nat} {c d : ClassId} {s : Selector} {m : MethodId}

/-- What can be read off the entries of a log that has become longer. -/
theorem bind_append_iff {α : Type} (f : LogEntry → Option α) {a : α} :
    (log ++ [x])[i]?.bind f = some a ↔ log[i]?.bind f = some a ∨ i = log.length ∧ f x = some a := by
  rcases Nat.lt_trichotomy i log.length with h | rfl | h
  · rw [List.getElem?_append_left h]
    simp [h.ne]
  · simp
  · rw [List.getElem?_eq_none (by simpa using Nat.succ_le_of_lt h), List.getElem?_eq_none h.le]
    simp [h.ne']

/-- A definition that comes last adds at most one installation. -/
theorem installs_append : Installs (log ++ [x]) i c s m ↔
    Installs log i c s m ∨ i = log.length ∧ x.installed? = some (c, s, m) := bind_append_iff _

/-- A definition that comes last declares at most one class. -/
theorem declares_append {superclass : Option ClassId} : Declares (log ++ [x]) i c superclass ↔
    Declares log i c superclass ∨ i = log.length ∧ x.declared? = some (c, superclass) :=
  bind_append_iff _

theorem lt_length_of_bind {α : Type} {f : LogEntry → Option α} {a : α}
    (h : log[i]?.bind f = some a) :
    i < log.length := by
  obtain ⟨x, hx, -⟩ := Option.bind_eq_some_iff.1 h
  exact (List.getElem?_eq_some_iff.1 hx).1

theorem Installs.lt_length (h : Installs log i c s m) : i < log.length := lt_length_of_bind h

theorem Latest.has (h : Latest log c s m) : Has log c s := by
  obtain ⟨i, hi, -⟩ := h
  exact ⟨i, m, hi⟩

/-- A method that was put into a dictionary is still the latest there, or it was replaced. -/
theorem Installs.latest_or_replaced (h : Installs log i c s m) :
    Latest log c s m ∨ Replaced log m := by
  by_cases hlater : ∃ j m', i < j ∧ Installs log j c s m'
  · obtain ⟨j, m', hlt, hj⟩ := hlater
    exact .inr ⟨i, j, c, s, m', hlt, h, hj⟩
  · exact .inl ⟨i, h, fun j m' hlt hj => hlater ⟨j, m', hlt, hj⟩⟩

/-! ### A further entry -/

section Quiet

variable (hx : x.installed? = none)
include hx

/-- What installs nothing leaves the installations as they were. -/
theorem installs_append_of_quiet : Installs (log ++ [x]) i c s m ↔ Installs log i c s m := by
  simp [installs_append, hx]

theorem has_append_of_quiet : Has (log ++ [x]) c s ↔ Has log c s := by
  simp only [Has, installs_append_of_quiet hx]

/-- What installs nothing leaves the latest methods as they were. -/
theorem latest_append_of_quiet : Latest (log ++ [x]) c s m ↔ Latest log c s m := by
  simp only [Latest, installs_append_of_quiet hx]

/-- What installs nothing replaces nothing. -/
theorem replaced_append_of_quiet : Replaced (log ++ [x]) m ↔ Replaced log m := by
  simp only [Replaced, installs_append_of_quiet hx]

end Quiet

section Install

variable {c' : ClassId} {s' : Selector} {m' : MethodId} (hx : x.installed? = some (c', s', m'))
include hx

theorem has_append : Has (log ++ [x]) c s ↔ Has log c s ∨ c = c' ∧ s = s' := by
  simp only [Has, installs_append, hx, Option.some.injEq, Prod.mk.injEq]
  constructor
  · rintro ⟨i, m, h | ⟨-, rfl, rfl, -⟩⟩
    · exact .inl ⟨i, m, h⟩
    · exact .inr ⟨rfl, rfl⟩
  · rintro (⟨i, m, h⟩ | ⟨rfl, rfl⟩)
    · exact ⟨i, m, .inl h⟩
    · exact ⟨log.length, m', .inr ⟨rfl, rfl, rfl, rfl⟩⟩

/-- The new method is the latest one in its place, and elsewhere the latest ones stay. -/
theorem latest_append :
    Latest (log ++ [x]) c s m ↔ if c = c' ∧ s = s' then m = m' else Latest log c s m := by
  simp only [Latest, installs_append, hx, Option.some.injEq, Prod.mk.injEq]
  split
  · -- The new method is the latest one of its class and selector.
    next hplace =>
    obtain ⟨rfl, rfl⟩ := hplace
    constructor
    · rintro ⟨i, hi | ⟨-, -, -, rfl⟩, hlater⟩
      · exact absurd (.inr ⟨rfl, rfl, rfl, rfl⟩) (hlater log.length m' hi.lt_length)
      · rfl
    · rintro rfl
      refine ⟨log.length, .inr ⟨rfl, rfl, rfl, rfl⟩, fun j k hlt hj => ?_⟩
      rcases hj with hj | ⟨rfl, -⟩
      · exact absurd hj.lt_length (Nat.lt_asymm hlt)
      · exact absurd hlt (Nat.lt_irrefl _)
  · next hplace =>
    have helsewhere (j : Nat) (k : MethodId) : ¬(j = log.length ∧ c' = c ∧ s' = s ∧ m' = k) :=
      fun ⟨_, hc, hs, _⟩ => hplace ⟨hc.symm, hs.symm⟩
    simp only [helsewhere, or_false]

/-- The new method replaces the latest one in its place. -/
theorem replaced_append : Replaced (log ++ [x]) m ↔ Replaced log m ∨ Latest log c' s' m := by
  constructor
  · rintro ⟨i, j, c, s, k, hlt, hi, hj⟩
    rw [installs_append] at hi hj
    rcases hi with hi | ⟨rfl, -⟩
    · rcases hj with hj | ⟨-, hj⟩
      · exact .inl ⟨i, j, c, s, k, hlt, hi, hj⟩
      · rw [hx, Option.some.injEq, Prod.mk.injEq, Prod.mk.injEq] at hj
        obtain ⟨rfl, rfl, -⟩ := hj
        exact hi.latest_or_replaced.symm
    · -- Nothing is later than the last entry.
      rcases hj with hj | ⟨rfl, -⟩
      · exact absurd hj.lt_length (Nat.lt_asymm hlt)
      · exact absurd hlt (Nat.lt_irrefl _)
  · rintro (⟨i, j, c, s, k, hlt, hi, hj⟩ | ⟨i, hi, -⟩)
    · exact ⟨i, j, c, s, k, hlt, installs_append.2 (.inl hi), installs_append.2 (.inl hj)⟩
    · exact ⟨i, log.length, c', s', m', hi.lt_length, installs_append.2 (.inl hi),
        installs_append.2 (.inr ⟨rfl, hx⟩)⟩

end Install

end DefinitionLog

/-! ## Tables and their logs -/

/-- Whether a class is to have no superclass, or one that exists. -/
def Definition.isAnchored (t : ClassTable) : Definition → Bool
  | cls _ superclass => superclass.all fun d => (t.class? d).isSome
  | _ => true

/-- What a definition fails for: the class or the home that it is made in does not exist. -/
def Definition.fault? (t : ClassTable) : Definition → Option Fault
  | method c _ => if (t.class? c).isSome then none else some (.unknown .cls c.index)
  | block home _ => if (t.method? home).isSome then none else some (.unknown .method home.index)
  | _ => none

namespace ClassTable

open DefinitionLog

/-- What is left of a definition of a method: the table as it was, if it fails. -/
def attempt (t : ClassTable) (x : Except Fault (ClassTable × MethodId)) :
    Outcome ClassTable Defined :=
  match x with
  | .ok (t', m) => .done t' (.method m)
  | .error f => .fail t f

/-- The table after a definition, and its answer. -/
def define (t : ClassTable) : Definition → Outcome ClassTable Defined
  | .selector name => .done (t.intern name).1 (.selector (t.intern name).2)
  | .cls name superclass =>
    .done (t.defineClass name superclass).1 (.cls (t.defineClass name superclass).2)
  | .method c d => t.attempt (t.addMethod c d)
  | .block home d => t.attempt (t.addBlock home d)

/-- The logs of fresh tables, with the tables that they lead to. -/
inductive Logged : List LogEntry → ClassTable → Prop
  | fresh : Logged [] initial
  | define {log : List LogEntry} {t : ClassTable} (call : Definition) :
    Logged log t → call.isAnchored t →
    Logged (log ++ [⟨call, (t.define call).result⟩]) (t.define call).state

variable {log : List LogEntry} {t : ClassTable} {c d : ClassId} {s : Selector} {m : MethodId}
  {call : Definition}

theorem define_method {b : Draft} {t' : ClassTable} (h : t.addMethod c b = .ok (t', m)) :
    t.define (.method c b) = .done t' (.method m) := by
  rw [define, h]
  rfl

/-- A definition puts a method into a dictionary, or no dictionary changes and no method gets a
    mark. -/
theorem define_cases (t : ClassTable) (call : Definition) :
    (∃ c b t' m, call = .method c b ∧ t.addMethod c b = .ok (t', m)) ∨
      LogEntry.installed? ⟨call, (t.define call).result⟩ = none ∧ t.Extends (t.define call).state ∧
        ∀ m e, (t.define call).state.method? m = some e → t.method? m = some e ∨
          e.superseded = false := by
  cases call with
  | selector name =>
    refine .inr ⟨rfl, t.extends_intern name, fun m e he => .inl ?_⟩
    simp only [define, Outcome.done, intern] at he
    split at he <;> exact he
  | cls name superclass =>
    refine .inr ⟨rfl, t.extends_defineClass name superclass, fun m e he => .inl ?_⟩
    simp only [define, Outcome.done, defineClass] at he
    split at he <;> exact he
  -- Only a method that is defined without failure gets into a dictionary.
  | method c b =>
    rcases h : t.addMethod c b with f | ⟨t', m⟩
    · rw [define, h]
      exact .inr ⟨rfl, .refl t, fun _ _ he => .inl he⟩
    · exact .inl ⟨c, b, t', m, rfl, h⟩
  | block home b =>
    rcases h : t.addBlock home b with f | ⟨t', m⟩
    · rw [define, h]
      exact .inr ⟨rfl, .refl t, fun _ _ he => .inl he⟩
    · refine .inr ?_
      rw [define, h]
      refine ⟨rfl, extends_addBlock h, fun k e he => ?_⟩
      rcases method?_addBlock_cases h he with he | ⟨f, -, -, rfl⟩
      · exact .inl he
      · exact .inr rfl

/-- The table of a log is built by its definitions. -/
theorem Logged.built (h : Logged log t) : t.Built := by
  induction h with
  | fresh => exact .initial
  | @define log t call _ _ ih =>
    cases call with
    | selector name => exact .intern name ih
    | cls name superclass => exact .defineClass name superclass ih
    | method c b =>
      rcases h : t.addMethod c b with f | ⟨t', m⟩ <;> rw [ClassTable.define, h]
      · exact ih
      · exact .addMethod ih h
    | block home b =>
      rcases h : t.addBlock home b with f | ⟨t', m⟩ <;> rw [ClassTable.define, h]
      · exact ih
      · exact .addBlock ih h

/-! ## Dictionaries and marks -/

/-- The dictionaries have the methods that are the latest ones by the log, and the methods with a
    mark are those that were replaced by the log. -/
structure Tracks (log : List LogEntry) (t : ClassTable) : Prop where
  latest : ∀ c s m, t.localMethod? c s = some m ↔ Latest log c s m
  has : ∀ c s, Has log c s → (t.localMethod? c s).isSome
  method : ∀ i c s m, Installs log i c s m → ∃ e, t.method? m = some e ∧ e.home = none
  superseded : ∀ m e, t.method? m = some e → (e.superseded ↔ Replaced log m)

/-- A fresh table has no methods, and its log is empty. -/
theorem tracks_fresh : Tracks [] initial where
  latest c s m := by
    have hnone : ¬Latest [] c s m := fun ⟨i, hi, _⟩ => by simp [Installs] at hi
    refine iff_of_false (fun h => ?_) hnone
    obtain ⟨e, he, -⟩ := WellFormed.initial.filed c s m h
    simp [method?, ClassTable.initial] at he
  has c s := fun ⟨i, m, hi⟩ => by simp [Installs] at hi
  method i c s m hi := by simp [Installs] at hi
  superseded m e he := by simp [method?, ClassTable.initial] at he

/-- A definition that puts nothing into a dictionary changes neither the answers nor the marks. -/
theorem Tracks.extend (h : Tracks log t) {x : LogEntry} (hx : x.installed? = none) {t' : ClassTable}
    (hext : t.Extends t')
    (hnew : ∀ m e, t'.method? m = some e → t.method? m = some e ∨ e.superseded = false) :
    Tracks (log ++ [x]) t' where
  latest c s m := by rw [hext.localMethod, h.latest, latest_append_of_quiet hx]
  has c s hs := by
    rw [hext.localMethod]
    exact h.has c s ((has_append_of_quiet hx).1 hs)
  method i c s m hi := by
    obtain ⟨e, he, hhome⟩ := h.method i c s m ((installs_append_of_quiet hx).1 hi)
    exact ⟨e, hext.method m e he, hhome⟩
  superseded m e he := by
    rw [replaced_append_of_quiet hx]
    rcases hnew m e he with hold | hfalse
    · exact h.superseded m e hold
    · -- What was replaced was there before, with its mark.
      refine ⟨fun htrue => by simp [hfalse] at htrue, fun hreplaced => ?_⟩
      obtain ⟨i, _, c, s, _, -, hi, -⟩ := id hreplaced
      obtain ⟨e', he', -⟩ := h.method i c s m hi
      obtain rfl := Option.some.inj ((hext.method m e' he').symm.trans he)
      exact (h.superseded m e' he').2 hreplaced

/-- A method that is defined takes the place of the one before, which is marked. -/
theorem Tracks.addMethod (h : Tracks log t) {b : Draft} {t' : ClassTable}
    (ht : t.addMethod c b = .ok (t', m)) :
    Tracks (log ++ [⟨.method c b, .ok (.method m)⟩]) t' where
  latest c' s k := by
    rw [localMethod?_addMethod ht, latest_append rfl]
    split
    · rw [Option.some.injEq, eq_comm]
    · exact h.latest c' s k
  has c' s hs := by
    rw [localMethod?_addMethod ht]
    split
    · rfl
    · next hplace => exact h.has c' s (((has_append rfl).1 hs).resolve_right hplace)
  method i c' s k hi := by
    rcases installs_append.1 hi with hi | ⟨-, heq⟩
    · obtain ⟨e, he, hhome⟩ := h.method i c' s k hi
      obtain ⟨mark, he'⟩ := exists_method?_addMethod ht he
      exact ⟨_, he', hhome⟩
    · obtain ⟨-, -, rfl⟩ : c = c' ∧ b.selector = s ∧ m = k := by
        simpa [LogEntry.installed?] using heq
      exact ⟨_, method?_addMethod_self ht, rfl⟩
  superseded k e he := by
    rw [replaced_append rfl, ← h.latest]
    by_cases hk : k = m
    · -- The new method has no mark, and nothing in the log knows it.
      subst hk
      rw [method?_addMethod_self ht] at he
      obtain rfl := Option.some.inj he
      have hunknown : t.method? k = none := by
        rcases hold : t.method? k with _ | e'
        · rfl
        · exact absurd rfl (ne_of_addMethod ht hold)
      have hfresh {i : Nat} {c' : ClassId} {s : Selector} : ¬Installs log i c' s k := fun hi => by
        obtain ⟨e', he', -⟩ := h.method i c' s k hi
        simp [hunknown] at he'
      refine iff_of_false (by simp [Draft.finish]) ?_
      rintro (⟨i, _, c', s, _, -, hi, -⟩ | hlocal)
      · exact hfresh hi
      · obtain ⟨i, hi, -⟩ := (h.latest c b.selector k).1 hlocal
        exact hfresh hi
    · rw [method?_addMethod ht hk] at he
      obtain ⟨e', he', rfl⟩ := Option.map_eq_some_iff.1 he
      rw [← h.superseded k e' he']
      split
      · next hlocal => simp [hlocal]
      · next hlocal => simp [hlocal]

/-- Dictionaries and marks are those of the log, whatever was defined. -/
theorem Logged.tracks (h : Logged log t) : Tracks log t := by
  induction h with
  | fresh => exact tracks_fresh
  | @define log t call _ _ ih =>
    rcases t.define_cases call with ⟨c, b, t', m, rfl, ht⟩ | ⟨hx, hext, hnew⟩
    · rw [define_method ht]
      exact ih.addMethod ht
    · exact ih.extend hx hext hnew

/-! ## Superclasses -/

/-- The classes are those of a fresh table and those of the log. Their superclasses are the ones
    that were named when they were first asked for, and are older. -/
structure Descends (log : List LogEntry) (t : ClassTable) : Prop where
  cls : ∀ c, (t.class? c).isSome ↔ (initial.class? c).isSome ∨ ∃ i superclass,
    Declares log i c superclass
  superclass : ∀ c d, t.superclass? c = some d ↔ Declared log c d
  older : ∀ c d, t.superclass? c = some d → d.index < c.index

/-- The classes of a fresh table stand below the first one. -/
theorem descends_fresh : Descends [] initial where
  cls c := by simp [Declares]
  superclass c d := by simp [Declared, Declares]
  older c d h := by
    have hall : ∀ i < initial.classes.length, ∀ d ∈ initial.classes[i]?.bind (·.superclass),
        d.index < i := by
      decide
    exact hall c.index (lt_length_of_superclass? h) d h

/-- A definition adds a class, or all classes are what they were, and one that was asked for
    exists. -/
theorem define_cases_cls (t : ClassTable) (call : Definition) :
    (∃ name superclass, call = .cls name superclass ∧ t.define call =
      .done { t with classes := t.classes ++ [⟨name, superclass, []⟩] } (.cls ⟨t.classes.length⟩)) ∨
    (∀ c superclass, LogEntry.declared? ⟨call, (t.define call).result⟩ = some (c, superclass) →
      (t.class? c).isSome) ∧ (∀ c, (t.define call).state.superclass? c = t.superclass? c) ∧
      ∀ c, ((t.define call).state.class? c).isSome = (t.class? c).isSome := by
  cases call with
  | selector name =>
    refine .inr ⟨by rintro _ _ ⟨⟩, fun c => ?_, fun c => ?_⟩
    all_goals
      simp only [define, Outcome.done, intern]
      split <;> rfl
  | cls name superclass =>
    -- A name that is taken gives the class that has it.
    rcases h : t.classNamed? name with _ | c
    · refine .inl ⟨name, superclass, rfl, ?_⟩
      rw [define, defineClass, h]
    · refine .inr ?_
      rw [define, defineClass, h]
      refine ⟨?_, fun _ => rfl, fun _ => rfl⟩
      rintro _ _ ⟨⟩
      obtain ⟨i, hi, rfl⟩ := Option.map_eq_some_iff.1 h
      obtain ⟨hlt, -⟩ := List.findIdx?_eq_some_iff_getElem.1 hi
      simp [class?, hlt]
  | method c b =>
    rcases h : t.addMethod c b with f | ⟨t', m⟩
    · rw [define, h]
      exact .inr ⟨by rintro _ _ ⟨⟩, fun _ => rfl, fun _ => rfl⟩
    · refine .inr ?_
      rw [define_method h]
      refine ⟨by rintro _ _ ⟨⟩, superclass?_addMethod h, fun x => ?_⟩
      rw [Outcome.done, class?_addMethod h]
      split
      · next hx => rw [hx, Option.isSome_map]
      · rfl
  | block home b =>
    rcases h : t.addBlock home b with f | ⟨t', m⟩
    · rw [define, h]
      exact .inr ⟨by rintro _ _ ⟨⟩, fun _ => rfl, fun _ => rfl⟩
    · refine .inr ?_
      rw [define, h]
      obtain ⟨e, -, h⟩ := exists_ok_of_bind h
      obtain ⟨rfl, -⟩ := Prod.mk.inj (Except.ok.inj h)
      exact ⟨by rintro _ _ ⟨⟩, fun _ => rfl, fun _ => rfl⟩

/-- A definition that declares no new class leaves superclasses as they were. -/
theorem Descends.same (h : Descends log t) {x : LogEntry} {t' : ClassTable}
    (hx : ∀ c superclass, x.declared? = some (c, superclass) → (t.class? c).isSome)
    (hsuper : ∀ c, t'.superclass? c = t.superclass? c)
    (hcls : ∀ c, (t'.class? c).isSome = (t.class? c).isSome) :
    Descends (log ++ [x]) t' where
  cls c := by
    rw [hcls]
    constructor
    · intro hc
      refine ((h.cls c).1 hc).imp_right ?_
      rintro ⟨i, superclass, hi⟩
      exact ⟨i, superclass, declares_append.2 (.inl hi)⟩
    · rintro (hc | ⟨i, superclass, hi⟩)
      · exact (h.cls c).2 (.inl hc)
      · rcases declares_append.1 hi with hi | ⟨-, hi⟩
        · exact (h.cls c).2 (.inr ⟨i, superclass, hi⟩)
        · exact hx c superclass hi
  superclass c d := by
    rw [hsuper, h.superclass]
    refine or_congr_right (and_congr_right fun hinitial => ?_)
    constructor
    · rintro ⟨i, hi, hfirst⟩
      refine ⟨i, declares_append.2 (.inl hi), fun j superclass hj hdeclares => ?_⟩
      rcases declares_append.1 hdeclares with hdeclares | ⟨rfl, -⟩
      · exact hfirst j superclass hj hdeclares
      · exact Nat.lt_asymm hj (lt_length_of_bind hi)
    · rintro ⟨i, hi, hfirst⟩
      have hfirst' (j : Nat) (superclass : Option ClassId) (hj : j < i) :
          ¬Declares log j c superclass :=
        fun hdeclares => hfirst j superclass hj (declares_append.2 (.inl hdeclares))
      rcases declares_append.1 hi with hi | ⟨rfl, hasked⟩
      · exact ⟨i, hi, hfirst'⟩
      · -- The class exists, so it was asked for before.
        obtain hc | ⟨j, superclass, hj⟩ := (h.cls c).1 (hx c (some d) hasked)
        · simp [hinitial] at hc
        · exact absurd hj (hfirst' j superclass (lt_length_of_bind hj))
  older c d hd := h.older c d (hsuper c ▸ hd)

theorem Descends.defineClass (h : Descends log t) {name : String} {superclass : Option ClassId}
    (hanchored : ∀ d, superclass = some d → (t.class? d).isSome) :
    Descends (log ++ [⟨.cls name superclass, .ok (.cls ⟨t.classes.length⟩)⟩])
      { t with classes := t.classes ++ [⟨name, superclass, []⟩] } := by
  have hsuper (c : ClassId) :
      ({ t with classes := t.classes ++ [⟨name, superclass, []⟩] } : ClassTable).superclass? c =
      if c.index = t.classes.length then superclass else t.superclass? c := by
    rw [superclass?, class?_append]
    split <;> rfl
  -- The new class is in no fresh table, and was never asked for.
  have hnew : ¬(t.class? ⟨t.classes.length⟩).isSome := by simp [class?_length]
  have hdeclared {i : Nat} {c : ClassId} {sup : Option ClassId} :
      Declares (log ++ [⟨.cls name superclass, .ok (.cls ⟨t.classes.length⟩)⟩]) i c sup ↔
        Declares log i c sup ∨ i = log.length ∧ ⟨t.classes.length⟩ = c ∧ superclass = sup := by
    simp [declares_append, LogEntry.declared?]
  refine ⟨fun c => ?_, fun c d => ?_, fun c d hd => ?_⟩
  · rw [class?_append]
    simp only [hdeclared]
    by_cases hc : c.index = t.classes.length
    · rw [if_pos hc]
      exact iff_of_true rfl (.inr ⟨log.length, superclass, .inr ⟨rfl, by rw [← hc], rfl⟩⟩)
    · have hne : ⟨t.classes.length⟩ ≠ c := fun heq => hc (by rw [← heq])
      rw [if_neg hc, h.cls]
      simp [hne]
  · rw [hsuper, Declared]
    simp only [hdeclared]
    by_cases hc : c.index = t.classes.length
    · obtain rfl : c = ⟨t.classes.length⟩ := by rw [← hc]
      obtain ⟨hinitial, hunasked⟩ := not_or.1 (mt (h.cls ⟨t.classes.length⟩).2 hnew)
      have hnone : initial.class? ⟨t.classes.length⟩ = none := by simpa using hinitial
      rw [if_pos rfl, superclass?, hnone]
      constructor
      · rintro rfl
        refine .inr ⟨rfl, log.length, .inr ⟨rfl, rfl, rfl⟩, fun j sup hj hdeclares => ?_⟩
        rcases hdeclares with hdeclares | ⟨rfl, -⟩
        · exact hunasked ⟨j, sup, hdeclares⟩
        · exact Nat.lt_irrefl _ hj
      · rintro (hd | ⟨-, i, hi | ⟨-, -, hsup⟩, -⟩)
        · cases hd
        · exact absurd ⟨i, some d, hi⟩ hunasked
        · exact hsup
    · have hne : ⟨t.classes.length⟩ ≠ c := fun heq => hc (by rw [← heq])
      rw [if_neg hc, h.superclass]
      simp [hne, Declared]
  · rw [hsuper] at hd
    split at hd
    · next hc =>
      obtain ⟨e, he⟩ := Option.isSome_iff_exists.1 (hanchored d hd)
      rw [hc]
      exact (List.getElem?_eq_some_iff.1 he).1
    · exact h.older c d hd

/-- Superclasses are those of the log, and come first in it. -/
theorem Logged.descends (h : Logged log t) : Descends log t := by
  induction h with
  | fresh => exact descends_fresh
  | @define log t call _ hanchored ih =>
    rcases t.define_cases_cls call with ⟨name, superclass, rfl, hdefine⟩ | ⟨hx, hsuper, hcls⟩
    · rw [hdefine]
      refine ih.defineClass fun d hd => ?_
      subst hd
      exact hanchored
    · exact ih.same hx hsuper hcls

/-- Every step up the chain of a class leads to an older one. -/
theorem Descends.index_add_le (h : Descends log t) {k : Nat} (hk : t.ancestor? k c = some d) :
    d.index + k ≤ c.index := by
  induction k generalizing c with
  | zero =>
    cases hk
    exact Nat.le_refl _
  | succ k ih =>
    obtain ⟨x, hx, hk⟩ := Option.bind_eq_some_iff.1 hk
    have hlt := h.older c x hx
    have hle := ih hk
    omega

/-! ## Lookup -/

/-- What is found is the own method of the first class on the chain that has one. -/
theorem lookup_eq_some_iff :
    t.lookup c s = some m ↔ ∃ k d, t.ancestor? k c = some d ∧ t.localMethod? d s = some m ∧
    ∀ j x, j < k → t.ancestor? j c = some x → t.localMethod? x s = none := by
  -- One direction: the first method on the chain is found, by induction on how far up it is.
  have hfirst {k : Nat} {d : ClassId} {m : MethodId} (hd : t.ancestor? k c = some d)
      (hm : t.localMethod? d s = some m)
      (hbefore : ∀ j x, j < k → t.ancestor? j c = some x → t.localMethod? x s = none) :
      t.lookup c s = some m := by
    induction k generalizing c with
    | zero =>
      cases hd
      exact lookup_eq_of_local hm
    | succ k ih =>
      obtain ⟨y, hy, hd⟩ := Option.bind_eq_some_iff.1 hd
      rw [lookup_eq_of_super (hbefore 0 c (Nat.succ_pos k) rfl) hy]
      refine ih hd fun j x hj hx => hbefore (j + 1) x (Nat.succ_lt_succ hj) ?_
      rw [ancestor?, hy]
      exact hx
  constructor
  · intro h
    obtain ⟨d, hd, hm⟩ := exists_local_of_lookup h
    have hsome : ∃ k d m, t.ancestor? k c = some d ∧ t.localMethod? d s = some m := by
      obtain ⟨k, hk⟩ := mem_chain_iff.1 hd
      exact ⟨k, d, m, hk, hm⟩
    -- The other one: what is found is somewhere on the chain, so there is a first place with a
    -- method.
    classical
    obtain ⟨d', m', hd', hm'⟩ := Nat.find_spec hsome
    have hbefore (j : Nat) (x : ClassId) (hj : j < Nat.find hsome) (hx : t.ancestor? j c = some x) :
        t.localMethod? x s = none := by
      rcases hm : t.localMethod? x s with _ | m''
      · rfl
      · exact absurd ⟨x, m'', hx, hm⟩ (Nat.find_min hsome hj)
    obtain rfl := Option.some.inj (h.symm.trans (hfirst hd' hm' hbefore))
    exact ⟨Nat.find hsome, d', hd', hm', hbefore⟩
  · rintro ⟨k, d, hd, hm, hbefore⟩
    exact hfirst hd hm hbefore

/-- The first class on the chain of a class that has a method for a selector by the log. -/
def Nearest (t : ClassTable) (log : List LogEntry) (c : ClassId) (s : Selector) (d : ClassId) :
    Prop :=
  ∃ k, t.ancestor? k c = some d ∧ Has log d s ∧ ∀ j x, j < k →
    t.ancestor? j c = some x → ¬Has log x s

namespace Tracks

/-- A class has no own method exactly if the log has none for it. -/
theorem localMethod?_eq_none_iff (h : Tracks log t) : t.localMethod? c s = none ↔ ¬Has log c s := by
  rw [← Option.not_isSome_iff_eq_none, not_iff_not]
  refine ⟨fun hsome => ?_, h.has c s⟩
  obtain ⟨m, hm⟩ := Option.isSome_iff_exists.1 hsome
  exact ((h.latest c s m).1 hm).has

/-- What is found is the latest method of the nearest class that has one, by the log. -/
theorem lookup_eq_some_iff (h : Tracks log t) :
    t.lookup c s = some m ↔ ∃ d, t.Nearest log c s d ∧ Latest log d s m := by
  rw [ClassTable.lookup_eq_some_iff]
  constructor
  · rintro ⟨k, d, hd, hm, hbefore⟩
    have hlatest := (h.latest d s m).1 hm
    exact ⟨d, ⟨k, hd, hlatest.has,
      fun j x hj hx => h.localMethod?_eq_none_iff.1 (hbefore j x hj hx)⟩, hlatest⟩
  · rintro ⟨d, ⟨k, hd, -, hbefore⟩, hlatest⟩
    exact ⟨k, d, hd, (h.latest d s m).2 hlatest,
      fun j x hj hx => h.localMethod?_eq_none_iff.2 (hbefore j x hj hx)⟩

/-- What is found was put into the dictionary of the nearest class, and was not replaced there. -/
theorem method_of_lookup (h : Tracks log t) (hw : t.WellFormed) (hm : t.lookup c s = some m)
    (hd : t.Nearest log c s d) :
    ∃ e, t.method? m = some e ∧ e.holder = d ∧ e.selector = s ∧ e.home = none ∧
      e.superseded = false := by
  obtain ⟨k, hk, hhas, hbefore⟩ := hd
  obtain ⟨m', hlocal⟩ := Option.isSome_iff_exists.1 (h.has d s hhas)
  have hm' : t.lookup c s = some m' := ClassTable.lookup_eq_some_iff.2
    ⟨k, d, hk, hlocal, fun j x hj hx => h.localMethod?_eq_none_iff.2 (hbefore j x hj hx)⟩
  obtain rfl := Option.some.inj (hm.symm.trans hm')
  obtain ⟨e, he, hholder, hselector, hmark⟩ := hw.filed d s m hlocal
  obtain ⟨i, hi, -⟩ := (h.latest d s m).1 hlocal
  obtain ⟨e', he', hhome⟩ := h.method i d s m hi
  obtain rfl := Option.some.inj (he.symm.trans he')
  exact ⟨e, he, hholder, hselector, hhome, hmark⟩

end Tracks

/-! ## Failures -/

/-- The log tells which definitions fail, and how. -/
theorem define_eq_error_iff {f : Fault} :
    (t.define call).result = .error f ↔ call.fault? t = some f := by
  cases call with
  | selector name => simp [define, Outcome.done, Definition.fault?]
  | cls name superclass => simp [define, Outcome.done, Definition.fault?]
  | method c b =>
    rw [define, addMethod, Definition.fault?]
    rcases t.class? c with _ | e <;> simp [attempt, Outcome.done, Outcome.fail]
  | block home b =>
    rw [define, addBlock, ClassTable.method, Definition.fault?]
    rcases t.method? home with _ | e <;> simp [attempt, Outcome.done, Outcome.fail, bind,
      Except.bind, pure, Except.pure]

/-- A definition that fails changes nothing. -/
theorem define_of_error {f : Fault} (h : (t.define call).result = .error f) :
    (t.define call).state = t := by
  cases call with
  | selector name => cases h
  | cls name superclass => cases h
  | method c b =>
    rw [define] at h ⊢
    rcases hadd : t.addMethod c b with f' | ⟨t', m⟩
    · rfl
    · rw [hadd] at h
      cases h
  | block home b =>
    rw [define] at h ⊢
    rcases hadd : t.addBlock home b with f' | ⟨t', m⟩
    · rfl
    · rw [hadd] at h
      cases h

/-! ## Main result -/

/-- A table answers as its log says. -/
structure Agrees (t : ClassTable) (log : List LogEntry) : Prop where
  /-- A method has the mark exactly if it was put into a dictionary and replaced there. -/
  superseded : ∀ m e, t.method? m = some e → (e.superseded ↔ Replaced log m)
  /-- A lookup finds the latest method of the nearest class. -/
  found : ∀ c s m, t.lookup c s = some m ↔ ∃ d, t.Nearest log c s d ∧ Latest log d s m
  /-- What it finds is held by that class, and neither a block nor replaced. -/
  sound : ∀ c s m d, t.lookup c s = some m → t.Nearest log c s d →
    ∃ e, t.method? m = some e ∧ e.holder = d ∧ e.selector = s ∧ e.home = none ∧ e.superseded = false
  /-- It finds nothing exactly if no class on the chain ever got a method. -/
  missing : ∀ c s, t.lookup c s = none ↔ ∀ k d, t.ancestor? k c = some d → ¬Has log d s
  /-- A super send runs what the superclass of its class runs, if there is one. -/
  above : ∀ c s m, t.superLookup c s = some m ↔ ∃ d, Declared log c d ∧ t.lookup d s = some m
  inherits : ∀ c a, t.inheritsFrom c a ↔ ∃ k, t.ancestor? k c = some a
  /-- The superclass of a class is what was named for it when it was first asked for. -/
  superclass : ∀ c d, t.superclass? c = some d ↔ Declared log c d
  /-- Every chain ends. -/
  ends : ∀ c, ∃ k, t.ancestor? k c = none
  /-- A further definition fails exactly if its class or home is missing, and then changes
      nothing. -/
  fails : ∀ call f, (t.define call).result = .error f ↔ call.fault? t = some f
  unchanged : ∀ call f, (t.define call).result = .error f → (t.define call).state = t

/-- A table in which definitions were made, failing ones among them, answers as its log says. -/
theorem agrees_of_logged (h : Logged log t) : t.Agrees log where
  superseded := h.tracks.superseded
  found _ _ _ := h.tracks.lookup_eq_some_iff
  sound _ _ _ _ := h.tracks.method_of_lookup h.built.wellFormed
  missing c s := by
    simp only [lookup_eq_none_iff, h.tracks.localMethod?_eq_none_iff, mem_chain_iff]
    exact ⟨fun hnone k d hk => hnone d ⟨k, hk⟩, fun hnone d ⟨k, hk⟩ => hnone k d hk⟩
  above c s m := by simp only [superLookup, Option.bind_eq_some_iff, h.descends.superclass]
  inherits c a := by rw [inheritsFrom, List.contains_iff_mem, mem_chain_iff]
  superclass := h.descends.superclass
  -- Each step up leads to a class with a smaller number, so the chain is not longer than that.
  ends c := by
    refine ⟨c.index + 1, Option.eq_none_iff_forall_ne_some.2 fun d hd => ?_⟩
    have hle := h.descends.index_add_le hd
    omega
  fails _ _ := define_eq_error_iff
  unchanged _ _ := define_of_error

/-- Definitions of a class and one below it, which is asked for again with another superclass; of a
    method for the upper one, with a block for the same selector; of a method of a class that does
    not exist; and of a method that replaces the first one. -/
def redefinition : List Definition :=
  [.cls "Shape" (some ⟨0⟩), .cls "Square" (some ⟨9⟩), .cls "Square" (some ⟨0⟩),
    .method ⟨9⟩ { selector := ⟨0⟩, steps := [.work 1] }, .block ⟨0⟩ { selector := ⟨0⟩ },
    .method ⟨99⟩ { selector := ⟨0⟩ }, .method ⟨9⟩ { selector := ⟨0⟩, steps := [.work 2] }]

/-- A method that is replaced is marked, and lookups find the one that replaced it. -/
theorem logged_redefinition : ∃ log t, Logged log t ∧ log.map (·.call) = redefinition ∧
    t.lookup ⟨10⟩ ⟨0⟩ = some ⟨2⟩ ∧ (t.method? ⟨0⟩).map (·.superseded) = some true ∧
    (t.method? ⟨1⟩).map (·.superseded) = some false ∧ t.inheritsFrom ⟨10⟩ ⟨9⟩ = true := by
  refine ⟨_, _, .define _
    (.define _ (.define _ (.define _ (.define _ (.define _ (.define _ .fresh ?_) ?_) ?_) ?_) ?_)
    ?_) ?_, rfl, ?_, ?_, ?_, ?_⟩
  all_goals decide

/-- The lower class finds the second method of the upper one. The first method was replaced, and the
    block was not, though it has the same selector. -/
theorem agrees_redefinition : ∃ log t, Logged log t ∧ log.map (·.call) = redefinition ∧
    t.lookup ⟨10⟩ ⟨0⟩ = some ⟨2⟩ ∧ (∃ d, t.Nearest log ⟨10⟩ ⟨0⟩ d ∧ Latest log d ⟨0⟩ ⟨2⟩) ∧
    Replaced log ⟨0⟩ ∧ ¬Replaced log ⟨1⟩ ∧ ∃ k, t.ancestor? k ⟨10⟩ = some ⟨9⟩ := by
  obtain ⟨log, t, h, hcalls, hlookup, hfirst, hblock, hinherits⟩ := logged_redefinition
  obtain ⟨e, he, hmark⟩ := Option.map_eq_some_iff.1 hfirst
  obtain ⟨e', he', hmark'⟩ := Option.map_eq_some_iff.1 hblock
  have hagrees := agrees_of_logged h
  refine ⟨log, t, h, hcalls, hlookup, (hagrees.found _ _ _).1 hlookup,
    (hagrees.superseded _ e he).1 hmark, ?_, (hagrees.inherits _ _).1 hinherits⟩
  rw [← hagrees.superseded _ e' he', hmark']
  exact Bool.false_ne_true

end ClassTable

end Warmup
