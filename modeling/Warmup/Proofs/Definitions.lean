import Warmup.Proofs.Basic
import Warmup.Proofs.Lookup

/-!
# Definitions

The tables that definitions lead to (`ClassTable.Built`), and what a definition
does to the table it is made in.

* `Built.wellFormed`: methods know their handles, the sends of a body have
  different positions, and a dictionary has the methods that were filed in it
  and not replaced since;
* `extends_intern`, `extends_defineClass`, `extends_addBlock`: definitions that
  put no method into a dictionary;
* `lookup_addMethod`: the answers that change under a new method are some of
  those that were the answer of its own class, and they change to that method;
* `Founded.defineClass`: classes with existing superclasses are defined after
  them.
-/

namespace Warmup

namespace ClassTable

variable {t t' : ClassTable} {c d : ClassId} {s : Selector} {m : MethodId}

/-! ## Definitions without a dictionary -/

/-- A new selector changes nothing but the selectors. -/
theorem extends_intern (t : ClassTable) (name : String) : t.Extends (t.intern name).1 := by
  rw [intern]
  split
  · exact .refl t
  · exact ⟨fun _ _ h => h, fun _ _ => rfl, fun _ _ h => h⟩

theorem class?_append (e : ClassEntry) (c : ClassId) :
    ({ t with classes := t.classes ++ [e] } : ClassTable).class? c =
      if c.index = t.classes.length then some e else t.class? c := by
  rcases Nat.lt_trichotomy c.index t.classes.length with h | h | h
  · rw [if_neg h.ne]
    exact List.getElem?_append_left h
  · rw [if_pos h]
    simp [class?, h]
  · rw [if_neg h.ne']
    simp only [class?]
    rw [List.getElem?_eq_none (by simpa using Nat.succ_le_of_lt h), List.getElem?_eq_none h.le]

theorem class?_length : t.class? ⟨t.classes.length⟩ = none := List.getElem?_eq_none (Nat.le_refl _)

/-- A new class has no methods of its own, and no other class has it as an
    ancestor unless it was named as one before. -/
theorem extends_defineClass (t : ClassTable) (name : String) (superclass : Option ClassId) :
    t.Extends (t.defineClass name superclass).1 := by
  rw [defineClass]
  split
  · exact .refl t
  · refine ⟨fun c e he => ?_, fun c s => ?_, fun _ _ h => h⟩
    · have hlt : c.index < t.classes.length := (List.getElem?_eq_some_iff.1 he).1
      rw [class?_append, if_neg hlt.ne, he]
    · rw [localMethod?, class?_append, localMethod?]
      split
      · next h =>
        have hc : c = ⟨t.classes.length⟩ := by cases c; simpa using h
        rw [hc, class?_length]
        rfl
      · rfl

/-- A block gets into no dictionary. -/
theorem extends_addBlock {home : MethodId} {b : Draft} (h : t.addBlock home b = .ok (t', m)) :
    t.Extends t' := by
  rw [addBlock] at h
  cases hm : t.method home with
  | error f => rw [hm] at h; cases h
  | ok e =>
    rw [hm] at h
    cases h
    exact ⟨fun _ _ h => h, fun _ _ => rfl, fun _ _ h => by
      rw [method?, List.getElem?_append_left (List.getElem?_eq_some_iff.1 h).1]
      exact h⟩

/-! ## A new method -/

/-- A dictionary answers with what was installed last. -/
theorem method?_install (e : ClassEntry) (s s' : Selector) (m : MethodId) :
    (e.install s m).method? s' = if s' = s then some m else e.method? s' := lookup_set m

/-- A new method takes its place in a class that exists. -/
theorem addMethod_ok {b : Draft} (h : t.addMethod c b = .ok (t', m)) :
    ∃ e, t.class? c = some e ∧ m = ⟨t.methods.length⟩ ∧
      t'.classes = t.classes.set c.index (e.install b.selector m) ∧ t'.selectors = t.selectors ∧
      t'.methods = (match e.method? b.selector with
        | some old => supersede t.methods old
        | none => t.methods) ++ [b.finish m c none] := by
  rw [addMethod] at h
  split at h
  · cases h
  · next e he =>
    cases h
    exact ⟨e, he, rfl, rfl, rfl, rfl⟩

section AddMethod

variable {b : Draft} (h : t.addMethod c b = .ok (t', m))
include h

/-- A new method changes the dictionary of its class alone. -/
theorem class?_addMethod (x : ClassId) :
    t'.class? x = if x = c then (t.class? c).map (·.install b.selector m) else t.class? x := by
  obtain ⟨e, he, -, hcl, -⟩ := addMethod_ok h
  have hlt : c.index < t.classes.length := (List.getElem?_eq_some_iff.1 he).1
  rw [class?, hcl]
  by_cases hx : x = c
  · rw [if_pos hx, he, hx, List.getElem?_set_self hlt]
    rfl
  · have hi : c.index ≠ x.index := fun hi => hx (by cases x; cases c; simpa using hi.symm)
    rw [if_neg hx, List.getElem?_set_ne hi]
    rfl

theorem superclass?_addMethod (x : ClassId) : t'.superclass? x = t.superclass? x := by
  rw [superclass?, class?_addMethod h, superclass?]
  split
  · next hx =>
    subst hx
    cases t.class? x <;> rfl
  · rfl

/-- A new method is the own method of its class for its selector. -/
theorem localMethod?_addMethod (x : ClassId) (s : Selector) :
    t'.localMethod? x s = if x = c ∧ s = b.selector then some m else t.localMethod? x s := by
  obtain ⟨e, he, -⟩ := addMethod_ok h
  rw [localMethod?, class?_addMethod h, localMethod?]
  by_cases hx : x = c
  · subst hx
    simp [he, method?_install]
  · simp [hx]

/-- A new method is what its class runs. -/
theorem lookup_addMethod_self : t'.lookup c b.selector = some m :=
  lookup_eq_of_local (by simp [localMethod?_addMethod h])

theorem chain_addMethod (x : ClassId) : t'.chain x = t.chain x := by
  obtain ⟨e, -, -, hcl, -⟩ := addMethod_ok h
  rw [chain, chain, hcl, List.length_set]
  exact chainUpTo_congr (superclass?_addMethod h) _ x

/-- A new method leaves an answer as it was, unless it was the answer of its
    own class: then it is the new method. -/
theorem lookup_addMethod (x : ClassId) (s : Selector) :
    t'.lookup x s = t.lookup x s ∨ t.lookup x s = t.lookup c b.selector ∧
      t'.lookup x s = some m := by
  by_cases hs : s = b.selector
  · subst hs
    by_cases hc : c ∈ t.chain x
    · -- By induction on the steps from `x` up to the class of the new method.
      obtain ⟨k, hk⟩ := mem_chain_iff.1 hc
      clear hc
      induction k generalizing x with
      | zero =>
        obtain rfl := Option.some.inj hk
        exact .inr ⟨rfl, lookup_addMethod_self h⟩
      | succ k ih =>
        by_cases hx : x = c
        · subst hx
          exact .inr ⟨rfl, lookup_addMethod_self h⟩
        obtain ⟨y, hy, hk⟩ := Option.bind_eq_some_iff.1 hk
        have hloc : t'.localMethod? x b.selector = t.localMethod? x b.selector := by
          simp [localMethod?_addMethod h, hx]
        -- Another class below stops the lookup with a method of its own, or passes it on.
        cases hl : t.localMethod? x b.selector with
        | some k => exact .inl (by rw [lookup_eq_of_local hl, lookup_eq_of_local (hloc.trans hl)])
        | none =>
          rw [lookup_eq_of_super hl hy, lookup_eq_of_super (hloc.trans hl)
            (superclass?_addMethod h x ▸ hy)]
          exact ih y hk
    · -- The class is not above `x`, so no dictionary along the chain changes.
      refine .inl (lookup_congr (chain_addMethod h x) fun d hd => ?_)
      have hd : d ≠ c := fun hdc => hc (hdc ▸ hd)
      simp [localMethod?_addMethod h, hd]
  · exact .inl
      (lookup_congr (chain_addMethod h x) fun d _ => by simp [localMethod?_addMethod h, hs])

/-- The methods before a new one: the one it replaces is superseded. -/
theorem methods_addMethod : ∃ older : List Method, t'.methods = older ++ [b.finish m c none] ∧
    older.length = t.methods.length ∧ ∀ i : Nat, older[i]? = t.methods[i]?.map fun e =>
      if t.localMethod? c b.selector = some ⟨i⟩ then { e with superseded := true } else e := by
  obtain ⟨e, he, -, -, -, hm⟩ := addMethod_ok h
  refine ⟨_, hm, ?_⟩
  rw [localMethod?, he, Option.bind_some]
  cases e.method? b.selector with
  | none => exact ⟨rfl, fun i => by simp⟩
  -- The one that was in the dictionary is marked.
  | some old =>
    refine ⟨List.length_modify .., fun i => ?_⟩
    simp only [supersede, List.getElem?_modify]
    congr 1
    funext e
    by_cases hi : old.index = i
    · have hi' : old = ⟨i⟩ := by cases old; simpa using hi
      simp [hi']
    · have hi' : old ≠ ⟨i⟩ := fun h => hi (by rw [h])
      simp [hi, hi']

/-- A new method is there as it was drafted. -/
theorem method?_addMethod_self : t'.method? m = some (b.finish m c none) := by
  obtain ⟨older, hm, hlen, -⟩ := methods_addMethod h
  obtain ⟨-, -, rfl, -⟩ := addMethod_ok h
  rw [method?, hm, ← hlen, List.getElem?_concat_length]

/-- A new method marks the one it replaces, and leaves all others as they were. -/
theorem method?_addMethod {k : MethodId} (hk : k ≠ m) : t'.method? k = (t.method? k).map fun e =>
    if t.localMethod? c b.selector = some k then { e with superseded := true } else e := by
  obtain ⟨older, hm, hlen, hold⟩ := methods_addMethod h
  obtain ⟨-, -, rfl, -⟩ := addMethod_ok h
  have hne : k.index ≠ t.methods.length := fun hi => hk (by cases k; simpa using hi)
  rw [method?, hm, method?, ← hold]
  rcases Nat.lt_or_gt_of_ne hne with hlt | hgt
  · exact List.getElem?_append_left (hlen.symm ▸ hlt)
  · rw [List.getElem?_eq_none (by simpa [hlen] using Nat.succ_le_of_lt hgt),
      List.getElem?_eq_none (hlen.symm ▸ hgt.le)]

theorem ne_of_addMethod {k : MethodId} {e : Method} (he : t.method? k = some e) : k ≠ m := by
  rintro rfl
  obtain ⟨-, -, rfl, -⟩ := addMethod_ok h
  simp [method?] at he

/-- A method keeps all but its mark. -/
theorem exists_method?_addMethod {k : MethodId} {e : Method} (he : t.method? k = some e) :
    ∃ b, t'.method? k = some { e with superseded := b } := by
  rw [method?_addMethod h (ne_of_addMethod h he), he]
  by_cases hl : t.localMethod? c b.selector = some k
  · exact ⟨true, by simp [hl]⟩
  · exact ⟨e.superseded, by simp [hl]⟩

end AddMethod

/-! ## Tables that definitions lead to -/

/-- The tables that definitions lead to, from that of a fresh machine on. -/
inductive Built : ClassTable → Prop
  | initial : Built initial
  | intern {t : ClassTable} (name : String) : Built t → Built (t.intern name).1
  | defineClass {t : ClassTable} (name : String) (superclass : Option ClassId) :
    Built t → Built (t.defineClass name superclass).1
  | addMethod {t t' : ClassTable} {c : ClassId} {b : Draft} {m : MethodId} :
    Built t → t.addMethod c b = .ok (t', m) → Built t'
  | addBlock {t t' : ClassTable} {home m : MethodId} {b : Draft} :
    Built t → t.addBlock home b = .ok (t', m) → Built t'

/-! ### Classes and their superclasses -/

theorem founded_initial : Founded initial := by decide

/-- Whether classes come after their superclasses depends on the superclasses alone. -/
theorem Founded.congr (h : t.Founded) (hs : ∀ x, t'.superclass? x = t.superclass? x) : t'.Founded :=
  fun x y hy => h x y (hs x ▸ hy)

theorem Founded.intern (h : t.Founded) (name : String) : (t.intern name).1.Founded := by
  refine h.congr fun x => ?_
  rw [ClassTable.intern]
  split <;> rfl

/-- A new class is the youngest: its superclass is older, if it exists. -/
theorem Founded.defineClass (h : t.Founded) (name : String) {superclass : Option ClassId}
    (hs : ∀ d ∈ superclass, (t.class? d).isSome) : (t.defineClass name superclass).1.Founded := by
  rw [ClassTable.defineClass]
  split
  · exact h
  · intro x y hy
    obtain ⟨e, he, hy⟩ := Option.bind_eq_some_iff.1 hy
    rw [class?_append] at he
    split at he
    · next hx =>
      obtain rfl := Option.some.inj he
      obtain ⟨e', he'⟩ := Option.isSome_iff_exists.1 (hs y hy)
      rw [hx]
      exact (List.getElem?_eq_some_iff.1 he').1
    · exact h x y (Option.bind_eq_some_iff.2 ⟨e, he, hy⟩)

theorem Founded.addMethod (h : t.Founded) {b : Draft} (hadd : t.addMethod c b = .ok (t', m)) :
    t'.Founded :=
  h.congr (superclass?_addMethod hadd)

theorem Founded.addBlock (h : t.Founded) {home : MethodId} {b : Draft}
    (hadd : t.addBlock home b = .ok (t', m)) :
    t'.Founded := by
  refine h.congr fun x => ?_
  rw [ClassTable.addBlock] at hadd
  obtain ⟨e, -, hadd⟩ := exists_ok_of_bind hadd
  obtain ⟨rfl, rfl⟩ := Prod.mk.inj (Except.ok.inj hadd)
  rfl

/-- What holds of every table that definitions lead to. -/
structure WellFormed (t : ClassTable) : Prop where
  /-- A method knows its own handle. -/
  id_eq : ∀ m e, t.method? m = some e → e.id = m
  /-- The sends of a body have different positions. -/
  positions : ∀ m e, t.method? m = some e → e.sends.Pairwise fun a b => a.bci ≠ b.bci
  /-- A dictionary has methods of its own class, each under its selector, that
      were not replaced. -/
  filed : ∀ c s m, t.localMethod? c s = some m →
    ∃ e, t.method? m = some e ∧ e.holder = c ∧ e.selector = s ∧ e.superseded = false

namespace WellFormed

/-- Positions tell the sends of a method apart. -/
theorem sendAt? (h : t.WellFormed) {e : Method} (he : t.method? m = some e) {site : SendSite}
    (hs : site ∈ e.sends) : e.sendAt? site.bci = some site := by
  rw [Method.sendAt?]
  have hp := h.positions m e he
  generalize e.sends = l at hs hp
  induction l with
  | nil => cases hs
  | cons a l ih =>
    rw [List.pairwise_cons] at hp
    rcases List.mem_cons.1 hs with rfl | hs
    · exact List.find?_cons_of_pos (by simp)
    · rw [List.find?_cons_of_neg (by simpa using hp.1 site hs)]
      exact ih hs hp.2

/-- What is found was not replaced. -/
theorem superseded_of_lookup (h : t.WellFormed) (hl : t.lookup c s = some m) :
    ∃ e, t.method? m = some e ∧ e.superseded = false := by
  obtain ⟨d, _, hd⟩ := exists_local_of_lookup hl
  obtain ⟨e, he, _, _, hsup⟩ := h.filed d s m hd
  exact ⟨e, he, hsup⟩

theorem initial : WellFormed initial where
  id_eq m e h := by simp [method?, ClassTable.initial] at h
  positions m e h := by simp [method?, ClassTable.initial] at h
  filed c s m h := by
    obtain ⟨e, he, hm⟩ := Option.bind_eq_some_iff.1 h
    have hmem : e ∈ ClassTable.initial.classes := List.mem_of_getElem? he
    have hnone : ∀ e ∈ ClassTable.initial.classes, e.methods = [] := by decide
    simp [ClassEntry.method?, hnone e hmem] at hm

/-- A table that has grown by methods that are sound by themselves. -/
theorem extend (h : t.WellFormed) (hext : t.Extends t')
    (hnew : ∀ m e, t'.method? m = some e → t.method? m = some e ∨ e.id = m ∧
      e.sends.Pairwise fun a b => a.bci ≠ b.bci) : t'.WellFormed where
  id_eq m e he := (hnew m e he).elim (h.id_eq m e) And.left
  positions m e he := (hnew m e he).elim (h.positions m e) And.right
  filed c s m hm := by
    rw [hext.localMethod] at hm
    obtain ⟨e, he, hfiled⟩ := h.filed c s m hm
    exact ⟨e, hext.method m e he, hfiled⟩

end WellFormed

end ClassTable

/-- The send that an instruction is. -/
def Instr.send? : Instr → Option SendSite
  | send s => some s
  | _ => none

theorem Method.sends_eq (m : Method) : m.sends = m.body.filterMap Instr.send? := by
  rw [sends]
  congr 1

/-- A step of a draft is placed at its position. -/
theorem Draft.bci_of_place {k : Bci} {step : Draft.Step} {site : SendSite}
    (h : (step.place k).send? = some site) : site.bci = k := by
  cases step with
  | work cost => cases h
  | send s r args => exact (Option.some.inj h) ▸ rfl
  | superSend s args => exact (Option.some.inj h) ▸ rfl

/-- The sends of a body stand at ascending positions. -/
theorem Draft.pairwise_place (steps : List Draft.Step) (k : Bci) :
    ((steps.mapIdx fun i step => step.place (i + k)).filterMap Instr.send?).Pairwise
      (fun a b => a.bci < b.bci) ∧
      ∀ s ∈ (steps.mapIdx fun i step => step.place (i + k)).filterMap Instr.send?, k ≤ s.bci := by
  induction steps generalizing k with
  | nil => simp
  | cons step steps ih =>
    -- The rest of the body is a body that starts one position later.
    have hrest : (List.mapIdx (fun i step => Draft.Step.place (i + 1 + k) step) steps) =
        List.mapIdx (fun i step => Draft.Step.place (i + (k + 1)) step) steps := by
      simp only [Nat.add_assoc, Nat.add_comm 1 k]
    obtain ⟨hp, hle⟩ := ih (k + 1)
    rw [List.mapIdx_cons, List.filterMap_cons, hrest, Nat.zero_add]
    cases hs : (step.place k).send? with
    | none => exact ⟨hp, fun s hs => Nat.le_of_succ_le (hle s hs)⟩
    | some site =>
      have hbci := bci_of_place hs
      refine ⟨List.pairwise_cons.2 ⟨fun s hs => hbci.trans_lt (Nat.lt_of_succ_le (hle s hs)), hp⟩,
        fun s hs => ?_⟩
      rcases List.mem_cons.1 hs with rfl | hs
      · exact hbci.ge
      · exact Nat.le_of_succ_le (hle s hs)

/-- Steps have different positions, so sends have. -/
theorem Draft.pairwise_sends (d : Draft) (id : MethodId) (holder : ClassId)
    (home : Option MethodId) :
    (d.finish id holder home).sends.Pairwise fun a b => a.bci ≠ b.bci := by
  have hsends :
      (d.finish id holder home).sends = (d.steps.mapIdx Step.place).filterMap Instr.send? := by
    rw [Method.sends_eq, finish, body, List.filterMap_append]
    exact List.append_nil _
  rw [hsends]
  exact (pairwise_place d.steps 0).1.imp fun hlt => Nat.ne_of_lt hlt

namespace ClassTable

variable {t t' : ClassTable} {c : ClassId} {m : MethodId} {b : Draft}

/-- The methods of a table with a new one: the new one, and those before it, of which one may be
    marked. -/
theorem method?_addMethod_cases (h : t.addMethod c b = .ok (t', m)) {k : MethodId} {e : Method}
    (he : t'.method? k = some e) : (k = m ∧ e = b.finish m c none) ∨
      ∃ e' sup, t.method? k = some e' ∧ e = { e' with superseded := sup } := by
  by_cases hk : k = m
  · subst hk
    rw [method?_addMethod_self h] at he
    exact .inl ⟨rfl, (Option.some.inj he).symm⟩
  · rw [method?_addMethod h hk] at he
    obtain ⟨e', he', rfl⟩ := Option.map_eq_some_iff.1 he
    split
    · exact .inr ⟨e', true, he', rfl⟩
    · exact .inr ⟨e', e'.superseded, he', rfl⟩

/-- The methods of a table with a new block: the block, and those before it. -/
theorem method?_addBlock_cases {home : MethodId} (h : t.addBlock home b = .ok (t', m))
    {k : MethodId} {e : Method} (he : t'.method? k = some e) :
    t.method? k = some e ∨ ∃ f, t.method home = .ok f ∧ k = m ∧
      e = b.finish m f.holder (some home) := by
  rw [ClassTable.addBlock] at h
  obtain ⟨f, hf, h⟩ := exists_ok_of_bind h
  obtain ⟨rfl, rfl⟩ := Prod.mk.inj (Except.ok.inj h)
  rcases Nat.lt_trichotomy k.index t.methods.length with hlt | heq | hgt
  · rw [method?, List.getElem?_append_left hlt] at he
    exact .inl he
  · obtain rfl : b.finish ⟨t.methods.length⟩ f.holder (some home) = e := by
      simpa [method?, heq] using he
    exact .inr ⟨f, hf, by rw [← heq], rfl⟩
  · rw [method?, List.getElem?_eq_none (by simpa using Nat.succ_le_of_lt hgt)] at he
    cases he

/-- A table with a new method is well-formed: the method knows its handle, and what it replaces is
    marked. -/
theorem WellFormed.addMethod (hw : t.WellFormed) (h : t.addMethod c b = .ok (t', m)) :
    t'.WellFormed := by
  refine ⟨fun k e he => ?_, fun k e he => ?_, fun x s k hk => ?_⟩
  · rcases method?_addMethod_cases h he with ⟨rfl, rfl⟩ | ⟨e', sup, he', rfl⟩
    · rfl
    · exact hw.id_eq k e' he'
  · rcases method?_addMethod_cases h he with ⟨rfl, rfl⟩ | ⟨e', sup, he', rfl⟩
    · exact b.pairwise_sends ..
    · exact hw.positions k e' he'
  · rw [localMethod?_addMethod h] at hk
    split at hk
    · next hx =>
      obtain rfl := Option.some.inj hk
      exact ⟨_, method?_addMethod_self h, hx.1.symm, hx.2.symm, rfl⟩
    · next hx =>
      -- Another dictionary entry is another method, so it was not replaced.
      obtain ⟨e, he, rfl, rfl, hsup⟩ := hw.filed x s k hk
      have hne : t.localMethod? c b.selector ≠ some k := by
        intro hl
        obtain ⟨e', he', hc, hs, _⟩ := hw.filed c b.selector k hl
        obtain rfl := Option.some.inj (he.symm.trans he')
        exact hx ⟨hc, hs⟩
      refine ⟨e, ?_, rfl, rfl, hsup⟩
      simp [method?_addMethod h (ne_of_addMethod h he), he, hne]

theorem WellFormed.addBlock (hw : t.WellFormed) {home : MethodId}
    (h : t.addBlock home b = .ok (t', m)) :
    t'.WellFormed := by
  refine hw.extend (extends_addBlock h) fun k e he => ?_
  rcases method?_addBlock_cases h he with he | ⟨f, -, rfl, rfl⟩
  · exact .inl he
  · exact .inr ⟨rfl, b.pairwise_sends ..⟩

/-- Tables that definitions lead to are well-formed. -/
theorem Built.wellFormed (h : t.Built) : t.WellFormed := by
  induction h with
  | initial => exact .initial
  | @intern t name _ ih =>
    refine ih.extend (extends_intern t name) fun k e he => .inl ?_
    rw [ClassTable.intern] at he
    split at he <;> exact he
  | @defineClass t name superclass _ ih =>
    refine ih.extend (extends_defineClass t name superclass) fun k e he => .inl ?_
    rw [ClassTable.defineClass] at he
    split at he <;> exact he
  | addMethod _ h ih => exact ih.addMethod h
  | addBlock _ h ih => exact ih.addBlock h

/-- Every method was a draft. -/
theorem Built.exists_draft (h : t.Built) {e : Method} (he : t.method? m = some e) :
    ∃ d : Draft, e.body = d.body := by
  induction h generalizing m e with
  | initial => simp [method?, ClassTable.initial] at he
  | intern name _ ih =>
    rw [ClassTable.intern] at he
    split at he <;> exact ih he
  | defineClass name superclass _ ih =>
    rw [ClassTable.defineClass] at he
    split at he <;> exact ih he
  | @addMethod t t' c b new _ h ih =>
    rcases method?_addMethod_cases h he with ⟨-, rfl⟩ | ⟨e', sup, he', rfl⟩
    · exact ⟨b, rfl⟩
    · obtain ⟨d, hd⟩ := ih he'
      exact ⟨d, hd⟩
  | @addBlock t t' home new b _ h ih =>
    rcases method?_addBlock_cases h he with he | ⟨f, -, -, rfl⟩
    · exact ih he
    · exact ⟨b, rfl⟩

end ClassTable

end Warmup
