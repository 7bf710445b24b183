import Warmup.FeedbackTree.Recorded
import Warmup.Proofs.Definitions

/-!
# Names of keys

No two classes that definitions lead to have the same name, and no two selectors do
(`ClassTable.Named`). So the key of a send that is understood is the one that its
names stand for (`nameable_of_lookup`).
-/

namespace Warmup

/-- The names of a key stand for the key and for a method. -/
def LookupKey.Nameable (t : ClassTable) (k : LookupKey) (m : MethodId) : Prop :=
  ∃ name, k.named? t = some name ∧ FeedbackTree.resolveNames t name = some (k, m)

/-- Among different names one is found at its place. -/
theorem findIdx?_of_nodup {α : Type} {f : α → String} {l : List α} (h : (l.map f).Nodup) {i : Nat}
    {a : α} (ha : l[i]? = some a) : l.findIdx? (fun x => f x = f a) = some i := by
  obtain ⟨hi, rfl⟩ := List.getElem?_eq_some_iff.1 ha
  refine List.findIdx?_eq_some_iff_getElem.2 ⟨hi, by simp, fun j hj heq => ?_⟩
  have hj' : j < l.length := Nat.lt_trans hj hi
  refine List.nodup_iff_getElem?_ne_getElem?.1 h j i hj (by simpa using hi) ?_
  rw [List.getElem?_map, List.getElem?_map, List.getElem?_eq_getElem hj',
    List.getElem?_eq_getElem hi]
  exact congrArg some (of_decide_eq_true heq)

/-- A name that is not found is different from all others. -/
theorem nodup_concat_of_findIdx? {α : Type} {f : α → String} {l : List α} (h : (l.map f).Nodup)
    {a : α} (ha : l.findIdx? (fun x => f x = f a) = none) : ((l ++ [a]).map f).Nodup := by
  rw [List.map_append, List.map_singleton]
  refine List.nodup_append.2 ⟨h, List.nodup_singleton _, ?_⟩
  rintro _ hx _ hy rfl
  obtain ⟨b, hb, hfb⟩ := List.mem_map.1 hx
  have hne := List.findIdx?_eq_none_iff.1 ha b hb
  simp [hfb, List.mem_singleton.1 hy] at hne

namespace ClassTable

variable {t t' : ClassTable} {c : ClassId} {s : Selector} {m : MethodId}

/-- Names tell classes apart, and selectors. -/
structure Named (t : ClassTable) : Prop where
  classes : (t.classes.map (·.name)).Nodup
  selectors : t.selectors.Nodup

/-- A selector is new only if its name is. -/
theorem Named.intern (h : t.Named) (name : String) : (t.intern name).1.Named := by
  rw [ClassTable.intern]
  rcases hs : t.selector? name with _ | s
  · have hnodup := nodup_concat_of_findIdx? (f := id) (by simpa using h.selectors)
      (Option.map_eq_none_iff.1 hs)
    exact ⟨h.classes, by simpa using hnodup⟩
  · exact h

/-- A class is new only if its name is. -/
theorem Named.defineClass (h : t.Named) (name : String) (superclass : Option ClassId) :
    (t.defineClass name superclass).1.Named := by
  rw [ClassTable.defineClass]
  rcases hc : t.classNamed? name with _ | c
  · exact ⟨nodup_concat_of_findIdx? h.classes (a := ⟨name, superclass, []⟩)
      (Option.map_eq_none_iff.1 hc), h.selectors⟩
  · exact h

theorem Named.addMethod (h : t.Named) {b : Draft} (ht : t.addMethod c b = .ok (t', m)) :
    t'.Named := by
  obtain ⟨-, -, -, -, hselectors, -⟩ := addMethod_ok ht
  have hnames : t'.classes.map (·.name) = t.classes.map (·.name) := by
    ext1 i
    have hclass : t'.classes[i]? = if ⟨i⟩ = c then (t.class? c).map (·.install b.selector m)
        else t.classes[i]? :=
      class?_addMethod ht ⟨i⟩
    rw [List.getElem?_map, List.getElem?_map, hclass]
    split
    · next hi =>
      subst hi
      exact Option.map_map ..
    · rfl
  exact ⟨hnames ▸ h.classes, hselectors ▸ h.selectors⟩

theorem Named.addBlock (h : t.Named) {home : MethodId} {b : Draft}
    (ht : t.addBlock home b = .ok (t', m)) : t'.Named := by
  obtain ⟨e, -, ht⟩ := exists_ok_of_bind ht
  obtain ⟨rfl, -⟩ := Prod.mk.inj (Except.ok.inj ht)
  exact ⟨h.classes, h.selectors⟩

/-- Definitions never give a name twice. -/
theorem Built.named (h : t.Built) : t.Named := by
  induction h with
  | initial => exact ⟨by decide, List.nodup_nil⟩
  | intern name _ ih => exact ih.intern name
  | defineClass name superclass _ ih => exact ih.defineClass name superclass
  | addMethod _ ht ih => exact ih.addMethod ht
  | addBlock _ ht ih => exact ih.addBlock ht

/-- Methods are filed under selectors that have a name. -/
def Interned (t : ClassTable) : Prop :=
  ∀ e ∈ t.classes, ∀ x ∈ e.methods, x.1.index < t.selectors.length

/-- A selector that a class has a method for is a known one. -/
theorem Interned.lt_of_local (h : t.Interned) (hl : t.localMethod? c s = some m) :
    s.index < t.selectors.length := by
  obtain ⟨e, he, hm⟩ := Option.bind_eq_some_iff.1 hl
  obtain ⟨l₁, l₂, hmethods, -⟩ := List.lookup_eq_some_iff.1 hm
  exact h e (List.mem_of_getElem? he) (s, m) (by simp [hmethods])

/-- Only a class that exists understands anything. -/
theorem exists_class_of_lookup (h : t.lookup c s = some m) : ∃ e, t.class? c = some e := by
  rcases hc : t.class? c with _ | e
  · rw [lookup_eq, localMethod?, superclass?, hc] at h
    cases h
  · exact ⟨e, rfl⟩

/-- A key that is understood has names, and these lead back to it. -/
theorem nameable_of_lookup (h : t.Built) (hinterned : t.Interned) (hl : t.lookup c s = some m) :
    (LookupKey.send c s).Nameable t m := by
  obtain ⟨e, he⟩ := exists_class_of_lookup hl
  obtain ⟨d, -, hd⟩ := exists_local_of_lookup hl
  have hs : s.index < t.selectors.length := hinterned.lt_of_local hd
  refine ⟨⟨e.name, t.selectorName s⟩, ?_, ?_⟩
  · simp [LookupKey.named?, LookupKey.selector?, LookupKey.send, he]
  · have hcls : t.classNamed? e.name = some c := congrArg (Option.map ClassId.mk)
      (findIdx?_of_nodup h.named.classes he)
    have hsel : t.selector? (t.selectorName s) = some s := by
      rw [selectorName, List.getElem?_eq_getElem hs]
      exact congrArg (Option.map Selector.mk)
        (findIdx?_of_nodup (f := id) (by simpa using h.named.selectors)
        (List.getElem?_eq_getElem hs))
    have hkey : (LookupKey.send c s).resolve t = some m := hl
    rw [FeedbackTree.resolveNames, NamedKey.resolve, hcls, hsel]
    simp [hkey]

end ClassTable

end Warmup
