import Mathlib.Data.List.Nodup
import Mathlib.Tactic.Common
import Warmup.Word

/-!
# Lists and failures

The few facts about lists and failing computations that the theory of the tables
rests on.
-/

namespace Warmup

/-- A computation succeeds if its parts do. -/
theorem exists_ok_of_bind {α β : Type} {x : Except Fault α} {f : α → Except Fault β} {b : β}
    (h : x >>= f = .ok b) : ∃ a, x = .ok a ∧ f a = .ok b := by
  cases x with
  | error e => cases h
  | ok a => exact ⟨a, rfl, h⟩

theorem exists_ok_of_map {α β : Type} {x : Except Fault α} {f : α → β} {b : β}
    (h : x.map f = .ok b) :
    ∃ a, x = .ok a ∧ f a = b := by
  cases x with
  | error e => cases h
  | ok a => exact ⟨a, rfl, Except.ok.inj h⟩

/-- A number is given back unchanged if it fits its word. -/
theorem Word.fit_eq_ok_iff {bits n m : Nat} :
    Word.fit bits n = .ok m ↔ m = n ∧ n < Word.size bits := by
  rw [fit]
  split
  · next h =>
    rw [Except.ok.injEq]
    exact ⟨fun hm => ⟨hm.symm, h⟩, fun hm => hm.1.symm⟩
  · next h =>
    constructor
    · intro hm
      cases hm
    · exact fun hm => absurd hm.2 h

theorem mapM_of_forall {α β : Type} {f : α → Except Fault β} {v : α → β} {l : List α}
    (h : ∀ a ∈ l, f a = .ok (v a)) : l.mapM f = .ok (l.map v) := by
  induction l with
  | nil => rfl
  | cons a l ih =>
    rw [List.mapM_cons, h a List.mem_cons_self, ih fun b hb => h b (List.mem_cons_of_mem a hb)]
    rfl

/-- Steps that can fail in one way only fail together if one of them does. -/
theorem mapM_of_exists {α β : Type} {f : α → Except Fault β} {e : Fault} {l : List α}
    (h : ∀ a ∈ l, (∃ b, f a = .ok b) ∨ f a = .error e) (hfails : ∃ a ∈ l, f a = .error e) :
    l.mapM f = .error e := by
  induction l with
  | nil => obtain ⟨a, ha, -⟩ := hfails; cases ha
  | cons a l ih =>
    rw [List.mapM_cons]
    rcases h a List.mem_cons_self with ⟨b, hb⟩ | herror
    · -- The failing element is further on.
      obtain ⟨x, hx, hfx⟩ := hfails
      have hrest : ∃ x ∈ l, f x = .error e := by
        rcases List.mem_cons.1 hx with rfl | hx
        · cases hb.symm.trans hfx
        · exact ⟨x, hx, hfx⟩
      rw [hb, ih (fun c hc => h c (List.mem_cons_of_mem a hc)) hrest]
      rfl
    · rw [herror]
      rfl

theorem Outcome.eq_done_of_toOption {σ α : Type} {o : Outcome σ α} {a : α}
    (h : o.result.toOption = some a) :
    o = .done o.state a := by
  obtain ⟨s, f | b⟩ := o
  · cases h
  · cases h
    rfl

/-! ## Lists of lists -/

/-- Where all lists but some have one element, these account for the rest. -/
theorem length_flatMap_add_length_filter {α β : Type} {f : α → List β} {many : α → Bool}
    {l : List α} (h : ∀ a ∈ l, ¬many a → (f a).length = 1) :
    (l.flatMap f).length + (l.filter many).length = l.length +
      ((l.filter many).flatMap f).length := by
  induction l with
  | nil => rfl
  | cons a l ih =>
    have ih := ih fun b hb => h b (List.mem_cons_of_mem a hb)
    rw [List.flatMap_cons, List.length_append, List.length_cons]
    by_cases ha : many a
    · rw [List.filter_cons_of_pos ha, List.length_cons, List.flatMap_cons, List.length_append]
      omega
    · rw [List.filter_cons_of_neg ha, h a List.mem_cons_self ha]
      omega

/-- An element of two lists in a row stands in one of them. -/
theorem getElem?_append_cases {α : Type} {l l' : List α} {i : Nat} {a : α}
    (h : (l ++ l')[i]? = some a) :
    (i < l.length ∧ l[i]? = some a) ∨ ∃ j, i = l.length + j ∧ l'[j]? = some a := by
  rcases Nat.lt_or_ge i l.length with hi | hi
  · rw [List.getElem?_append_left hi] at h
    exact .inl ⟨hi, h⟩
  · rw [List.getElem?_append_right hi] at h
    exact .inr ⟨i - l.length, (Nat.add_sub_of_le hi).symm, h⟩

/-- What a change of one element leaves alone. -/
theorem map_modify_eq {α β : Type} {f : α → α} {g : α → β} {l : List α} {i : Nat}
    (h : ∀ a, l[i]? = some a → g (f a) = g a) : (l.modify i f).map g = l.map g := by
  refine List.ext_getElem? fun j => ?_
  rw [List.getElem?_map, List.getElem?_modify, List.getElem?_map]
  rcases hj : l[j]? with _ | a
  · rfl
  · by_cases hij : i = j
    · simp [hij, h a (hij ▸ hj)]
    · simp [hij]

/-- A change of one element is a change of one part of what the list joins. -/
theorem exists_flatMap_modify {α β : Type} {l : List α} {i : Nat} {a : α} (h : l[i]? = some a)
    (g : α → List β) :
    ∃ L R, l.flatMap g = L ++ g a ++ R ∧ ∀ f, (l.modify i f).flatMap g = L ++ g (f a) ++ R := by
  obtain ⟨hi, rfl⟩ := List.getElem?_eq_some_iff.1 h
  have hsplit (f : α → α) : (l.modify i f).flatMap g =
      (l.take i).flatMap g ++ g (f l[i]) ++ (l.drop (i + 1)).flatMap g := by
    rw [List.modify_eq_take_cons_drop hi, List.flatMap_append, List.flatMap_cons, List.append_assoc]
  refine ⟨(l.take i).flatMap g, (l.drop (i + 1)).flatMap g, ?_, hsplit⟩
  simpa using hsplit id

/-! ## Lists without repetitions -/

theorem nodup_eraseDups {α : Type} [DecidableEq α] (l : List α) : l.eraseDups.Nodup := by
  -- What follows the first element is filtered, so the induction is on the length.
  induction hn : l.length using Nat.strongRecOn generalizing l with
  | ind n ih =>
    cases l with
    | nil => exact List.nodup_nil
    | cons a l =>
      rw [List.eraseDups_cons, List.nodup_cons]
      constructor
      · simp [List.mem_eraseDups]
      · refine ih _ ?_ _ rfl
        have := List.length_filter_le (fun b => !b == a) l
        simp only [List.length_cons] at hn
        omega

/-! ## Association lists -/

section AssocList

variable {α β : Type} [DecidableEq α] {a b : α} {l : List (α × β)}

/-- A key that was taken out is not found any more. -/
theorem lookup_filter_self : (l.filter (·.1 ≠ a)).lookup a = none := by
  rw [List.lookup_eq_none_iff]
  intro p hp
  have hne : p.1 ≠ a := by simpa using (List.mem_filter.1 hp).2
  simpa using hne.symm

theorem lookup_filter_of_ne (h : b ≠ a) : (l.filter (·.1 ≠ a)).lookup b = l.lookup b := by
  induction l with
  | nil => rfl
  | cons p l ih =>
    obtain ⟨k, v⟩ := p
    by_cases hk : k = a
    · subst hk
      rw [List.filter_cons_of_neg (by simp), ih, List.lookup_cons, beq_false_of_ne h]
    · rw [List.filter_cons_of_pos (by simpa using hk), List.lookup_cons, List.lookup_cons, ih]

/-- The value of a key in a list in which it was set. -/
theorem lookup_set (v : β) :
    ((a, v) :: l.filter (·.1 ≠ a)).lookup b = if b = a then some v else l.lookup b := by
  rw [List.lookup_cons]
  by_cases h : b = a
  · subst h
    simp
  · rw [beq_false_of_ne h, if_neg h]
    exact lookup_filter_of_ne h

end AssocList

end Warmup
