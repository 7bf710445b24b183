import Mathlib.Data.List.Nodup
import Mathlib.Tactic.Common
import Warmup.Json.Record

/-!
# Reading records

Which fields a record gives (`record_object`): those with known names, if each
of them stands there once. A field is then found by its name, wherever it stands
(`lookup_eq_some_of_mem`). Lists are read item by item (`mapM_map_eq_ite`).

`Value.nesting` is how deep lists and records nest in a value.
-/

namespace Warmup.Json

/-! ## Fields -/

/-- The fields of a record with known names. -/
def known (names : List String) (fields : List (String × Value)) : List (String × Value) :=
  fields.filter fun f => names.contains f.1

variable {names : List String} {fields : List (String × Value)} {name : String} {v : Value}

theorem mapM_named (fields : List (String × Value)) :
    ((fields.map fun f => (some f.1, f.2)).mapM fun f => f.1.map (·, f.2)) = some fields := by
  induction fields with
  | nil => rfl
  | cons f fields ih => simp [List.mapM_cons, ih]

/-- A record gives its known fields, if none of them stands there twice. -/
theorem record_object (names : List String) (fields : List (String × Value)) :
    (Value.object (fields.map fun f => (some f.1, f.2))).record names =
      if ((known names fields).map Prod.fst).Nodup then some (known names fields) else none := by
  rw [Value.record, mapM_named]
  rfl

/-- A record of known names loses no field. -/
theorem known_eq_self (h : ∀ f ∈ fields, f.1 ∈ names) : known names fields = fields :=
  List.filter_eq_self.2 fun f hf => List.contains_iff_mem.2 (h f hf)

/-- A field that stands in a record once is found there. -/
theorem lookup_eq_some_of_mem (hnodup : (fields.map Prod.fst).Nodup) (h : (name, v) ∈ fields) :
    fields.lookup name = some v := by
  induction fields with
  | nil => cases h
  | cons f fields ih =>
    rw [List.map_cons, List.nodup_cons] at hnodup
    rcases List.mem_cons.1 h with rfl | h
    · rw [List.lookup_cons, beq_self_eq_true]
    · have hne : name ≠ f.1 := fun heq => hnodup.1 (heq ▸ List.mem_map.2 ⟨_, h, rfl⟩)
      rw [List.lookup_cons, beq_false_of_ne hne]
      exact ih hnodup.2 h

theorem lookup_eq_none_of_notMem (h : name ∉ fields.map Prod.fst) : fields.lookup name = none := by
  rw [List.lookup_eq_none_iff]
  intro f hf
  have hne : name ≠ f.1 := fun heq => h (heq ▸ List.mem_map.2 ⟨f, hf, rfl⟩)
  simpa using hne

/-! ## Lists -/

/-- A list is read back if each of its items is. -/
theorem mapM_map_eq_ite {α β : Type} {encode : α → β} {decode : β → Option α} {p : α → Prop}
    [DecidablePred p] {xs : List α}
    (h : ∀ x ∈ xs, decode (encode x) = if p x then some x else none) :
    (xs.map encode).mapM decode = if ∀ x ∈ xs, p x then some xs else none := by
  induction xs with
  | nil => simp
  | cons x xs ih =>
    rw [List.map_cons, List.mapM_cons, h x List.mem_cons_self,
      ih fun y hy => h y (List.mem_cons_of_mem x hy)]
    by_cases hx : p x
    · by_cases hxs : ∀ y ∈ xs, p y
      · simp [hx, if_pos hxs]
      · simp [hx, if_neg hxs]
    · simp [hx]

/-- Items that are read back give the whole list. -/
theorem mapM_map_eq_some {α β : Type} {encode : α → β} {decode : β → Option α} {xs : List α}
    (h : ∀ x ∈ xs, decode (encode x) = some x) : (xs.map encode).mapM decode = some xs := by
  have hall := mapM_map_eq_ite (p := fun _ => True) fun x hx => (h x hx).trans (if_pos trivial).symm
  rwa [if_pos fun _ _ => trivial] at hall

/-! ## Nesting -/

mutual

/-- How deep lists and records nest in a value. -/
def Value.nesting (v : Value) : Nat :=
  match v with
  | .array vs => itemsNesting vs + 1
  | .object fs => fieldsNesting fs + 1
  | .null | .bool _ | .natural _ | .string _ | .foreign => 0
termination_by structural v

/-- How deep lists and records nest in some items. -/
def itemsNesting (vs : List Value) : Nat :=
  match vs with
  | [] => 0
  | v :: vs => max v.nesting (itemsNesting vs)
termination_by structural vs

/-- How deep lists and records nest in some fields. -/
def fieldsNesting (fs : List (Option String × Value)) : Nat :=
  match fs with
  | [] => 0
  | (_, v) :: fs => max v.nesting (fieldsNesting fs)
termination_by structural fs

end

/-- A list nests as deep as the deepest of its items. -/
theorem itemsNesting_le_iff {vs : List Value} {n : Nat} :
    itemsNesting vs ≤ n ↔ ∀ v ∈ vs, v.nesting ≤ n := by
  induction vs with
  | nil => simp [itemsNesting]
  | cons v vs ih => rw [itemsNesting, Nat.max_le, ih, List.forall_mem_cons]

end Warmup.Json
