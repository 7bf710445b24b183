import Warmup.CodeTable
import Warmup.Proofs.Basic

/-!
# Versions of code

What the code table keeps of code for good, and how the current version of a key
is known.

* `NativeMethod.Became`: of code that is in the table only counters, caches,
  traps and the state change, and code that is invalid stays so;
* `CodeTable.WellFormed`: handles are places, and the current version of a key is
  the one that is live;
* `get?_install`, `get?_invalidate`, `get?_invalidateDependents`: what the three
  changes of the table do to code that is in it.
-/

namespace Warmup

/-- The same code at a later time. -/
structure NativeMethod.Became (n n' : NativeMethod) : Prop where
  same : n' = { n with
    invocations := n'.invocations, overflowCount := n'.overflowCount, trapCount := n'.trapCount
    state := n'.state, sites := n'.sites, traps := n'.traps }
  valid : n'.isValid → n.isValid

namespace NativeMethod.Became

variable {n n' n'' : NativeMethod}

theorem refl (n : NativeMethod) : n.Became n := ⟨rfl, fun h => h⟩

theorem trans (h : n.Became n') (h' : n'.Became n'') : n.Became n'' where
  same := by
    rw [h'.same, h.same]
  valid := h.valid ∘ h'.valid

theorem id_eq (h : n.Became n') : n'.id = n.id := by rw [h.same]

theorem key (h : n.Became n') : n'.key = n.key := by rw [h.same]

theorem method (h : n.Became n') : n'.method = n.method := by rw [h.same]

theorem scopes (h : n.Became n') : n'.scopes = n.scopes := by rw [h.same]

end NativeMethod.Became

namespace CodeTable

variable {t t' : CodeTable} {n : NativeMethod} {i j : NativeId} {k : LookupKey} {m : MethodId}

theorem get_ok (h : t.get i = .ok n) : t.get? i = some n := by
  rw [get] at h
  split at h
  · next hn =>
    cases h
    exact hn
  · cases h

/-- A change of code at a place is seen at this place only. -/
theorem get?_modify (f : NativeMethod → NativeMethod) (i j : NativeId) :
    (t.modify i f).get? j = (t.get? j).map fun n => if j = i then f n else n := by
  rw [get?, modify, List.getElem?_modify, get?]
  by_cases h : j = i
  · simp [h]
  · have hne : i.index ≠ j.index := fun hij => h (by cases i; cases j; exact congrArg _ hij.symm)
    simp [h, hne]

/-- What holds of every code table that installations and invalidations lead
    to. -/
structure WellFormed (t : CodeTable) : Prop where
  /-- Code knows its own handle. -/
  id_eq : ∀ i n, t.get? i = some n → n.id = i
  /-- The current version of a key is the one that is live. -/
  current_iff : ∀ k i, t.current? k = some i ↔ ∃ n, t.get? i = some n ∧ n.key = k ∧ n.state = .live

theorem WellFormed.empty : WellFormed {} where
  id_eq i n h := by simp [get?] at h
  current_iff k i := by simp [get?, current?]

/-- Changes that leave handles, keys and states alone keep the versions. -/
theorem WellFormed.congr (h : t.WellFormed) (hcurrent : t'.current = t.current)
    (hget : ∀ i, (t'.get? i).map (fun n => (n.id, n.key, n.state)) =
      (t.get? i).map fun n => (n.id, n.key, n.state)) :
    t'.WellFormed where
  id_eq i n hn := by
    obtain ⟨n₀, hn₀, heq⟩ := Option.map_eq_some_iff.1 ((hget i).symm.trans (congrArg _ hn))
    have hid : n₀.id = n.id := congrArg (·.1) heq
    exact hid.symm.trans (h.id_eq i n₀ hn₀)
  current_iff k i := by
    have hlive (s : CodeTable) : (∃ n, s.get? i = some n ∧ n.key = k ∧ n.state = .live) ↔
        ∃ j, (s.get? i).map (fun n => (n.id, n.key, n.state)) = some (j, k, .live) := by
      simp [Option.map_eq_some_iff]
    rw [current?, hcurrent, hlive, hget, ← hlive]
    exact h.current_iff k i

/-- A change that leaves states alone keeps the table well-formed. -/
theorem WellFormed.modify (h : t.WellFormed) {f : NativeMethod → NativeMethod}
    (hf : ∀ n, t.get? i = some n → n.Became (f n) ∧ (f n).state = n.state) :
    (t.modify i f).WellFormed := by
  refine h.congr rfl fun j => ?_
  rw [get?_modify]
  cases hn : t.get? j with
  | none => rfl
  | some n =>
    by_cases hj : j = i
    · obtain ⟨hb, hstate⟩ := hf n (hj ▸ hn)
      simp [hj, hb.id_eq, hb.key, hstate]
    · simp [hj]

/-- All code is still there. -/
def Keeps (t t' : CodeTable) : Prop :=
  ∀ i n, t.get? i = some n → ∃ n', t'.get? i = some n' ∧ n.Became n'

theorem Keeps.refl (t : CodeTable) : t.Keeps t := fun _ n hn => ⟨n, hn, .refl n⟩

/-- Code that is kept over two changes is kept over both. -/
theorem Keeps.trans {t'' : CodeTable} (h : t.Keeps t') (h' : t'.Keeps t'') : t.Keeps t'' := by
  intro i n hn
  obtain ⟨n', hn', hb⟩ := h i n hn
  obtain ⟨n'', hn'', hb'⟩ := h' i n' hn'
  exact ⟨n'', hn'', hb.trans hb'⟩

theorem Keeps.modify {f : NativeMethod → NativeMethod}
    (hf : ∀ n, t.get? i = some n → n.Became (f n)) :
    t.Keeps (t.modify i f) := by
  intro j n hn
  rw [get?_modify, hn]
  refine ⟨_, rfl, ?_⟩
  simp only
  split
  · next hj => exact hf n (hj ▸ hn)
  · exact .refl n

/-- A table that has a changed version of everything keeps everything. -/
theorem Keeps.of_map {f : NativeId → NativeMethod → NativeMethod}
    (hget : ∀ i, t'.get? i = (t.get? i).map (f i)) (hf : ∀ i (n : NativeMethod), n.Became (f i n)) :
    t.Keeps t' := by
  intro i n hn
  exact ⟨f i n, by rw [hget, hn]; rfl, hf i n⟩

/-! ## Installation -/

section Install

variable (h : t.install n = .ok (t', i))

include h

/-- What an installation does to the fields of the table. -/
theorem install_ok : ∃ version, i = ⟨t.methods.length⟩ ∧ t'.epoch = t.epoch + 1 ∧
    t'.current = (n.key, i) :: t.current.filter (·.1 ≠ n.key) ∧
    t'.versions = (n.key, version) :: t.versions.filter (·.1 ≠ n.key) ∧
    t'.methods = (match t.current? n.key with
      | some old =>
        t.methods.modify old.index fun e => if e.state = .live then
          { e with state := .superseded } else e
      | none => t.methods) ++
        [{ n with id := i, version := version, compiledAt := t.epoch + 1, state := .live }] := by
  rw [install] at h
  obtain ⟨version, -, h⟩ := exists_ok_of_bind h
  cases h
  exact ⟨version, rfl, rfl, rfl, rfl, rfl⟩

/-- The new code stands at its handle. -/
theorem get?_install_self : ∃ version,
    t'.get? i = some { n with
      id := i, version := version, compiledAt := t.epoch + 1, state := .live } := by
  obtain ⟨version, rfl, -, -, -, hmethods⟩ := install_ok h
  refine ⟨version, ?_⟩
  rw [get?, hmethods, List.getElem?_append_right]
  · split <;> simp
  · split <;> simp

/-- The version that was live before is superseded, and all other code stays. -/
theorem get?_install (hj : j ≠ i) : t'.get? j = (t.get? j).map fun e =>
    if t.current? n.key = some j ∧ e.state = .live then { e with state := .superseded } else e := by
  obtain ⟨version, rfl, -, -, -, hmethods⟩ := install_ok h
  have hne : j.index ≠ t.methods.length := fun hj' => hj (congrArg NativeId.mk hj')
  rw [get?, get?, hmethods]
  rcases Nat.lt_or_ge j.index t.methods.length with hlt | hge
  · rw [List.getElem?_append_left (by split <;> simpa)]
    cases hcur : t.current? n.key with
    | none => simp
    | some old =>
      have hold : some old = some j ↔ old.index = j.index := by cases old; cases j; simp
      simp only [List.getElem?_modify, hold]
      split <;> simp [*]
  · have hlt : t.methods.length < j.index := Nat.lt_of_le_of_ne hge hne.symm
    rw [List.getElem?_eq_none hge, List.getElem?_eq_none]
    · rfl
    · split <;> simp <;> omega

/-- The new code is current for its key. -/
theorem current?_install (k : LookupKey) :
    t'.current? k = if k = n.key then some i else t.current? k := by
  obtain ⟨version, -, -, hcurrent, -, -⟩ := install_ok h
  rw [current?, hcurrent, lookup_set, current?]

/-- The place of new code was free. -/
theorem get?_eq_none_of_install : t.get? i = none := by
  obtain ⟨version, rfl, -⟩ := install_ok h
  exact List.getElem?_eq_none (Nat.le_refl _)

theorem ne_of_install {e : NativeMethod} (he : t.get? j = some e) : j ≠ i := by
  rintro rfl
  rw [get?_eq_none_of_install h] at he
  cases he

/-- Installing code removes none: the version before is superseded at most. -/
theorem keeps_install : t.Keeps t' := by
  intro j e he
  rw [get?_install h (ne_of_install h he), he]
  refine ⟨_, rfl, ?_⟩
  simp only
  split
  · next hlive => exact ⟨rfl, fun _ => by simp [NativeMethod.isValid, hlive.2]⟩
  · exact .refl e

/-- A table with new code is well-formed, since the version that was live before is not any more. -/
theorem WellFormed.install (hw : t.WellFormed) : t'.WellFormed where
  id_eq j e he := by
    by_cases hj : j = i
    · subst hj
      obtain ⟨version, hself⟩ := get?_install_self h
      rw [hself] at he
      cases he
      rfl
    · rw [get?_install h hj] at he
      obtain ⟨e₀, he₀, rfl⟩ := Option.map_eq_some_iff.1 he
      rw [apply_ite NativeMethod.id, ite_self]
      exact hw.id_eq j e₀ he₀
  current_iff k j := by
    obtain ⟨version, hself⟩ := get?_install_self h
    rw [current?_install h]
    constructor
    · intro hk
      split at hk
      · next hkey =>
        cases hk
        exact ⟨_, hself, hkey.symm, rfl⟩
      · next hkey =>
        -- The live version of another key is not the one that was superseded.
        obtain ⟨e, he, rfl, hlive⟩ := (hw.current_iff k j).1 hk
        have hother : t.current? n.key ≠ some j := by
          intro hcur
          obtain ⟨e', he', hkey', -⟩ := (hw.current_iff _ _).1 hcur
          rw [he] at he'
          cases he'
          exact hkey hkey'
        exact ⟨e, by rw [get?_install h (ne_of_install h he), he]; simp [hother], rfl, hlive⟩
    · rintro ⟨e, he, rfl, hlive⟩
      by_cases hj : j = i
      · subst hj
        rw [hself] at he
        cases he
        rw [if_pos rfl]
      · rw [get?_install h hj] at he
        obtain ⟨e₀, he₀, rfl⟩ := Option.map_eq_some_iff.1 he
        split at hlive
        · cases hlive
        · next hold =>
          -- Code that is still live was so before, and had another key.
          have hcur := (hw.current_iff e₀.key j).2 ⟨e₀, he₀, rfl, hlive⟩
          rw [if_neg hold, if_neg ?_, hcur]
          rintro hkey
          exact hold ⟨hkey ▸ hcur, hlive⟩

end Install

/-! ## Invalidation -/

/-- One piece of code is made invalid. If it was already, nothing happens. -/
theorem get?_invalidate (t : CodeTable) (i j : NativeId) :
    (t.invalidate i).2.get? j = (t.get? j).map fun n => if j = i then
      { n with state := .invalid } else n := by
  rw [← get?_modify (fun n => { n with state := .invalid })]
  rw [invalidate]
  split
  · next hn =>
    rw [get?_modify]
    by_cases hj : j = i
    · simp [hj, hn]
    · simp [hj]
  · next n hn =>
    split
    · next hinvalid =>
      rw [get?_modify]
      by_cases hj : j = i
      · subst hj
        simp [hn, ← hinvalid]
      · simp [hj]
    · rfl

/-- A key whose live version is made invalid has no current version. -/
theorem WellFormed.current?_invalidate (h : t.WellFormed) (i : NativeId) (k : LookupKey) :
    (t.invalidate i).2.current? k = if t.current? k = some i then none else t.current? k := by
  have hlive : t.current? k = some i → ∃ n, t.get? i = some n ∧ n.key = k ∧ n.state = .live :=
    (h.current_iff k i).1
  rw [CodeTable.invalidate]
  split
  · next hn =>
    rw [if_neg]
    intro hk
    obtain ⟨n, hn', -⟩ := hlive hk
    rw [hn] at hn'
    cases hn'
  · next n hn =>
    have hlive : t.current? k = some i → n.key = k ∧ n.state = .live := by
      intro hk
      obtain ⟨n', hn', hn''⟩ := hlive hk
      rw [hn] at hn'
      cases hn'
      exact hn''
    split
    · next hinvalid =>
      rw [if_neg]
      intro hk
      rw [(hlive hk).2] at hinvalid
      cases hinvalid
    · by_cases hk : t.current? k = some i
      · rw [(hlive hk).1, if_pos hk, if_pos hk]
        exact lookup_filter_self
      · rw [if_neg hk]
        split
        · next hkey => exact lookup_filter_of_ne fun hkk => hk (hkk ▸ hkey)
        · rfl

theorem WellFormed.invalidate (h : t.WellFormed) (i : NativeId) :
    (t.invalidate i).2.WellFormed where
  id_eq j n hn := by
    rw [get?_invalidate] at hn
    obtain ⟨n₀, hn₀, rfl⟩ := Option.map_eq_some_iff.1 hn
    rw [apply_ite NativeMethod.id, ite_self]
    exact h.id_eq j n₀ hn₀
  current_iff k j := by
    rw [h.current?_invalidate, get?_invalidate]
    by_cases hj : j = i
    · subst hj
      simp
    · simp only [if_neg hj, Option.map_id']
      rw [← h.current_iff k j]
      split
      · next hi => simp [hi, Ne.symm hj]
      · rfl

theorem keeps_invalidate (t : CodeTable) (i : NativeId) : t.Keeps (t.invalidate i).2 := by
  refine .of_map (get?_invalidate t i) fun j n => ?_
  split
  · exact ⟨rfl, fun h => by simp [NativeMethod.isValid] at h⟩
  · exact .refl n

/-- Making several pieces of code invalid in turn is making each of them invalid. -/
theorem get?_foldl_invalidate (l : List NativeId) (t : CodeTable) (j : NativeId) :
    (l.foldl (fun t i => (t.invalidate i).2) t).get? j =
      (t.get? j).map fun n => if j ∈ l then { n with state := .invalid } else n := by
  induction l generalizing t with
  | nil => simp
  | cons i l ih =>
    rw [List.foldl_cons, ih, get?_invalidate, Option.map_map]
    congr 1
    funext n
    by_cases hi : j = i
    · simp [hi]
    · simp [hi]

/-- Making all code invalid that a method went into keeps the table well-formed. -/
theorem WellFormed.invalidateDependents (h : t.WellFormed) (m : MethodId) :
    (t.invalidateDependents m).2.WellFormed := by
  rw [CodeTable.invalidateDependents]
  generalize (t.methods.filter fun n => n.isValid && n.dependsOn m).map (·.id) = l
  induction l generalizing t with
  | nil => exact h
  | cons i l ih => exact ih (h.invalidate i)

/-- What is still valid was so before, and the method was not compiled into it. -/
theorem get?_invalidateDependents (h : t.WellFormed) (m : MethodId) (i : NativeId) :
    (t.invalidateDependents m).2.get? i =
      (t.get? i).map fun n => if n.isValid && n.dependsOn m then
        { n with state := .invalid } else n := by
  rw [invalidateDependents, get?_foldl_invalidate]
  cases hn : t.get? i with
  | none => rfl
  | some n =>
    have hmem : i ∈ (t.methods.filter fun n => n.isValid && n.dependsOn m).map (·.id) ↔
        n.isValid && n.dependsOn m := by
      simp only [List.mem_map, List.mem_filter]
      constructor
      · -- Handles are places, so code with this handle is the code at this place.
        rintro ⟨n', ⟨hn', hdep⟩, rfl⟩
        obtain ⟨j, hj⟩ := List.mem_iff_getElem?.1 hn'
        have hid := h.id_eq ⟨j⟩ n' hj
        rw [hid] at hn
        rw [get?, hj] at hn
        cases hn
        exact hdep
      · exact fun hdep => ⟨n, ⟨List.mem_of_getElem? hn, hdep⟩, h.id_eq i n hn⟩
    simp only [Option.map_some, hmem]

end CodeTable

end Warmup
