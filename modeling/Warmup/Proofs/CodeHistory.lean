import Warmup.Proofs.CodeVersions

/-!
# The history of a code table

Code is installed and made invalid, one by one or all that a method was compiled into
(`CodeChange`). A table that this leads to (`CodeTable.applyAll`) is ordered: it knows which
version of a key is live, code was compiled in the order of its places, and the versions of a key
are numbered in that order (`CodeTable.Ordered`). Of code that is in the table nothing but its
state changes, and that only towards invalidity (`CodeTable.Forward`).

An installation fails only if its key has too many versions for the counter, so a
history with few enough of them leads to a table (`exists_applyAll`).
-/

namespace Warmup

/-- How far code is from being live. -/
def CodeState.rank : CodeState → Nat
  | live => 0
  | superseded => 1
  | invalid => 2

/-- A change of a code table. -/
inductive CodeChange
  | install (n : NativeMethod)
  | invalidate (i : NativeId)
  | invalidateDependents (m : MethodId)

/-- Whether it installs code for a key. -/
def CodeChange.installs (k : LookupKey) : CodeChange → Bool
  | install n => n.key = k
  | _ => false

namespace CodeTable

variable {t t' t'' : CodeTable} {n : NativeMethod} {i : NativeId} {k : LookupKey} {m : MethodId}
  {β : Type} {g : NativeMethod → β}

/-- The table after a change. -/
def apply (t : CodeTable) : CodeChange → Except Fault CodeTable
  | .install n => (t.install n).map (·.1)
  | .invalidate i => .ok (t.invalidate i).2
  | .invalidateDependents m => .ok (t.invalidateDependents m).2

/-- The table after some changes. -/
def applyAll (t : CodeTable) : List CodeChange → Except Fault CodeTable
  | [] => .ok t
  | change :: changes => do (← t.apply change).applyAll changes

/-! ## What changes leave alone -/

/-- Nothing but the state of code changes when other code is installed. -/
theorem map_install (hg : ∀ (n : NativeMethod) s, g { n with state := s } = g n)
    (h : t.install n = .ok (t', i)) :
    t'.methods.map g = t.methods.map g ++ [g { n with
      id := i, version := t.versionCount n.key + 1, compiledAt := t.epoch + 1,
      state := .live }] := by
  rw [install] at h
  obtain ⟨version, hversion, h⟩ := exists_ok_of_bind h
  obtain ⟨rfl, -⟩ := Word.fit_eq_ok_iff.1 hversion
  cases h
  rw [List.map_append, List.map_singleton]
  -- Installing changes the state of the version before, which is not looked at here.
  congr 1
  split
  · refine map_modify_eq fun a _ => ?_
    split
    · exact hg a .superseded
    · rfl
  · rfl

/-- What does not look at states is the same after code was made invalid. -/
theorem map_invalidate (hg : ∀ (n : NativeMethod) s, g { n with state := s } = g n) (t : CodeTable)
    (i : NativeId) :
    (t.invalidate i).2.methods.map g = t.methods.map g := by
  rw [invalidate]
  split
  · rfl
  · split
    · rfl
    · exact map_modify_eq fun a _ => hg a .invalid

theorem versionCount_install (h : t.install n = .ok (t', i)) (k : LookupKey) :
    t'.versionCount k = if n.key = k then t.versionCount k + 1 else t.versionCount k := by
  rw [install] at h
  obtain ⟨version, hversion, h⟩ := exists_ok_of_bind h
  obtain ⟨rfl, -⟩ := Word.fit_eq_ok_iff.1 hversion
  cases h
  rw [versionCount, lookup_set]
  by_cases hk : n.key = k
  · simp [hk]
  · simp [hk, Ne.symm hk, versionCount]

/-- What the versions of keys are numbered by does not change when code becomes invalid. -/
theorem counters_invalidate (t : CodeTable) (i : NativeId) :
    (t.invalidate i).2.versions = t.versions ∧ (t.invalidate i).2.epoch = t.epoch := by
  rw [invalidate]
  split
  · exact ⟨rfl, rfl⟩
  · split
    · exact ⟨rfl, rfl⟩
    · exact ⟨rfl, rfl⟩

/-! ## Ordered tables -/

/-- The versions of a key, in the order of their places. -/
def versionsOf (t : CodeTable) (k : LookupKey) : List Nat :=
  (t.methods.filter (·.key = k)).map (·.version)

/-- The versions of a key do not depend on the states of code. -/
theorem versionsOf_eq (t : CodeTable) (k : LookupKey) :
    t.versionsOf k = ((t.methods.map fun n => (n.key, n.version)).filter (·.1 = k)).map (·.2) := by
  rw [versionsOf, List.filter_map, List.map_map]
  rfl

/-- What holds of every table that changes lead to. -/
structure Ordered (t : CodeTable) : Prop where
  wellFormed : t.WellFormed
  epoch : t.epoch = t.methods.length
  compiledAt : t.methods.map (·.compiledAt) = List.range' 1 t.epoch
  versions : ∀ k, t.versionsOf k = List.range' 1 (t.versionCount k)

theorem Ordered.empty : Ordered {} := ⟨.empty, rfl, rfl, fun _ => rfl⟩

/-- Code that is installed is compiled last, and is the next version of its key. -/
theorem Ordered.install (ht : t.Ordered) (h : t.install n = .ok (t', i)) : t'.Ordered where
  wellFormed := ht.wellFormed.install h
  epoch := by
    have hlen := congrArg List.length (map_install (g := fun _ => ()) (fun _ _ => rfl) h)
    obtain ⟨version, -, hepoch, -⟩ := install_ok h
    simpa [hepoch, ht.epoch] using hlen.symm
  compiledAt := by
    obtain ⟨version, -, hepoch, -⟩ := install_ok h
    rw [map_install (fun _ _ => rfl) h, ht.compiledAt, hepoch, List.range'_1_concat, Nat.add_comm 1]
  versions k := by
    rw [versionsOf_eq, map_install (fun _ _ => rfl) h, List.filter_append,
      List.map_append, ← versionsOf_eq, ht.versions k, versionCount_install h]
    by_cases hk : n.key = k
    · simp [hk, List.range'_1_concat, Nat.add_comm 1]
    · simp [hk]

/-- Making code invalid changes no version and no order. -/
theorem Ordered.invalidate (ht : t.Ordered) (i : NativeId) : (t.invalidate i).2.Ordered where
  wellFormed := ht.wellFormed.invalidate i
  epoch := by
    have hlen := congrArg List.length (map_invalidate (g := fun _ => ()) (fun _ _ => rfl) t i)
    rw [(counters_invalidate t i).2, ht.epoch]
    simpa using hlen.symm
  compiledAt := by rw [map_invalidate (fun _ _ => rfl), ht.compiledAt, (counters_invalidate t i).2]
  versions k := by
    rw [versionsOf_eq, map_invalidate (fun _ _ => rfl), ← versionsOf_eq, ht.versions k,
      versionCount, versionCount, (counters_invalidate t i).1]

/-- What holds as long as code becomes invalid holds when all code becomes so that a method was
    compiled into. -/
theorem invalidateDependents_induction {P : CodeTable → Prop}
    (hP : ∀ t i, P t → P (t.invalidate i).2) (ht : P t) (m : MethodId) :
    P (t.invalidateDependents m).2 := by
  rw [invalidateDependents]
  generalize (t.methods.filter fun n => n.isValid && n.dependsOn m).map (·.id) = l
  induction l generalizing t with
  | nil => exact ht
  | cons i l ih => exact ih (hP t i ht)

theorem Ordered.invalidateDependents (ht : t.Ordered) (m : MethodId) :
    (t.invalidateDependents m).2.Ordered :=
  invalidateDependents_induction (fun _ i ht => ht.invalidate i) ht m

theorem Ordered.apply (ht : t.Ordered) {change : CodeChange} (h : t.apply change = .ok t') :
    t'.Ordered := by
  cases change with
  | install n =>
    obtain ⟨⟨t₁, i⟩, hi, rfl⟩ := exists_ok_of_map h
    exact ht.install hi
  | invalidate i =>
    cases h
    exact ht.invalidate i
  | invalidateDependents m =>
    cases h
    exact ht.invalidateDependents m

theorem Ordered.applyAll (ht : t.Ordered) {changes : List CodeChange}
    (h : t.applyAll changes = .ok t') :
    t'.Ordered := by
  induction changes generalizing t with
  | nil =>
    cases h
    exact ht
  | cons change changes ih =>
    obtain ⟨t₁, h₁, h⟩ := exists_ok_of_bind h
    exact ih (ht.apply h₁) h

/-- Code is compiled in the order of its places. -/
theorem Ordered.compiledAt_eq (ht : t.Ordered) (h : t.get? i = some n) :
    n.compiledAt = i.index + 1 := by
  have hlt : i.index < t.epoch := ht.epoch ▸ (List.getElem?_eq_some_iff.1 h).1
  have hi : (t.methods.map (·.compiledAt))[i.index]? = some n.compiledAt := by
    rw [List.getElem?_map, show t.methods[i.index]? = some n from h, Option.map_some]
  rw [ht.compiledAt, List.getElem?_range' hlt] at hi
  simpa [Nat.add_comm] using hi.symm

/-- The current version of a key is newer than another one if it has a later place. -/
theorem Ordered.isNewerThan_iff (ht : t.Ordered) (h : t.get? i = some n) (k : LookupKey) :
    t.isNewerThan k i ↔ ∃ j, t.current? k = some j ∧ i.index < j.index := by
  rw [isNewerThan]
  rcases hcur : t.current? k with _ | j
  · simp
  · obtain ⟨n', hn', -⟩ := (ht.wellFormed.current_iff k j).1 hcur
    simp only [hn', h, ht.compiledAt_eq hn', ht.compiledAt_eq h, Option.some.injEq,
      exists_eq_left', Bool.and_eq_true,
      decide_eq_true_eq, Nat.add_lt_add_iff_right, and_iff_right_iff_imp]
    rintro hlt rfl
    exact Nat.lt_irrefl _ hlt

/-! ## The states of code -/

/-- All code is still there, and at most its state has moved on. -/
def Forward (t t' : CodeTable) : Prop :=
  ∀ i n, t.get? i = some n →
    ∃ s : CodeState, n.state.rank ≤ s.rank ∧ t'.get? i = some { n with state := s }

theorem Forward.refl (t : CodeTable) : t.Forward t := fun _ n hn => ⟨n.state, Nat.le_refl _, hn⟩

/-- States only move towards invalidity, over any number of changes. -/
theorem Forward.trans (h : t.Forward t') (h' : t'.Forward t'') : t.Forward t'' := by
  intro i n hn
  obtain ⟨s, hs, hn'⟩ := h i n hn
  obtain ⟨s', hs', hn''⟩ := h' i _ hn'
  exact ⟨s', Nat.le_trans hs hs', hn''⟩

theorem rank_invalid (s : CodeState) : s.rank ≤ CodeState.invalid.rank := by
  cases s <;> decide

/-- The version before is superseded, other code stays as it is. -/
theorem forward_install (h : t.install n = .ok (t', i)) : t.Forward t' := by
  intro j e he
  rw [get?_install h (ne_of_install h he), he, Option.map_some]
  split
  · next hlive => exact ⟨.superseded, by rw [hlive.2]; decide, rfl⟩
  · exact ⟨e.state, Nat.le_refl _, rfl⟩

/-- Code that is made invalid moves to the last state. -/
theorem forward_invalidate (t : CodeTable) (i : NativeId) : t.Forward (t.invalidate i).2 := by
  intro j e he
  rw [get?_invalidate, he, Option.map_some]
  split
  · exact ⟨.invalid, rank_invalid e.state, rfl⟩
  · exact ⟨e.state, Nat.le_refl _, rfl⟩

theorem forward_apply {change : CodeChange} (h : t.apply change = .ok t') : t.Forward t' := by
  cases change with
  | install n =>
    obtain ⟨⟨t₁, i⟩, hi, rfl⟩ := exists_ok_of_map h
    exact forward_install hi
  | invalidate i =>
    cases h
    exact t.forward_invalidate i
  | invalidateDependents m =>
    cases h
    exact invalidateDependents_induction
      (fun t' i ht' => ht'.trans (t'.forward_invalidate i)) (.refl t) m

theorem forward_applyAll {changes : List CodeChange} (h : t.applyAll changes = .ok t') :
    t.Forward t' := by
  induction changes generalizing t with
  | nil =>
    cases h
    exact .refl _
  | cons change changes ih =>
    obtain ⟨t₁, h₁, h⟩ := exists_ok_of_bind h
    exact (forward_apply h₁).trans (ih h)

/-! ## Histories -/

/-- The versions of a key count the installations under it. -/
theorem versionCount_apply {change : CodeChange} (h : t.apply change = .ok t') (k : LookupKey) :
    t'.versionCount k = t.versionCount k + if change.installs k then 1 else 0 := by
  cases change with
  | install n =>
    obtain ⟨⟨t₁, i⟩, hi, rfl⟩ := exists_ok_of_map h
    rw [versionCount_install hi]
    by_cases hk : n.key = k
    · simp [CodeChange.installs, hk]
    · simp [CodeChange.installs, hk]
  | invalidate i =>
    cases h
    rw [versionCount, (counters_invalidate t i).1]
    rfl
  | invalidateDependents m =>
    cases h
    refine invalidateDependents_induction (P := fun t' => t'.versionCount k = t.versionCount k)
      (fun t' i ht' => ?_) rfl m
    rw [versionCount, (counters_invalidate t' i).1]
    exact ht'

/-- The counter of a key counts its installations. -/
theorem versionCount_applyAll {changes : List CodeChange} (h : t.applyAll changes = .ok t')
    (k : LookupKey) :
    t'.versionCount k = t.versionCount k + changes.countP (·.installs k) := by
  induction changes generalizing t with
  | nil =>
    cases h
    rfl
  | cons change changes ih =>
    obtain ⟨t₁, h₁, h⟩ := exists_ok_of_bind h
    rw [ih h, versionCount_apply h₁, List.countP_cons]
    omega

/-- A change fails only if the counter for the versions of a key is too small. -/
theorem exists_apply {change : CodeChange}
    (h : ∀ k, t.versionCount k + (if change.installs k then 1 else 0) < Word.size 16) :
    ∃ t', t.apply change = .ok t' := by
  cases change with
  | install n =>
    have hfit : Word.fit 16 (t.versionCount n.key + 1) = .ok (t.versionCount n.key + 1) :=
      Word.fit_eq_ok_iff.2 ⟨rfl, by simpa [CodeChange.installs] using h n.key⟩
    rw [apply, install, hfit]
    exact ⟨_, rfl⟩
  | invalidate i => exact ⟨_, rfl⟩
  | invalidateDependents m => exact ⟨_, rfl⟩

/-- A history with few enough versions of every key leads to a table. -/
theorem exists_applyAll {changes : List CodeChange}
    (h : ∀ k, t.versionCount k + changes.countP (·.installs k) < Word.size 16) :
    ∃ t', t.applyAll changes = .ok t' := by
  induction changes generalizing t with
  | nil => exact ⟨t, rfl⟩
  | cons change changes ih =>
    obtain ⟨t₁, h₁⟩ : ∃ t₁, t.apply change = .ok t₁ := by
      refine exists_apply fun k => Nat.lt_of_le_of_lt ?_ (h k)
      rw [List.countP_cons]
      omega
    obtain ⟨t', h'⟩ : ∃ t', t₁.applyAll changes = .ok t' := by
      refine ih fun k => ?_
      have hk := h k
      rw [List.countP_cons] at hk
      rw [versionCount_apply h₁]
      omega
    exact ⟨t', by rw [applyAll, h₁]; exact h'⟩

theorem applyAll_append {before after : List CodeChange}
    (h : t.applyAll (before ++ after) = .ok t') :
    ∃ t₁, t.applyAll before = .ok t₁ ∧ t₁.applyAll after = .ok t' := by
  induction before generalizing t with
  | nil => exact ⟨t, rfl, h⟩
  | cons change before ih =>
    obtain ⟨t₁, h₁, h⟩ := exists_ok_of_bind h
    obtain ⟨t₂, h₂, h'⟩ := ih h
    exact ⟨t₂, by rw [applyAll, h₁]; exact h₂, h'⟩

/-- A history with fewer than 2¹⁶ installations of every key leads to a table. There the current
    version of a key is the one that is live, code stands at the place that its handle
    names and was compiled in the order of the places, and the versions of a key are numbered
    in that order. Since any earlier moment, no code has changed but for its state, which has
    only moved on. Exactly the valid code that a method was compiled into becomes invalid with
    it, and the current version of a key is newer than code of that key exactly if it has a
    later place. -/
theorem ordered_applyAll {changes : List CodeChange}
    (h : ∀ k, changes.countP (·.installs k) < Word.size 16) :
    ∃ t, applyAll {} changes = .ok t ∧
      (∀ k i, t.current? k = some i ↔ ∃ n, t.get? i = some n ∧ n.key = k ∧ n.state = .live) ∧
      (∀ i n, t.get? i = some n → n.id = i ∧ n.compiledAt = i.index + 1) ∧
      (∀ k, (t.methods.filter (·.key = k)).map (·.version) = List.range' 1 (t.versionCount k)) ∧
      (∀ k, t.versionCount k = changes.countP (·.installs k)) ∧
      (∀ before after, changes = before ++ after → ∃ earlier, applyAll {} before = .ok earlier ∧
        earlier.Forward t) ∧
      (∀ m i n, t.get? i = some n → (t.invalidateDependents m).2.get? i = some
        (if n.state ≠ .invalid ∧ (n.method = m ∨ ∃ d ∈ n.scopes, d.method = m) then
          { n with state := .invalid } else n)) ∧
      ∀ i n, t.get? i = some n → (t.isNewerThan n.key i ↔ ∃ j, t.current? n.key = some j ∧
        i.index < j.index) := by
  obtain ⟨t, ht⟩ : ∃ t, applyAll {} changes = .ok t := exists_applyAll fun k => by
    simpa [versionCount] using h k
  have hordered : t.Ordered := Ordered.empty.applyAll ht
  refine ⟨t, ht, hordered.wellFormed.current_iff,
    fun i n hn => ⟨hordered.wellFormed.id_eq i n hn, hordered.compiledAt_eq hn⟩,
    hordered.versions, fun k => ?_, ?_, fun m i n hn => ?_, fun i n hn =>
    hordered.isNewerThan_iff hn n.key⟩
  · simpa [versionCount] using versionCount_applyAll ht k
  · rintro before after rfl
    obtain ⟨earlier, hbefore, hafter⟩ := applyAll_append ht
    exact ⟨earlier, hbefore, forward_applyAll hafter⟩
  · rw [get?_invalidateDependents hordered.wellFormed, hn]
    simp [NativeMethod.isValid, NativeMethod.dependsOn]

/-- Code of one key is installed twice, and the second version becomes invalid while the first
    one is still valid. After that the key gets a third version, and another key a first one, which
    becomes invalid with a method that was inlined into it. -/
def reinstalled : List CodeChange :=
  let area : LookupKey := .send ⟨9⟩ ⟨0⟩
  [.install { key := area, method := ⟨0⟩, level := 1 },
    .install { key := area, method := ⟨0⟩, level := 2 },
    .invalidate ⟨1⟩, .install { key := area, method := ⟨0⟩, level := 1 },
    .install { key := .send ⟨9⟩ ⟨1⟩, method := ⟨1⟩, level := 1,
               scopes := [⟨1, some (0, 0), .send ⟨9⟩ ⟨2⟩, ⟨2⟩, false⟩] },
    .invalidateDependents ⟨2⟩]

/-- The third version is current and newer than the first one, which stays superseded. -/
theorem ordered_reinstalled :
    (∀ k, reinstalled.countP (·.installs k) < Word.size 16) ∧ ∃ t, applyAll {} reinstalled = .ok t ∧
      t.methods.map (·.state) = [.superseded, .invalid, .live, .invalid] ∧
      t.current? (.send ⟨9⟩ ⟨0⟩) = some ⟨2⟩ ∧ t.versionCount (.send ⟨9⟩ ⟨0⟩) = 3 ∧
      (t.methods.filter (·.key = .send ⟨9⟩ ⟨0⟩)).map (·.version) =
        List.range' 1 (t.versionCount (.send ⟨9⟩ ⟨0⟩)) ∧
      t.isNewerThan (.send ⟨9⟩ ⟨0⟩) ⟨0⟩ := by
  -- The history is shorter than the number of versions that a key can have.
  have hfew (k : LookupKey) : reinstalled.countP (·.installs k) < Word.size 16 :=
    Nat.lt_of_le_of_lt List.countP_le_length (by decide)
  obtain ⟨t, ht, -, -, hversions, -, -, -, hnewer⟩ := ordered_applyAll hfew
  obtain ⟨first, hfirst, hkey⟩ : ∃ n, t.get? ⟨0⟩ = some n ∧ n.key = .send ⟨9⟩ ⟨0⟩ := by
    cases ht
    exact ⟨_, rfl, rfl⟩
  have hcurrent : t.current? (.send ⟨9⟩ ⟨0⟩) = some ⟨2⟩ := by
    cases ht
    rfl
  refine ⟨hfew, t, ht, ?_, hcurrent, ?_, hversions _, ?_⟩
  · cases ht
    rfl
  · cases ht
    rfl
  · rw [← hkey] at hcurrent ⊢
    exact (hnewer ⟨0⟩ first hfirst).2 ⟨⟨2⟩, hcurrent, by decide⟩

end CodeTable

end Warmup
