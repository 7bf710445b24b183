import Mathlib.Algebra.Group.Nat.Defs
import Mathlib.Data.Option.Basic
import Mathlib.Tactic.Common
import Warmup.Binary

/-!
# Binary fields

A format of binary fields is a *code* if reading finds what was written, whatever
bytes follow it, and finds nothing else (`Binary.Codes`). Numbers and texts are
coded, and so are lists of, and choices among, what is coded. The values that have
a code are those that fit: a number has a width, and the count of bytes of a text,
or of items of a list, is a number of eight bytes.
-/

namespace Warmup.Binary

variable {α : Type} {P : α → Prop} {write : α → Bytes} {read : Reader α}

/-- The values with `P` are coded by `write`: exactly their codes can be read, and
    what follows a code is left over. -/
def Codes (P : α → Prop) (write : α → Bytes) (read : Reader α) : Prop :=
  ∀ (bs : Bytes) (x : α) (rest : Bytes), read bs = some (x, rest) ↔ P x ∧ bs = write x ++ rest

/-! ## Numbers -/

/-- A number below 256 to the width is read back from its bytes, the lowest of which comes first. -/
theorem codes_word (width : Nat) : Codes (· < 256 ^ width) (word width) (readWord width) := by
  intro bs n rest
  induction width generalizing bs n with
  | zero =>
    simp [readWord, word, eq_comm]
  | succ width ih =>
    rcases bs with _ | ⟨b, bs⟩
    · simp [readWord, word]
    · have hread : readWord (width + 1) (b :: bs) = some (n, rest) ↔
          ∃ m, (m < 256 ^ width ∧ bs = word width m ++ rest) ∧ b.toNat + 256 * m = n := by
        simp [readWord, Option.bind_eq_some_iff, ih]
      rw [hread, word, List.cons_append, List.cons.injEq, Nat.pow_succ]
      -- The first byte is the remainder by 256, and the other bytes code the quotient.
      have hb : b.toNat < 256 := b.toNat_lt
      constructor
      · rintro ⟨m, ⟨hm, rfl⟩, rfl⟩
        have hdiv : (b.toNat + 256 * m) / 256 = m := by omega
        refine ⟨by omega, ?_, by rw [hdiv]⟩
        refine UInt8.toNat_inj.1 ?_
        rw [UInt8.toNat_ofNat']
        omega
      · rintro ⟨hn, rfl, rfl⟩
        refine ⟨n / 256, ⟨by omega, rfl⟩, ?_⟩
        rw [UInt8.toNat_ofNat']
        omega

/-! ## Texts -/

/-- Bytes that are read as text are the ones that code it. -/
theorem ofUtf8?_eq_some_iff {bs : Bytes} {s : String} : ofUtf8? bs = some s ↔ bs = utf8 s := by
  rw [ofUtf8?, utf8, String.fromUTF8?]
  constructor
  · intro h
    split at h
    · obtain rfl := Option.some.inj h
      rfl
    · cases h
  · rintro rfl
    exact dif_pos s.isValidUTF8

/-- A text that fits has fewer bytes than there are numbers of eight bytes. -/
def TextFits (s : String) : Prop := (utf8 s).length < UInt64.size

instance (s : String) : Decidable (TextFits s) := inferInstanceAs (Decidable (_ < _))

/-- A text is read back if the count of its bytes fits in eight. -/
theorem codes_text : Codes TextFits text readText := by
  intro bs s rest
  have hread : readText bs = some (s, rest) ↔
      ∃ n bs', (n < 256 ^ 8 ∧ bs = word 8 n ++ bs') ∧ n ≤ bs'.length ∧ bs'.take n = utf8 s ∧
      bs'.drop n = rest := by
    simp [readText, Option.bind_eq_some_iff, codes_word 8 bs, ofUtf8?_eq_some_iff,
      Option.guard_eq_some']
  rw [hread, text, TextFits]
  constructor
  · rintro ⟨n, bs', ⟨hn, rfl⟩, hle, htake, rfl⟩
    obtain rfl : n = (utf8 s).length := by rw [← htake, List.length_take_of_le hle]
    have hsplit : utf8 s ++ bs'.drop (utf8 s).length = bs' := by
      conv_lhs => rw [← htake, List.length_take_of_le hle, List.take_append_drop]
    exact ⟨hn, by rw [List.append_assoc, hsplit]⟩
  · rintro ⟨hlen, rfl⟩
    refine ⟨(utf8 s).length, utf8 s ++ rest, ⟨hlen, List.append_assoc ..⟩, ?_, ?_, ?_⟩
    · rw [List.length_append]
      exact Nat.le_add_right ..
    · exact List.take_left
    · exact List.drop_left

/-! ## Lists and choices -/

/-- Items are read back one by one, as many as are asked for. -/
theorem readItems_eq_some_iff (h : Codes P write read) (n : Nat) (bs : Bytes) (xs : List α)
    (rest : Bytes) :
    readItems read n bs = some (xs, rest) ↔ xs.length = n ∧ (∀ x ∈ xs, P x) ∧
      bs = xs.flatMap write ++ rest := by
  induction n generalizing bs xs with
  | zero =>
    rw [readItems, Option.some.injEq, Prod.mk.injEq, List.length_eq_zero_iff]
    constructor
    · rintro ⟨rfl, rfl⟩
      simp
    · rintro ⟨rfl, -, rfl⟩
      exact ⟨rfl, rfl⟩
  | succ n ih =>
    have hread : readItems read (n + 1) bs = some (xs, rest) ↔ ∃ x bs',
        (P x ∧ bs = write x ++ bs') ∧
        ∃ ys, (ys.length = n ∧ (∀ y ∈ ys, P y) ∧ bs' = ys.flatMap write ++ rest) ∧
        x :: ys = xs := by
      simp [readItems, Option.bind_eq_some_iff, h bs, ih]
    rw [hread]
    constructor
    · rintro ⟨x, _, ⟨hx, rfl⟩, ys, ⟨hlen, hys, rfl⟩, rfl⟩
      simpa [hx, hlen] using hys
    · rintro ⟨hlen, hxs, rfl⟩
      obtain ⟨x, ys, rfl⟩ := List.exists_cons_of_length_eq_add_one hlen
      rw [List.forall_mem_cons] at hxs
      refine ⟨x, ys.flatMap write ++ rest, ⟨hxs.1, by simp⟩, ys,
        ⟨Nat.succ.inj hlen, hxs.2, rfl⟩, rfl⟩

/-- A list is read back if its items are and their number fits in eight bytes. -/
theorem Codes.list (h : Codes P write read) :
    Codes (fun xs => xs.length < UInt64.size ∧ ∀ x ∈ xs, P x) (list write) (readList read) := by
  intro bs xs rest
  have hread : readList read bs = some (xs, rest) ↔ ∃ n bs', (n < 256 ^ 8 ∧ bs = word 8 n ++ bs') ∧
      xs.length = n ∧ (∀ x ∈ xs, P x) ∧ bs' = xs.flatMap write ++ rest := by
    simp [readList, Option.bind_eq_some_iff, codes_word 8 bs, readItems_eq_some_iff h]
  rw [hread, Binary.list]
  constructor
  · rintro ⟨_, _, ⟨hlen, rfl⟩, rfl, hxs, rfl⟩
    exact ⟨⟨hlen, hxs⟩, (List.append_assoc ..).symm⟩
  · rintro ⟨⟨hlen, hxs⟩, rfl⟩
    exact ⟨xs.length, _, ⟨hlen, List.append_assoc ..⟩, rfl, hxs, rfl⟩

/-- A choice is read back if what it may hold is. Bytes other than zero and one code nothing. -/
theorem Codes.option (h : Codes P write read) :
    Codes (fun o => ∀ x ∈ o, P x) (option write) (readOption read) := by
  intro bs o rest
  rcases bs with _ | ⟨b, bs⟩
  · rcases o with _ | x <;> simp [readOption, Binary.option]
  · by_cases h0 : b = 0
    · subst h0
      rcases o with _ | x <;> simp [readOption, Binary.option]
    · by_cases h1 : b = 1
      · subst h1
        rcases o with _ | x <;> simp [readOption, Binary.option, h bs]
      · have hnone : readOption read (b :: bs) = none := by
          rw [readOption]
          · exact fun _ heq => h0 (List.cons.inj heq).1
          · exact fun _ heq => h1 (List.cons.inj heq).1
        rcases o with _ | x <;> simp [hnone, Binary.option, h0, h1]

end Warmup.Binary
