import Mathlib.Tactic.Common
import Warmup.ClassTable

/-!
# Calls of blocks

A block is called by `value`, or by a message of as many keywords `value:` as it has arguments
(`BlockCall.Regular`). The test that the compiler makes of a selector cuts its name at the colons
and accepts empty pieces wherever they stand. So it also accepts names in which a colon has no
keyword, or the last keyword has no colon (`BlockCall.Irregular`), and no others:

* `Text.pieces_eq_splitOn`: cutting text at a separator;
* `ClassTable.isBlockInvocation_iff`: the test in terms of the words of a name;
* `ClassTable.isBlockInvocation_iff_regular_or_irregular`: which selectors pass it.
-/

namespace Warmup

/-- Cutting text is the splitting of lists. -/
theorem Text.pieces_eq_splitOn (sep : Char) (s : List Char) : pieces sep s = s.splitOn sep := by
  induction s with
  | nil => rfl
  | cons c s ih =>
    rw [pieces, List.splitOn_cons_eq_if_modifyHead, ih]
    by_cases h : c = sep
    · rw [if_pos h, if_pos (by simpa using h)]
    · rw [if_neg h, if_neg (by simpa using h)]
      rcases hs : s.splitOn sep with _ | ⟨p, ps⟩
      · exact absurd hs (List.splitOn_ne_nil sep s)
      · rfl

namespace BlockCall

/-- The names of the messages that call a block: `value` without arguments, and else
    `value:` once for each argument. -/
def Regular (name : List Char) : Prop :=
  name = "value".toList ∨ ∃ n, name = (List.replicate (n + 1) "value:".toList).flatten

/-- The names that start with the keyword `value:` and go on with further ones and with colons,
    where a colon has no keyword, or a `value` without a colon is left at the end. -/
def Irregular (name : List Char) : Prop :=
  ∃ (keywords : List (List Char)) (rest : List Char),
    (∀ k ∈ keywords, k = "value:".toList ∨ k = [':']) ∧ (rest = [] ∨ rest = "value".toList) ∧
      ([':'] ∈ keywords ∨ rest = "value".toList) ∧
      name = "value:".toList ++ keywords.flatten ++ rest

/-- Nothing, or `value`: what may stand between the colons of such names. -/
def IsWord (p : List Char) : Prop := p = [] ∨ p = "value".toList

/-- The name that consists of words, each with a colon behind it, and of what is left. -/
def spell (words : List (List Char)) (rest : List Char) : List Char :=
  (words.map (· ++ [':'])).flatten ++ rest

variable {name rest : List Char} {words : List (List Char)}

theorem isWord_value : IsWord "value".toList := .inr rfl

/-- Words do not contain colons, so names are cut between them. -/
theorem IsWord.colon_notMem {p : List Char} (h : IsWord p) : ':' ∉ p := by
  rcases h with rfl | rfl <;> decide

/-- A name is its words with colons between them. -/
theorem spell_eq_intercalate (words : List (List Char)) (rest : List Char) :
    spell words rest = [':'].intercalate (words ++ [rest]) := by
  induction words with
  | nil => simp [spell]
  | cons p words ih =>
    rw [spell, List.map_cons, List.flatten_cons, List.append_assoc, ← spell, ih, List.cons_append]
    exact (List.intercalate_cons_of_ne_nil (by simp)).symm

/-- The pieces of a name are the words that it is made of. -/
theorem pieces_spell (hwords : ∀ p ∈ words, IsWord p) (hrest : IsWord rest) :
    Text.pieces ':' (spell words rest) = words ++ [rest] := by
  rw [spell_eq_intercalate, Text.pieces_eq_splitOn]
  refine List.splitOn_intercalate ':' (fun p hp => IsWord.colon_notMem ?_) (by simp)
  rcases List.mem_append.1 hp with hp | hp
  · exact hwords p hp
  · exact List.mem_singleton.1 hp ▸ hrest

/-- Every name is made of its pieces. -/
theorem exists_spell (name : List Char) :
    ∃ words rest, Text.pieces ':' name = words ++ [rest] ∧ name = spell words rest := by
  have hpieces := List.dropLast_concat_getLast (List.splitOn_ne_nil ':' name)
  refine ⟨_, _, (Text.pieces_eq_splitOn ':' name).trans hpieces.symm, ?_⟩
  rw [spell_eq_intercalate, hpieces, List.intercalate_splitOn]

/-! ## Two kinds of names -/

theorem regular_iff : Regular name ↔
    name = "value".toList ∨ ∃ n, name = spell (List.replicate (n + 1) "value".toList) [] := by
  have hspell (n : Nat) : spell (List.replicate (n + 1) "value".toList) [] =
      (List.replicate (n + 1) "value:".toList).flatten := by
    rw [spell, List.map_replicate, List.append_nil]
    rfl
  simp only [Regular, hspell]

/-- The irregular names in terms of their words: some word is empty, or the last one has no
    colon. -/
theorem irregular_iff : Irregular name ↔ ∃ words rest, (∀ p ∈ words, IsWord p) ∧ IsWord rest ∧
    ([] ∈ words ∨ rest = "value".toList) ∧ name = spell ("value".toList :: words) rest := by
  constructor
  · rintro ⟨keywords, rest, hkeywords, hrest, hodd, rfl⟩
    -- A keyword is its word with the colon.
    have hcut : ∀ k ∈ keywords, IsWord k.dropLast ∧ k.dropLast ++ [':'] = k := by
      intro k hk
      rcases hkeywords k hk with rfl | rfl
      · exact ⟨.inr rfl, rfl⟩
      · exact ⟨.inl rfl, rfl⟩
    have hjoin : (keywords.map List.dropLast).map (· ++ [':']) = keywords := by
      rw [List.map_map]
      exact (List.map_congr_left fun k hk => (hcut k hk).2).trans (List.map_id keywords)
    refine ⟨keywords.map List.dropLast, rest, fun p hp => ?_, hrest, ?_, ?_⟩
    · obtain ⟨k, hk, rfl⟩ := List.mem_map.1 hp
      exact (hcut k hk).1
    · exact hodd.imp_left fun h => List.mem_map.2 ⟨[':'], h, rfl⟩
    · rw [spell, List.map_cons, hjoin, List.flatten_cons]
      rfl
  · rintro ⟨words, rest, hwords, hrest, hodd, rfl⟩
    refine ⟨words.map (· ++ [':']), rest, fun k hk => ?_, hrest, ?_, ?_⟩
    · obtain ⟨p, hp, rfl⟩ := List.mem_map.1 hk
      rcases hwords p hp with rfl | rfl
      · exact .inr rfl
      · exact .inl rfl
    · exact hodd.imp_left fun h => List.mem_map.2 ⟨[], h, rfl⟩
    · rw [spell, List.map_cons, List.flatten_cons]
      rfl

/-- Names that start with `value:` and have nothing but words between colons are of one of the two
    kinds. -/
theorem regular_or_irregular_spell (hwords : ∀ p ∈ words, IsWord p) (hrest : IsWord rest) :
    Regular (spell ("value".toList :: words) rest) ∨
      Irregular (spell ("value".toList :: words) rest) := by
  by_cases hodd : [] ∈ words ∨ rest = "value".toList
  · exact .inr (irregular_iff.2 ⟨words, rest, hwords, hrest, hodd, rfl⟩)
  · obtain ⟨hempty, hvalue⟩ := not_or.1 hodd
    have hall : words = List.replicate words.length "value".toList :=
      List.eq_replicate_iff.2 ⟨rfl, fun p hp => (hwords p hp).resolve_left fun h => hempty (h ▸ hp)⟩
    obtain rfl : rest = [] := hrest.resolve_right hvalue
    refine .inl (regular_iff.2 (.inr ⟨words.length, ?_⟩))
    rw [List.replicate_succ, ← hall]

/-- The pieces of a name tell the two kinds apart. -/
theorem Regular.not_irregular (h : Regular name) : ¬Irregular name := by
  intro h'
  obtain ⟨words, rest, hwords, hrest, hodd, hname⟩ := irregular_iff.1 h'
  have hpieces := pieces_spell (List.forall_mem_cons.2 ⟨isWord_value, hwords⟩) hrest
  rw [← hname] at hpieces
  -- The words of a name are unique, so compare those of the two forms.
  rcases regular_iff.1 h with rfl | ⟨n, rfl⟩
  · have hone : Text.pieces ':' "value".toList = ["value".toList] := by decide
    rw [hone] at hpieces
    exact absurd (List.cons.inj hpieces).2 (by simp)
  · rw [pieces_spell (fun p hp => .inr (List.eq_of_mem_replicate hp)) (.inl rfl)] at hpieces
    obtain ⟨hreplicate, hrest⟩ := List.append_inj' hpieces rfl
    rcases hodd with hempty | rfl
    · have habsurd : [] ∈ List.replicate (n + 1) "value".toList :=
        hreplicate ▸ List.mem_cons_of_mem _ hempty
      cases List.eq_of_mem_replicate habsurd
    · cases hrest

end BlockCall

namespace ClassTable

open BlockCall

variable {t : ClassTable} {s : Selector} {name : String}

/-- A selector that was found under a name has this name. -/
theorem selectorName_of_selector? (h : t.selector? name = some s) : t.selectorName s = name := by
  obtain ⟨i, hi, rfl⟩ := Option.map_eq_some_iff.1 h
  obtain ⟨hlt, heq, -⟩ := List.findIdx?_eq_some_iff_getElem.1 hi
  rw [selectorName, List.getElem?_eq_getElem hlt]
  exact of_decide_eq_true heq

/-- The test accepts names that start with the word `value` and have no word but this and the empty
    one. -/
theorem isBlockInvocation_iff : t.isBlockInvocation s ↔ (t.selectorName s).toList = "value".toList ∨
    ∃ words rest, (∀ p ∈ words, IsWord p) ∧ IsWord rest ∧
      (t.selectorName s).toList = spell ("value".toList :: words) rest := by
  rw [isBlockInvocation]
  generalize (t.selectorName s).toList = name
  simp only [Bool.or_eq_true, Bool.and_eq_true, decide_eq_true_eq, List.all_eq_true,
    List.isPrefixOf_iff_prefix]
  refine or_congr_right ⟨?_, ?_⟩
  · rintro ⟨hstart, hall⟩
    obtain ⟨words, rest, hpieces, rfl⟩ := exists_spell name
    rw [hpieces] at hall
    have hrest : IsWord rest := hall rest (by simp)
    rcases words with _ | ⟨p, words⟩
    · -- Without a colon the name is a word, and too short.
      exfalso
      rcases hrest with rfl | rfl <;> revert hstart <;> decide
    · rcases (hall p (by simp) : IsWord p) with rfl | rfl
      · cases (List.cons_prefix_cons.1 hstart).1
      · exact ⟨words, rest, fun p hp => hall p (by simp [hp]), hrest, rfl⟩
  · rintro ⟨words, rest, hwords, hrest, rfl⟩
    have hall : ∀ p ∈ "value".toList :: words, IsWord p :=
      List.forall_mem_cons.2 ⟨isWord_value, hwords⟩
    refine ⟨?_, fun p hp => ?_⟩
    · rw [spell, List.map_cons, List.flatten_cons, List.append_assoc]
      exact List.prefix_append ..
    · rw [pieces_spell hall hrest] at hp
      rcases List.mem_append.1 hp with hp | hp
      · exact hall p hp
      · exact List.mem_singleton.1 hp ▸ hrest

/-- The selector of a name passes for a call of a block exactly if the name is of one of the two
    kinds, and no name is of both. -/
theorem isBlockInvocation_iff_regular_or_irregular (h : t.selector? name = some s) :
    (t.isBlockInvocation s ↔ Regular name.toList ∨ Irregular name.toList) ∧
      ¬(Regular name.toList ∧ Irregular name.toList) := by
  refine ⟨?_, fun ⟨hregular, hirregular⟩ => hregular.not_irregular hirregular⟩
  rw [isBlockInvocation_iff, selectorName_of_selector? h]
  constructor
  · rintro (hvalue | ⟨words, rest, hwords, hrest, hname⟩)
    · exact .inl (.inl hvalue)
    · rw [hname]
      exact regular_or_irregular_spell hwords hrest
  · rintro (hregular | hirregular)
    · refine (regular_iff.1 hregular).imp_right ?_
      rintro ⟨n, hname⟩
      exact ⟨List.replicate n "value".toList, [], fun p hp => .inr (List.eq_of_mem_replicate hp),
        .inl rfl, hname⟩
    · obtain ⟨words, rest, hwords, hrest, -, hname⟩ := irregular_iff.1 hirregular
      exact .inr ⟨words, rest, hwords, hrest, hname⟩

/-- A table with the name of a call, and with two names that lack a colon or a keyword. -/
def callNames : ClassTable :=
  (((initial.intern "value:value:").1.intern "value:value").1.intern "value::").1

/-- A keyword without colon, and a colon without keyword. -/
theorem irregular_callNames : Irregular "value:value".toList ∧ Irregular "value::".toList :=
  ⟨⟨[], "value".toList, by decide, by decide, by decide, by decide⟩,
    ⟨[[':']], [], by decide, by decide, by decide, by decide⟩⟩

/-- The test accepts a regular name and two irregular ones. -/
theorem isBlockInvocation_callNames : callNames.selector? "value:value:" = some ⟨0⟩ ∧
    callNames.selector? "value:value" = some ⟨1⟩ ∧ callNames.selector? "value::" = some ⟨2⟩ ∧
    callNames.isBlockInvocation ⟨0⟩ ∧ callNames.isBlockInvocation ⟨1⟩ ∧
      callNames.isBlockInvocation ⟨2⟩ ∧
    ¬Regular "value:value".toList := by
  have h₀ : callNames.selector? "value:value:" = some ⟨0⟩ := by decide
  have h₁ : callNames.selector? "value:value" = some ⟨1⟩ := by decide
  have h₂ : callNames.selector? "value::" = some ⟨2⟩ := by decide
  obtain ⟨hlastColon, hkeyword⟩ := irregular_callNames
  obtain ⟨hcalls, hdisjoint⟩ := isBlockInvocation_iff_regular_or_irregular h₁
  exact ⟨h₀, h₁, h₂, (isBlockInvocation_iff_regular_or_irregular h₀).1.2
    (.inl (.inr ⟨1, by decide⟩)),
    hcalls.2 (.inr hlastColon), (isBlockInvocation_iff_regular_or_irregular h₂).1.2 (.inr hkeyword),
    fun hregular => hdisjoint ⟨hregular, hlastColon⟩⟩

/-- Names of both sorts pass although they are not those of calls. -/
theorem isBlockInvocation_of_not_regular :
    (∃ s, callNames.selector? "value:value" = some s ∧ callNames.isBlockInvocation s ∧
      ¬Regular "value:value".toList) ∧
    ∃ s, callNames.selector? "value::" = some s ∧ callNames.isBlockInvocation s ∧
      ¬Regular "value::".toList := by
  obtain ⟨hlastColon, hkeyword⟩ := irregular_callNames
  exact ⟨⟨⟨1⟩, by decide, by decide, fun h => h.not_irregular hlastColon⟩,
    ⟨⟨2⟩, by decide, by decide, fun h => h.not_irregular hkeyword⟩⟩

end ClassTable

end Warmup
