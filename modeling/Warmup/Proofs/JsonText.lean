import Mathlib.Data.List.DropRight
import Mathlib.Data.Option.Basic
import Mathlib.Tactic.Common
import Warmup.Json.Reader
import Warmup.Json.Writer

/-!
# Reading what was written

Every JSON value is read back from its text (`Json.read_write`).

Tokens come first: the digits of a number (`number_digits`) and the literal of a
string (`string_quote`), each with whatever follows it. The grammar then follows
the writer, list by list and record by record. A number has no end of its own, so
what follows a value must not continue one (`Ends`); and the reader takes at most
two steps for each character, which is what it is allowed.
-/

namespace Warmup.Text.Decimal

theorem toNat_digit {d : Nat} (h : d < 10) : (digit d).toNat = 48 + d := by
  have hall : ∀ d < 10, (digit d).toNat = 48 + d := by decide
  exact hall d h

theorem isDigit_digit {d : Nat} (h : d < 10) : (digit d).isDigit := by
  have hall : ∀ d < 10, (digit d).isDigit := by decide
  exact hall d h

/-- A digit at the end is the lowest one. -/
theorem value_append (ds : List Char) (d : Char) :
    value (ds ++ [d]) = 10 * value ds + (d.toNat - 48) := by
  rw [value, List.foldl_append]
  rfl

/-- A number is read back from its digits. -/
theorem value_digits (n : Nat) : value (digits n) = n := by
  induction n using Nat.strongRecOn with
  | ind n ih =>
    rw [digits]
    split
    · next h =>
      simp [value, toNat_digit h]
    · rw [value_append, ih (n / 10) (by omega), toNat_digit (by omega)]
      omega

/-- A number is written with digits only. -/
theorem isDigit_of_mem_digits {n : Nat} {c : Char} (h : c ∈ digits n) : c.isDigit := by
  induction n using Nat.strongRecOn with
  | ind n ih =>
    rw [digits] at h
    split at h
    · next hn =>
      obtain rfl := List.mem_singleton.1 h
      exact isDigit_digit hn
    · rcases List.mem_append.1 h with h | h
      · exact ih (n / 10) (by omega) h
      · obtain rfl := List.mem_singleton.1 h
        exact isDigit_digit (by omega)

/-- The first digit is zero only if it is the only one. -/
theorem exists_digits_eq (n : Nat) : ∃ d ds, digits n = d :: ds ∧ (ds = [] ∨ d ≠ '0') := by
  induction n using Nat.strongRecOn with
  | ind n ih =>
    rw [digits]
    split
    · exact ⟨_, [], rfl, .inl rfl⟩
    · next hn =>
      obtain ⟨d, ds, heq, hd⟩ := ih (n / 10) (by omega)
      refine ⟨d, ds ++ [digit (n % 10)], by rw [heq, List.cons_append], .inr ?_⟩
      rintro rfl
      rcases hd with rfl | hd
      · -- A single zero would be all digits of a number that is not zero.
        have hzero := value_digits (n / 10)
        rw [heq] at hzero
        have : value ['0'] = 0 := rfl
        omega
      · exact hd rfl

end Warmup.Text.Decimal

namespace Warmup.Json

open Text

variable {cs rest : List Char} {steps level : Nat}

/-! ## Blanks -/

theorem skipBlanks_cons_of_not {c : Char} (h : ¬isBlank c) : skipBlanks (c :: cs) = c :: cs :=
  List.dropWhile_cons_of_neg h

/-- Line ends and indentation are skipped. -/
theorem skipBlanks_newline_append (level : Nat) (cs : List Char) :
    skipBlanks (newline level ++ cs) = skipBlanks cs := by
  refine List.dropWhile_append_of_pos fun c hc => ?_
  rcases List.mem_cons.1 hc with rfl | hc
  · rfl
  · obtain rfl := List.eq_of_mem_replicate hc
    rfl

theorem skipBlanks_skipBlanks (cs : List Char) : skipBlanks (skipBlanks cs) = skipBlanks cs :=
  List.dropWhile_idempotent ..

/-! ## Numbers -/

/-- A text that does not continue a number. -/
def Ends (rest : List Char) : Prop :=
  ∀ c ∈ rest.head?, c.isDigit = false ∧ c ≠ '.' ∧ c ≠ 'e' ∧ c ≠ 'E'

theorem ends_nil : Ends [] := fun _ h => absurd h (by simp)

/-- Characters that cannot continue a number. -/
theorem ends_cons {c : Char} (h : c.isDigit = false ∧ c ≠ '.' ∧ c ≠ 'e' ∧ c ≠ 'E')
    (rest : List Char) : Ends (c :: rest) := by
  intro d hd
  obtain rfl : c = d := by simpa using hd
  exact h

namespace Ends

variable (h : Ends rest)
include h

theorem takeWhile_isDigit : rest.takeWhile Char.isDigit = [] := by
  rcases rest with _ | ⟨c, rest⟩
  · rfl
  · exact List.takeWhile_cons_of_neg (by simp [(h c rfl).1])

theorem dropWhile_isDigit : rest.dropWhile Char.isDigit = rest := by
  rcases rest with _ | ⟨c, rest⟩
  · rfl
  · exact List.dropWhile_cons_of_neg (by simp [(h c rfl).1])

theorem skipFraction_eq : skipFraction rest = some rest := by
  rcases rest with _ | ⟨c, rest⟩
  · rfl
  · rw [skipFraction]
    exact fun _ heq => (h c rfl).2.1 (List.cons.inj heq).1

theorem skipExponent_eq : skipExponent rest = some rest := by
  rcases rest with _ | ⟨c, rest⟩
  · rfl
  · rw [skipExponent, if_neg (by simpa using (h c rfl).2.2)]

/-- What ends a number leaves it whole. -/
theorem endsWhole_eq : endsWhole rest = true := by
  rcases rest with _ | ⟨c, rest⟩
  · rfl
  · simpa [endsWhole, and_assoc] using (h c rfl).2

end Ends

/-- The digits of a number are taken up to what ends it. -/
theorem unsigned_digits (n : Nat) (h : Ends rest) :
    unsigned (Decimal.digits n ++ rest) = some (Decimal.digits n, true, rest) := by
  have hdigits : ∀ c ∈ Decimal.digits n, c.isDigit := fun c hc => Decimal.isDigit_of_mem_digits hc
  have htake : (Decimal.digits n ++ rest).takeWhile Char.isDigit = Decimal.digits n := by
    rw [List.takeWhile_append_of_pos hdigits, h.takeWhile_isDigit, List.append_nil]
  have hdrop : (Decimal.digits n ++ rest).dropWhile Char.isDigit = rest := by
    rw [List.dropWhile_append_of_pos hdigits, h.dropWhile_isDigit]
  obtain ⟨d, ds, heq, hd⟩ := Decimal.exists_digits_eq n
  -- There is a digit, and no leading zero unless it is the only one.
  have hguard : (!(Decimal.digits n).isEmpty &&
      ((Decimal.digits n).length = 1 || (Decimal.digits n).head? ≠ some '0')) = true := by
    rcases hd with rfl | hd
    · simp [heq]
    · simp [heq, hd]
  rw [unsigned, htake, hdrop, (Option.guard_eq_some' ()).2 hguard, h.skipFraction_eq]
  simp [h.skipExponent_eq, h.endsWhole_eq]

/-- A number is read back from its digits. -/
theorem number_digits (n : Nat) (h : Ends rest) :
    number (Decimal.digits n ++ rest) = some (.natural n, rest) := by
  rw [number]
  · simp [unsigned_digits n h, Decimal.value_digits]
  · -- A digit is not the sign.
    obtain ⟨d, ds, heq, -⟩ := Decimal.exists_digits_eq n
    intro tail hsign
    have hd : d.isDigit := Decimal.isDigit_of_mem_digits (heq ▸ List.mem_cons_self)
    rw [heq, List.cons_append, List.cons.injEq] at hsign
    rw [hsign.1] at hd
    exact absurd hd (by decide)

/-! ## Strings -/

theorem hexDigit_hexChar {d : Nat} (h : d < 16) : hexDigit (hexChar d) = some d := by
  have hall : ∀ d < 16, hexDigit (hexChar d) = some d := by decide
  exact hall d h

/-- A character is written by one letter, by its number, or as itself. -/
theorem escape_cases (c : Char) : (∃ e, e ≠ 'u' ∧ shortEscape e = some c ∧ escape c = ['\\', e]) ∨
    (c.toNat < 32 ∧
      escape c = ['\\', 'u', '0', '0', hexChar (c.toNat / 16), hexChar (c.toNat % 16)]) ∨
    (¬c.toNat < 32 ∧ c ≠ '"' ∧ c ≠ '\\' ∧ escape c = [c]) := by
  rw [escape]
  split
  · next h => exact .inl ⟨'"', by decide, by rw [h]; decide, rfl⟩
  · next hquote =>
    split
    · next h => exact .inl ⟨'\\', by decide, by rw [h]; decide, rfl⟩
    · next hslash =>
      split
      · next h => exact .inl ⟨'b', by decide, by rw [h]; decide, rfl⟩
      split
      · next h => exact .inl ⟨'f', by decide, by rw [h]; decide, rfl⟩
      split
      · next h => exact .inl ⟨'n', by decide, by rw [h]; decide, rfl⟩
      split
      · next h => exact .inl ⟨'r', by decide, by rw [h]; decide, rfl⟩
      split
      · next h => exact .inl ⟨'t', by decide, by rw [h]; decide, rfl⟩
      split
      · next h => exact .inr (.inl ⟨h, rfl⟩)
      · next h => exact .inr (.inr ⟨h, hquote, hslash, rfl⟩)

/-- A character is read back from what is written for it. -/
theorem units_escape (c : Char) {us : List TextUnit} (h : units cs = some (us, rest)) :
    units (escape c ++ cs) = some (.scalar c :: us, rest) := by
  rcases escape_cases c with ⟨e, hu, hshort, heq⟩ | ⟨hlt, heq⟩ | ⟨hge, hquote, hslash, heq⟩
  · rw [heq, List.cons_append, List.cons_append, List.nil_append, units]
    · simp [hshort, h]
    · exact fun _ _ _ _ _ heu => absurd heu hu
  · -- A control character is written by its number, in two hexadecimal digits.
    have hunit :
        hexUnit '0' '0' (hexChar (c.toNat / 16)) (hexChar (c.toNat % 16)) = some (.scalar c) := by
      have hzero : hexDigit '0' = some 0 := rfl
      have hsum : 16 * (c.toNat / 16) + c.toNat % 16 = c.toNat := Nat.div_add_mod ..
      simp [hexUnit, hzero, hexDigit_hexChar (show c.toNat / 16 < 16 by omega),
        hexDigit_hexChar (Nat.mod_lt c.toNat (by decide : 0 < 16)), hsum, Char.ofNat_toNat]
      omega
    rw [heq]
    simp [units, hunit, h]
  · rw [heq, List.cons_append, List.nil_append, units]
    · simp [hge, hslash, h]
    · exact hquote
    · exact fun _ _ _ _ _ heq' => absurd heq' hslash
    · exact fun _ _ heq' => absurd heq' hslash

/-- An escaped text is read unit by unit up to the quote. -/
theorem units_flatMap_escape (cs rest : List Char) :
    units (cs.flatMap escape ++ '"' :: rest) = some (cs.map .scalar, rest) := by
  induction cs with
  | nil => rfl
  | cons c cs ih =>
    rw [List.flatMap_cons, List.append_assoc, units_escape c ih, List.map_cons]

/-- Units that are characters of their own are the text. -/
theorem join_map_scalar (cs : List Char) : join (cs.map .scalar) = some cs := by
  induction cs with
  | nil => rfl
  | cons c cs ih => simp [join, ih]

/-- A string is read back from its literal. -/
theorem string_quote (s : String) (rest : List Char) :
    string (s.toList.flatMap escape ++ '"' :: rest) = some (some s, rest) := by
  simp [string, units_flatMap_escape, join_map_scalar]

/-! ## Values -/

/-- Blanks before a value are skipped. -/
theorem value_skipBlanks (steps : Nat) (cs : List Char) :
    value steps (skipBlanks cs) = value steps cs := by
  rcases steps with _ | steps
  · rw [value, value]
  · rw [value, value, skipBlanks_skipBlanks]

/-- Blanks before a value do not matter. -/
theorem value_newline_append (steps level : Nat) (cs : List Char) :
    value steps (newline level ++ cs) = value steps cs := by
  rw [← value_skipBlanks, skipBlanks_newline_append, value_skipBlanks]

theorem value_space_cons (steps : Nat) (cs : List Char) :
    value steps (' ' :: cs) = value steps cs := by
  rw [← value_skipBlanks, ← value_skipBlanks steps cs]
  rfl

theorem items_newline_append (steps level : Nat) (cs : List Char) :
    items steps (newline level ++ cs) = items steps cs := by
  rcases steps with _ | steps
  · rw [items, items]
  · rw [items, items, value_newline_append]

theorem fields_newline_append (steps level : Nat) (cs : List Char) :
    fields steps (newline level ++ cs) = fields steps cs := by
  rcases steps with _ | steps
  · rw [fields, fields]
  · rw [fields, fields, skipBlanks_newline_append]

/-- A value starts with a character that is neither a blank nor a closing bracket. -/
theorem exists_pretty_eq (level : Nat) (v : Value) :
    ∃ c cs, pretty level v = c :: cs ∧ isBlank c = false ∧ c ≠ ']' := by
  rcases v with _ | (_ | _) | n | s | (_ | ⟨v, vs⟩) | (_ | ⟨⟨k, v⟩, fs⟩) | _
  case natural =>
    obtain ⟨d, ds, heq, -⟩ := Decimal.exists_digits_eq n
    have hd : d.isDigit := Decimal.isDigit_of_mem_digits (heq ▸ List.mem_cons_self)
    refine ⟨d, ds, by rw [pretty, heq], ?_, ?_⟩
    · by_contra hblank
      rw [Bool.not_eq_false] at hblank
      simp only [isBlank, Bool.or_eq_true, decide_eq_true_iff] at hblank
      rcases hblank with ((rfl | rfl) | rfl) | rfl <;> exact absurd hd (by decide)
    · rintro rfl
      exact absurd hd (by decide)
  all_goals exact ⟨_, _, rfl, by decide, by decide⟩

/-- A value does not start with a blank. -/
theorem skipBlanks_pretty_append (level : Nat) (v : Value) (cs : List Char) :
    skipBlanks (pretty level v ++ cs) = pretty level v ++ cs := by
  obtain ⟨c, cs', heq, hblank, -⟩ := exists_pretty_eq level v
  rw [heq, List.cons_append]
  exact skipBlanks_cons_of_not (by simp [hblank])

/-- What starts with a digit is read as a number. -/
theorem value_of_isDigit {d : Char} (hd : d.isDigit) (hblank : isBlank d = false) (steps : Nat)
    (cs : List Char) :
    value (steps + 1) (d :: cs) = number (d :: cs) := by
  rw [value, skipBlanks_cons_of_not (by simp [hblank])]
  split
  case h_7 => rfl
  all_goals
    next heq =>
    rw [(List.cons.inj heq).1] at hd
    exact absurd hd (by decide)

/-- A list that does not end at once is read by its items. -/
theorem value_array {c : Char} {rest' : List Char} {vs : List Value}
    (hcs : skipBlanks cs = c :: rest) (hc : c ≠ ']') (h : items steps (c :: rest) = some
    (vs, rest')) : value (steps + 1) ('[' :: cs) = some (.array vs, rest') := by
  rw [value, skipBlanks_cons_of_not (by decide)]
  simp only [hcs]
  split
  · next heq => exact absurd (List.cons.inj heq).1 hc
  · rw [h]
    rfl

/-- A record that does not end at once is read by its fields. -/
theorem value_object {c : Char} {rest' : List Char} {fs : List (Option String × Value)}
    (hcs : skipBlanks cs = c :: rest) (hc : c ≠ '\x7d')
    (h : fields steps (c :: rest) = some (fs, rest')) :
    value (steps + 1) ('\x7b' :: cs) = some (.object fs, rest') := by
  rw [value, skipBlanks_cons_of_not (by decide)]
  simp only [hcs]
  split
  · next heq => exact absurd (List.cons.inj heq).1 hc
  · rw [h]
    rfl

theorem items_last {v : Value} {rest' : List Char} (h : value steps cs = some (v, rest))
    (hrest : skipBlanks rest = ']' :: rest') : items (steps + 1) cs = some ([v], rest') := by
  rw [items, h]
  simp [hrest]

theorem items_more {v : Value} {vs : List Value} {rest' rest'' : List Char}
    (h : value steps cs = some (v, rest)) (hrest : skipBlanks rest = ',' :: rest')
    (hvs : items steps rest' = some (vs, rest'')) :
    items (steps + 1) cs = some (v :: vs, rest'') := by
  rw [items, h]
  simp [hrest, hvs]

/-- The name of a field is read back from its literal. -/
theorem exists_quoteName_eq (k : Option String) :
    ∃ body, quoteName k = '"' :: body ∧ ∀ rest, string (body ++ rest) = some (k, rest) := by
  rcases k with _ | s
  · exact ⟨_, rfl, fun rest => rfl⟩
  · refine ⟨s.toList.flatMap escape ++ ['"'], rfl, fun rest => ?_⟩
    rw [List.append_assoc]
    exact string_quote s rest

theorem fields_last {k : Option String} {v : Value} {rest' : List Char}
    (h : value steps cs = some (v, rest)) (hrest : skipBlanks rest = '\x7d' :: rest') :
    fields (steps + 1) (quoteName k ++ ':' :: ' ' :: cs) = some ([(k, v)], rest') := by
  obtain ⟨body, hname, hbody⟩ := exists_quoteName_eq k
  rw [hname, List.cons_append, fields, skipBlanks_cons_of_not (by decide)]
  simp [hbody, skipBlanks_cons_of_not (show ¬isBlank ':' by decide), value_space_cons, h, hrest]

theorem fields_more {k : Option String} {v : Value} {fs : List (Option String × Value)}
    {rest' rest'' : List Char} (h : value steps cs = some (v, rest))
    (hrest : skipBlanks rest = ',' :: rest') (hfs : fields steps rest' = some (fs, rest'')) :
    fields (steps + 1) (quoteName k ++ ':' :: ' ' :: cs) = some ((k, v) :: fs, rest'') := by
  obtain ⟨body, hname, hbody⟩ := exists_quoteName_eq k
  rw [hname, List.cons_append, fields, skipBlanks_cons_of_not (by decide)]
  simp [hbody, skipBlanks_cons_of_not (show ¬isBlank ':' by decide),
    value_space_cons, h, hrest, hfs]

/-- A value is read back from its text, in the steps that its length allows. -/
def ReadsBack (level : Nat) (v : Value) : Prop := ∀ (steps : Nat) (rest : List Char),
  2 * (pretty level v).length ≤ steps → Ends rest →
    value steps (pretty level v ++ rest) = some (v, rest)

/-- A line end cannot continue a number. -/
theorem ends_newline_append (level : Nat) (rest : List Char) : Ends (newline level ++ rest) :=
  ends_cons (by decide) _

theorem skipBlanks_newline_cons {c : Char} (h : isBlank c = false) (level : Nat)
    (rest : List Char) :
    skipBlanks (newline level ++ c :: rest) = c :: rest := by
  rw [skipBlanks_newline_append, skipBlanks_cons_of_not (by simp [h])]

mutual

/-- Every value is read back. -/
theorem readsBack (v : Value) (level : Nat) : ReadsBack level v := by
  intro steps rest hsteps hrest
  obtain ⟨n, rfl⟩ : ∃ n, steps = n + 1 := by
    obtain ⟨c, cs, heq, -⟩ := exists_pretty_eq level v
    rw [heq, List.length_cons] at hsteps
    exact ⟨steps - 1, by omega⟩
  rcases v with _ | (_ | _) | m | s | vs | fs | _
  · rfl
  · rfl
  · rfl
  · obtain ⟨d, ds, heq, -⟩ := Decimal.exists_digits_eq m
    obtain ⟨c, cs, hpretty, hblank, -⟩ := exists_pretty_eq level (.natural m)
    rw [pretty, heq] at hpretty
    obtain ⟨rfl, rfl⟩ := List.cons.inj hpretty
    have hd : d.isDigit := Decimal.isDigit_of_mem_digits (heq ▸ List.mem_cons_self)
    rw [pretty, ← number_digits m hrest, heq, List.cons_append, value_of_isDigit hd hblank]
  · have hquote :
        pretty level (.string s) ++ rest = '"' :: (s.toList.flatMap escape ++ '"' :: rest) := by
      simp [pretty, quote]
    rw [hquote, value, skipBlanks_cons_of_not (by decide)]
    simp [string_quote]
  · rcases vs with _ | ⟨v, vs⟩
    · rfl
    · have hv := readsBack v (level + 1)
      have htext : pretty level (.array (v :: vs)) ++ rest = '[' ::
          (newline (level + 1) ++ (pretty (level + 1) v ++
          (prettyItems (level + 1) vs ++ (newline level ++ ']' :: rest)))) := by
        simp [pretty]
      -- There are two steps for each character, so enough of them are left for the items.
      have hlen := congrArg List.length htext
      simp only [List.length_append, List.length_cons] at hlen
      obtain ⟨c, cs, heq, hblank, hc⟩ := exists_pretty_eq (level + 1) v
      have hitems := items_pretty vs level rest hv (n := n) (by omega)
      rw [htext]
      rw [heq, List.cons_append] at hitems
      refine value_array ?_ hc hitems
      rw [skipBlanks_newline_append, skipBlanks_pretty_append, heq, List.cons_append]
  · rcases fs with _ | ⟨⟨k, v⟩, fs⟩
    · rfl
    · have hv := readsBack v (level + 1)
      have htext : pretty level (.object ((k, v) :: fs)) ++ rest = '\x7b' ::
          (newline (level + 1) ++ (quoteName k ++ ':' :: ' ' :: (pretty (level + 1) v ++
            (prettyFields (level + 1) fs ++ (newline level ++ '\x7d' :: rest))))) := by
        simp [pretty]
      have hlen := congrArg List.length htext
      simp only [List.length_append, List.length_cons] at hlen
      obtain ⟨body, hname, -⟩ := exists_quoteName_eq k
      have hfields := fields_pretty fs k level rest hv (n := n) (by omega)
      rw [htext]
      rw [hname, List.cons_append] at hfields
      refine value_object ?_ (by decide) hfields
      rw [skipBlanks_newline_append, hname, List.cons_append, skipBlanks_cons_of_not (by decide)]
  · have hzero : Decimal.digits 0 = ['0'] := by
      rw [Decimal.digits]
      rfl
    have hunsigned := unsigned_digits 0 hrest
    rw [hzero, List.singleton_append] at hunsigned
    rw [pretty, List.cons_append, List.singleton_append, value, skipBlanks_cons_of_not (by decide)]
    simp [number, hunsigned]
termination_by structural v

/-- The items of a list are read back, the first one and the others after it. -/
theorem items_pretty (vs : List Value) {v : Value} {level n : Nat} (level' : Nat) (rest : List Char)
    (hv : ReadsBack level v)
    (hsteps : 2 * ((pretty level v).length + (prettyItems level vs).length) + 1 ≤ n) :
    items n (pretty level v ++ (prettyItems level vs ++ (newline level' ++ ']' :: rest))) =
      some (v :: vs, rest) := by
  obtain ⟨n, rfl⟩ : ∃ k, n = k + 1 := ⟨n - 1, by omega⟩
  rcases vs with _ | ⟨w, vs⟩
  · have hread := hv n (newline level' ++ ']' :: rest) (by omega) (ends_newline_append level' _)
    exact items_last hread (skipBlanks_newline_cons (by decide) level' rest)
  · -- Another item follows: the first one ends at the comma.
    have hw := readsBack w level
    have htext : prettyItems level (w :: vs) ++ (newline level' ++ ']' :: rest) =
        ',' :: (newline level ++
        (pretty level w ++ (prettyItems level vs ++ (newline level' ++ ']' :: rest)))) := by
      simp [prettyItems]
    have hlen := congrArg List.length htext
    simp only [List.length_append, List.length_cons] at hlen
    rw [htext]
    refine items_more (hv n _ (by omega) (ends_cons (by decide) _))
      (skipBlanks_cons_of_not (by decide)) ?_
    rw [items_newline_append]
    exact items_pretty vs level' rest hw (by omega)
termination_by structural vs

/-- The fields of a record are read back, the first one and the others after it. -/
theorem fields_pretty (fs : List (Option String × Value)) (k : Option String) {v : Value}
    {level n : Nat} (level' : Nat) (rest : List Char) (hv : ReadsBack level v)
    (hsteps : 2 * ((pretty level v).length + (prettyFields level fs).length) + 1 ≤ n) :
    fields n (quoteName k ++ ':' :: ' ' ::
      (pretty level v ++ (prettyFields level fs ++ (newline level' ++ '\x7d' :: rest)))) =
      some ((k, v) :: fs, rest) := by
  obtain ⟨n, rfl⟩ : ∃ m, n = m + 1 := ⟨n - 1, by omega⟩
  rcases fs with _ | ⟨⟨k', w⟩, fs⟩
  · have hread := hv n (newline level' ++ '\x7d' :: rest) (by omega) (ends_newline_append level' _)
    exact fields_last hread (skipBlanks_newline_cons (by decide) level' rest)
  · -- Another field follows: the value of the first one ends at the comma.
    have hw := readsBack w level
    have htext : prettyFields level ((k', w) :: fs) ++ (newline level' ++ '\x7d' :: rest) =
        ',' :: (newline level ++
        (quoteName k' ++ ':' :: ' ' ::
          (pretty level w ++ (prettyFields level fs ++ (newline level' ++ '\x7d' :: rest))))) := by
      simp [prettyFields]
    have hlen := congrArg List.length htext
    simp only [List.length_append, List.length_cons] at hlen
    rw [htext]
    refine fields_more (hv n _ (by omega) (ends_cons (by decide) _))
      (skipBlanks_cons_of_not (by decide)) ?_
    rw [fields_newline_append]
    exact fields_pretty fs k' level' rest hw (by omega)
termination_by structural fs

end

/-- Every value is read back from its text. -/
theorem read_write (v : Value) : read (write v) = some v := by
  have hread := readsBack v 0 (2 * (pretty 0 v).length + 2) [] (Nat.le_add_right _ 2) ends_nil
  rw [List.append_nil] at hread
  rw [read, write, String.toList_ofList, readChars, hread]
  rfl

end Warmup.Json
