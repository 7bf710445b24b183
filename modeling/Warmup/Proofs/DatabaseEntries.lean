import Mathlib.Data.Prod.Lex
import Mathlib.Data.String.Basic
import Mathlib.Order.WithBot
import Warmup.Database
import Warmup.Proofs.Basic
import Warmup.Proofs.BinaryFields

/-!
# The entries of a database

The entries of a database are in the order of their names, and no two have the
same names (`Database.InOrder`). Names are ordered like pairs, first by the outer
key and then by the inner one, of which a missing one comes first; `Entry.rank`
says so with the orders of the library.

* `inOrder_insert`: an entry that is inserted gets the place of its names;
* `ofEntries_of_inOrder`: entries in order make the database that lists them;
* `wellFormed_ofEntries`: what fits the machine's words makes a database.
-/

namespace Warmup

namespace Database

/-- A named key as a pair of names. -/
def keyRank (k : NamedKey) : String ×ₗ String := toLex (k.className, k.selector)

/-- An inner key, of which a missing one comes first. -/
def innerRank : Option NamedKey → WithBot (String ×ₗ String)
  | none => ⊥
  | some k => (keyRank k : WithBot (String ×ₗ String))

/-- The names of an entry. -/
def Entry.rank (e : Entry) : (String ×ₗ String) ×ₗ WithBot (String ×ₗ String) :=
  toLex (keyRank e.outer, innerRank e.inner)

theorem keyRank_inj {a b : NamedKey} : keyRank a = keyRank b ↔ a = b := by
  rw [keyRank, keyRank, toLex_inj, Prod.mk.injEq, NamedKey.mk.injEq]

/-- Keys are ordered like the pairs of their names. -/
theorem before_iff_keyRank {a b : NamedKey} : a.before b ↔ keyRank a < keyRank b := by
  rw [keyRank, keyRank, Prod.Lex.toLex_lt_toLex]
  simp [NamedKey.before]

theorem innerRank_inj {a b : Option NamedKey} : innerRank a = innerRank b ↔ a = b := by
  rcases a with _ | a <;> rcases b with _ | b <;> simp [innerRank, keyRank_inj]

/-- A missing inner key comes before all others. -/
theorem innerBefore_iff {a b : Option NamedKey} : innerBefore a b ↔ innerRank a < innerRank b := by
  rcases a with _ | a <;> rcases b with _ | b <;> simp [innerBefore, innerRank, before_iff_keyRank]

variable {a b d e : Entry} {l es : List Entry} {db : Database}

/-- Entries are ordered by their names. -/
theorem before_iff_rank : a.before b ↔ a.rank < b.rank := by
  rw [Entry.rank, Entry.rank, Prod.Lex.toLex_lt_toLex, ← before_iff_keyRank,
    ← innerBefore_iff, keyRank_inj]
  simp [Entry.before]

/-- Entries have the same rank if they have the same names. -/
theorem sameNames_iff_rank : a.sameNames b ↔ a.rank = b.rank := by
  rw [Entry.rank, Entry.rank, toLex_inj, Prod.mk.injEq, keyRank_inj, innerRank_inj]
  simp [Entry.sameNames]

/-! ## Order -/

/-- Entries in the order of their names, which are all different. -/
def InOrder (l : List Entry) : Prop := l.Pairwise fun a b => a.before b

instance (l : List Entry) : Decidable (InOrder l) := inferInstanceAs (Decidable (List.Pairwise ..))

/-- An insertion adds no other entry, and may take the place of one. -/
theorem mem_insertEntry (h : d ∈ insertEntry e l) : d = e ∨ d ∈ l := by
  induction l with
  | nil => exact .inl (List.mem_singleton.1 h)
  | cons x l ih =>
    rw [insertEntry] at h
    split at h
    · rcases List.mem_cons.1 h with rfl | h
      · exact .inl rfl
      · exact .inr (List.mem_cons_of_mem x h)
    · split at h
      · exact List.mem_cons.1 h
      · rcases List.mem_cons.1 h with rfl | h
        · exact .inr List.mem_cons_self
        · exact (ih h).imp_right (List.mem_cons_of_mem x)

/-- An entry is what is found under its names, and changes nothing under others. -/
theorem get?_insert (db : Database) (e : Entry) (outer : NamedKey) (inner : Option NamedKey) :
    (db.insert e).get? outer inner = if e.outer = outer ∧ e.inner = inner then some e.root
      else db.get? outer inner := by
  obtain ⟨l⟩ := db
  rw [get?, insert, get?]
  induction l with
  | nil =>
    rw [insertEntry, List.find?_cons]
    by_cases he : e.outer = outer ∧ e.inner = inner
    · simp [he]
    · simp [he]
  | cons d l ih =>
    rw [insertEntry]
    split
    · -- The new entry takes the place of one with the same names.
      next hsame =>
      obtain ⟨houter, hinner⟩ : e.outer = d.outer ∧ e.inner = d.inner := by
        simpa [Entry.sameNames] using hsame
      by_cases he : e.outer = outer ∧ e.inner = inner
      · simp [he]
      · rw [List.find?_cons_of_neg (by simpa using he), if_neg he,
          List.find?_cons_of_neg (by simpa [← houter, ← hinner] using he)]
    · next hsame =>
      split
      · by_cases he : e.outer = outer ∧ e.inner = inner
        · simp [he]
        · rw [List.find?_cons_of_neg (by simpa using he), if_neg he]
      · by_cases hd : d.outer = outer ∧ d.inner = inner
        · have he : ¬(e.outer = outer ∧ e.inner = inner) := by
            rintro ⟨rfl, rfl⟩
            exact hsame (by simp [Entry.sameNames, hd])
          simp [hd, he]
        · rw [List.find?_cons_of_neg (by simpa using hd),
            List.find?_cons_of_neg (by simpa using hd), ih]

theorem length_insertEntry_le : (insertEntry e l).length ≤ l.length + 1 := by
  induction l with
  | nil => rfl
  | cons x l ih =>
    rw [insertEntry]
    split
    · exact Nat.le_succ _
    · split
      · rfl
      · exact Nat.succ_le_succ ih

/-- An entry gets the place of its names. -/
theorem InOrder.insertEntry (h : InOrder l) (e : Entry) : InOrder (insertEntry e l) := by
  induction l with
  | nil => exact List.pairwise_singleton _ e
  | cons x l ih =>
    obtain ⟨hx, hl⟩ := List.pairwise_cons.1 h
    simp only [before_iff_rank] at hx
    rw [Database.insertEntry]
    split
    · next hsame =>
      refine List.pairwise_cons.2 ⟨fun y hy => before_iff_rank.2 ?_, hl⟩
      rw [sameNames_iff_rank.1 hsame]
      exact hx y hy
    · next hne =>
      split
      · next hbefore =>
        refine List.pairwise_cons.2 ⟨fun y hy => before_iff_rank.2 ?_, h⟩
        have hex : e.rank < x.rank := before_iff_rank.1 hbefore
        rcases List.mem_cons.1 hy with rfl | hy
        · exact hex
        · exact hex.trans (hx y hy)
      · next hnot =>
        refine List.pairwise_cons.2 ⟨fun y hy => before_iff_rank.2 ?_, ih hl⟩
        rcases mem_insertEntry hy with rfl | hy
        · -- The names are different and not before those of the first entry.
          rw [sameNames_iff_rank] at hne
          rw [before_iff_rank] at hnot
          exact lt_of_le_of_ne (not_lt.1 hnot) (Ne.symm hne)
        · exact hx y hy

/-- An entry that comes after all others goes to the end. -/
theorem insertEntry_of_last (h : ∀ d ∈ l, d.before e) : insertEntry e l = l ++ [e] := by
  induction l with
  | nil => rfl
  | cons x l ih =>
    have hx : x.rank < e.rank := before_iff_rank.1 (h x List.mem_cons_self)
    have hne : ¬e.sameNames x := fun hsame => hx.ne' (sameNames_iff_rank.1 hsame)
    have hnot : ¬e.before x := fun hbefore => hx.not_gt (before_iff_rank.1 hbefore)
    rw [insertEntry, if_neg hne, if_neg hnot, ih fun d hd => h d (List.mem_cons_of_mem x hd),
      List.cons_append]

/-- Entries that are inserted one after another are in order. -/
theorem inOrder_foldl_insert (h : InOrder db.entries) (es : List Entry) :
    InOrder (es.foldl insert db).entries := by
  induction es generalizing db with
  | nil => exact h
  | cons e es ih => exact ih (h.insertEntry e)

/-- A database of entries in any order is in order. -/
theorem inOrder_ofEntries (es : List Entry) : InOrder (ofEntries es).entries :=
  inOrder_foldl_insert List.Pairwise.nil es

/-- Entries in order are the database of themselves. -/
theorem ofEntries_of_inOrder (h : InOrder es) : ofEntries es = ⟨es⟩ := by
  have hfold : ∀ (l l' : List Entry), InOrder (l ++ l') → l'.foldl insert ⟨l⟩ = ⟨l ++ l'⟩ := by
    intro l l' hl
    induction l' generalizing l with
    | nil => rw [List.append_nil, List.foldl_nil]
    | cons e l' ih =>
      have hlast : ∀ d ∈ l, d.before e :=
        fun d hd => (List.pairwise_append.1 hl).2.2 d hd e List.mem_cons_self
      rw [List.foldl_cons, insert, insertEntry_of_last hlast]
      rw [List.append_cons] at hl
      rw [ih (l ++ [e]) hl, ← List.append_cons]
  exact hfold [] es h

/-- A database has no entries but those it was made of. -/
theorem mem_ofEntries (h : e ∈ (ofEntries es).entries) : e ∈ es := by
  -- Over any list, an entry was there at the start or is one of those inserted.
  have hfold : ∀ (db : Database) (l : List Entry), e ∈ (l.foldl insert db).entries →
      e ∈ db.entries ∨ e ∈ l := by
    intro db l he
    induction l generalizing db with
    | nil => exact .inl he
    | cons x l ih =>
      rcases ih (db.insert x) he with he | he
      · rcases mem_insertEntry he with rfl | he
        · exact .inr List.mem_cons_self
        · exact .inl he
      · exact .inr (List.mem_cons_of_mem x he)
  exact (hfold {} es h).resolve_left List.not_mem_nil

/-- Entries with the same names count as one. -/
theorem length_ofEntries_le (es : List Entry) : (ofEntries es).entries.length ≤ es.length := by
  have hfold : ∀ (db : Database) (l : List Entry),
      (l.foldl insert db).entries.length ≤ db.entries.length + l.length := by
    intro db l
    induction l generalizing db with
    | nil => rfl
    | cons x l ih =>
      have hle : (db.insert x).entries.length ≤ db.entries.length + 1 := length_insertEntry_le
      have := ih (db.insert x)
      rw [List.foldl_cons, List.length_cons]
      omega
  simpa [ofEntries] using hfold {} es

/-! ## Size

Positions are machine words of 32 bits, and nothing has more parts than a machine
word of 64 bits can count. -/

/-- The names of a key fit. -/
def KeyFits (k : NamedKey) : Prop := Binary.TextFits k.className ∧ Binary.TextFits k.selector

/-- Positions are words. -/
def BcisFit (bcis : List Bci) : Prop := bcis.length < UInt64.size ∧ ∀ b ∈ bcis, b < UInt32.size

mutual

/-- All parts of a node fit. -/
def Node.Fits (n : Node) : Prop :=
  match n with
  | .mk cs u i c => (cs.length < UInt64.size ∧ CalleesFit cs) ∧ BcisFit u ∧ BcisFit i ∧ BcisFit c
termination_by structural n

/-- All parts of some callees fit. -/
def CalleesFit (cs : List (Bci × NamedKey × Node)) : Prop :=
  match cs with
  | [] => True
  | (bci, k, n) :: cs => (bci < UInt32.size ∧ KeyFits k ∧ n.Fits) ∧ CalleesFit cs
termination_by structural cs

end

instance (k : NamedKey) : Decidable (KeyFits k) := inferInstanceAs (Decidable (_ ∧ _))

instance (bcis : List Bci) : Decidable (BcisFit bcis) := inferInstanceAs (Decidable (_ ∧ _))

mutual

instance Node.decidableFits (n : Node) : Decidable n.Fits :=
  match n with
  | .mk cs u i c =>
    have := decidableCalleesFit cs
    inferInstanceAs
      (Decidable ((cs.length < UInt64.size ∧ CalleesFit cs) ∧ BcisFit u ∧ BcisFit i ∧ BcisFit c))
termination_by structural n

instance decidableCalleesFit (cs : List (Bci × NamedKey × Node)) : Decidable (CalleesFit cs) :=
  match cs with
  | [] => inferInstanceAs (Decidable True)
  | (bci, k, n) :: cs =>
    have := n.decidableFits
    have := decidableCalleesFit cs
    inferInstanceAs (Decidable ((bci < UInt32.size ∧ KeyFits k ∧ n.Fits) ∧ CalleesFit cs))
termination_by structural cs

end

/-- All parts of a callee fit. -/
def ChildFits (c : Child) : Prop := c.1 < UInt32.size ∧ KeyFits c.2.1 ∧ c.2.2.Fits

theorem calleesFit_iff {cs : List Child} : CalleesFit cs ↔ ∀ c ∈ cs, ChildFits c := by
  induction cs with
  | nil => simp [CalleesFit]
  | cons c cs ih => rw [CalleesFit, ih, List.forall_mem_cons, ChildFits]

theorem Node.fits_mk {cs : List Child} {u i c : List Bci} : (Node.mk cs u i c).Fits ↔
    (cs.length < UInt64.size ∧ ∀ x ∈ cs, ChildFits x) ∧ BcisFit u ∧ BcisFit i ∧ BcisFit c := by
  rw [Node.Fits, calleesFit_iff]

/-- All parts of an entry fit. -/
def Entry.Fits (e : Entry) : Prop := KeyFits e.outer ∧ (∀ k ∈ e.inner, KeyFits k) ∧ e.root.Fits

instance (e : Entry) : Decidable e.Fits := inferInstanceAs (Decidable (_ ∧ _))

/-- What is true of every database: it is in order, and all its parts fit. -/
structure WellFormed (db : Database) : Prop where
  inOrder : InOrder db.entries
  length_lt : db.entries.length < UInt64.size
  fits : ∀ e ∈ db.entries, e.Fits

/-- Entries that fit make a database, whatever their order. -/
theorem wellFormed_ofEntries (hlen : es.length < UInt64.size) (hfits : ∀ e ∈ es, e.Fits) :
    (ofEntries es).WellFormed where
  inOrder := inOrder_ofEntries es
  length_lt := (length_ofEntries_le es).trans_lt hlen
  fits e he := hfits e (mem_ofEntries he)

/-- A database is made of its own entries. -/
theorem WellFormed.ofEntries_entries (h : db.WellFormed) : ofEntries db.entries = db :=
  ofEntries_of_inOrder h.inOrder

/-! ## Nesting -/

mutual

/-- How many callees deep a node goes. -/
def Node.height (n : Node) : Nat :=
  match n with
  | .mk cs _ _ _ => calleesHeight cs
termination_by structural n

/-- How many callees deep a list of callees goes. -/
def calleesHeight (cs : List (Bci × NamedKey × Node)) : Nat :=
  match cs with
  | [] => 0
  | (_, _, n) :: cs => max (n.height + 1) (calleesHeight cs)
termination_by structural cs

end

/-- The height of some callees bounds that of each. -/
theorem calleesHeight_le_iff {cs : List Child} {h : Nat} :
    calleesHeight cs ≤ h ↔ ∀ c ∈ cs, c.2.2.height < h := by
  induction cs with
  | nil => simp [calleesHeight]
  | cons c cs ih => rw [calleesHeight, max_le_iff, ih, List.forall_mem_cons, Nat.succ_le_iff]

/-- A node is one level higher than its highest callee. -/
theorem Node.height_mk_lt_succ_iff {cs : List Child} {u i c : List Bci} {h : Nat} :
    (Node.mk cs u i c).height < h + 1 ↔ ∀ x ∈ cs, x.2.2.height < h := by
  rw [Node.height, Nat.lt_succ_iff, calleesHeight_le_iff]

end Database

end Warmup
