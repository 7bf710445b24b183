import Warmup.Database.File
import Warmup.Proofs.DatabaseEntries

/-!
# The binary form of a database

Keys, nodes and entries are coded (`Binary.Codes`). That nodes nest is bounded only
by the number of bytes, since every node takes some, so the bound with which a file
is read never counts: the bytes that can be read are those that start with the code
of some entries (`ofBytes_eq_ok_iff`).

`bytes_selfDelimiting` follows: a database is read back, also with bytes after it and
never from a part of its own, and writing it again puts its entries in order.
-/

namespace Warmup.Database

open Binary

variable {bs : Bytes} {db : Database}

/-! ## Codes -/

/-- A key is coded if its texts are not too long. -/
theorem codes_key : Codes KeyFits keyToBytes readKey := by
  rintro bs ⟨c, s⟩ rest
  simp only [readKey, bind, Option.bind_eq_some_iff, Prod.exists, codes_text _, pure,
    Option.some.injEq, Prod.mk.injEq, NamedKey.mk.injEq, keyToBytes, KeyFits]
  constructor
  · rintro ⟨_, _, ⟨hc, rfl⟩, _, _, ⟨hs, rfl⟩, ⟨rfl, rfl⟩, rfl⟩
    exact ⟨⟨hc, hs⟩, (List.append_assoc ..).symm⟩
  · rintro ⟨⟨hc, hs⟩, rfl⟩
    exact ⟨_, _, ⟨hc, List.append_assoc ..⟩, _, _, ⟨hs, rfl⟩, ⟨rfl, rfl⟩, rfl⟩

theorem codes_bcis : Codes BcisFit bcisToBytes readBcis := (codes_word 4).list

/-- The bytes of a callee. -/
def childToBytes (c : Child) : Bytes := word 4 c.1 ++ keyToBytes c.2.1 ++ nodeToBytes c.2.2

theorem childrenToBytes_eq (cs : List Child) : childrenToBytes cs = cs.flatMap childToBytes := by
  induction cs with
  | nil => rw [childrenToBytes, List.flatMap_nil]
  | cons c cs ih => rw [childrenToBytes, ih, List.flatMap_cons, childToBytes]

theorem nodeToBytes_mk (cs : List Child) (u i c : List Bci) : nodeToBytes (.mk cs u i c) =
    list childToBytes cs ++ bcisToBytes u ++ bcisToBytes i ++ bcisToBytes c := by
  rw [nodeToBytes, childrenToBytes_eq, list]

/-- A callee is coded if its node is. -/
theorem codes_child {P : Node → Prop} {node : Reader Node} (h : Codes P nodeToBytes node) :
    Codes (fun c => c.1 < UInt32.size ∧ KeyFits c.2.1 ∧ P c.2.2) childToBytes (readChild node) := by
  rintro bs ⟨bci, k, n⟩ rest
  simp only [readChild, bind, Option.bind_eq_some_iff, Prod.exists,
    codes_word 4 _, codes_key _, h _, pure, Option.some.injEq, Prod.mk.injEq, childToBytes]
  constructor
  · rintro ⟨_, _, ⟨hb, rfl⟩, _, _, ⟨hk, rfl⟩, _, _, ⟨hn, rfl⟩, ⟨rfl, rfl, rfl⟩, rfl⟩
    exact ⟨⟨hb, hk, hn⟩, by simp only [List.append_assoc]⟩
  · rintro ⟨⟨hb, hk, hn⟩, rfl⟩
    exact ⟨_, _, ⟨hb, by simp only [List.append_assoc]⟩, _, _, ⟨hk, rfl⟩, _, _,
      ⟨hn, rfl⟩, ⟨rfl, rfl, rfl⟩, rfl⟩

/-- Nodes are coded up to any depth. -/
theorem codes_node (depth : Nat) :
    Codes (fun n => n.Fits ∧ n.height < depth) nodeToBytes (readNode depth) := by
  induction depth with
  | zero =>
    intro bs n rest
    simp [readNode]
  | succ depth ih =>
    -- Callees are read with one level less, so they are coded by induction.
    have hcallees := (codes_child ih).list
    rintro bs ⟨cs, u, i, c⟩ rest
    simp only [readNode, bind, Option.bind_eq_some_iff, Prod.exists, hcallees _, codes_bcis _,
      pure, Option.some.injEq,
      Prod.mk.injEq, Node.mk.injEq, nodeToBytes_mk, Node.fits_mk, Node.height_mk_lt_succ_iff]
    constructor
    · rintro ⟨_, _, ⟨⟨hlen, hcs⟩, rfl⟩, _, _, ⟨hu, rfl⟩, _, _, ⟨hi, rfl⟩, _, _, ⟨hc, rfl⟩,
        ⟨rfl, rfl, rfl, rfl⟩, rfl⟩
      refine ⟨⟨⟨⟨hlen, fun x hx => ?_⟩, hu, hi, hc⟩, fun x hx => (hcs x hx).2.2.2⟩,
        by simp only [List.append_assoc]⟩
      exact ⟨(hcs x hx).1, (hcs x hx).2.1, (hcs x hx).2.2.1⟩
    · rintro ⟨⟨⟨⟨hlen, hfits⟩, hu, hi, hc⟩, hheight⟩, rfl⟩
      have hcs : ∀ x ∈ cs, x.1 < UInt32.size ∧ KeyFits x.2.1 ∧ x.2.2.Fits ∧
          x.2.2.height < depth := fun x hx =>
        ⟨(hfits x hx).1, (hfits x hx).2.1, (hfits x hx).2.2, hheight x hx⟩
      exact ⟨_, _, ⟨⟨hlen, hcs⟩, by simp only [List.append_assoc]⟩, _, _, ⟨hu, rfl⟩, _, _,
        ⟨hi, rfl⟩, _, _, ⟨hc, rfl⟩, ⟨rfl, rfl, rfl, rfl⟩, rfl⟩

/-- An entry is coded if its node nests less deep than the bound. -/
theorem codes_entry (depth : Nat) :
    Codes (fun e => e.Fits ∧ e.root.height < depth) entryToBytes (readEntry depth) := by
  rintro bs ⟨outer, inner, root⟩ rest
  simp only [readEntry, bind, Option.bind_eq_some_iff, Prod.exists, codes_key _,
    codes_key.option _, codes_node depth _,
    pure, Option.some.injEq, Prod.mk.injEq, Entry.mk.injEq, entryToBytes, Entry.Fits]
  constructor
  · rintro ⟨_, _, ⟨ho, rfl⟩, _, _, ⟨hi, rfl⟩, _, _, ⟨⟨hr, hheight⟩, rfl⟩, ⟨rfl, rfl, rfl⟩, rfl⟩
    exact ⟨⟨⟨ho, hi, hr⟩, hheight⟩, by simp only [List.append_assoc]⟩
  · rintro ⟨⟨⟨ho, hi, hr⟩, hheight⟩, rfl⟩
    exact ⟨_, _, ⟨ho, by simp only [List.append_assoc]⟩, _, _, ⟨hi, rfl⟩, _, _,
      ⟨⟨hr, hheight⟩, rfl⟩, ⟨rfl, rfl, rfl⟩, rfl⟩

/-! ## Depth -/

mutual

/-- A node takes more bytes than it goes deep. -/
theorem height_le_length (n : Node) : n.height ≤ (nodeToBytes n).length := by
  rcases n with ⟨cs, u, i, c⟩
  rw [Node.height, nodeToBytes]
  have := calleesHeight_le_length cs
  simp only [List.length_append]
  omega
termination_by structural n

/-- Every level of callees takes at least one byte. -/
theorem calleesHeight_le_length (cs : List (Bci × NamedKey × Node)) :
    calleesHeight cs ≤ (childrenToBytes cs).length := by
  rcases cs with _ | ⟨⟨bci, k, n⟩, cs⟩
  · rw [calleesHeight]
    exact Nat.zero_le _
  · have hn := height_le_length n
    have hcs := calleesHeight_le_length cs
    have hword : (word 4 bci).length = 4 := rfl
    rw [calleesHeight, childrenToBytes]
    simp only [List.length_append, hword]
    omega
termination_by structural cs

end

/-- The number of bytes is a bound on nesting that is never too small. -/
theorem height_lt_of_mem {es : List Entry} {e : Entry} (he : e ∈ es) (rest : Bytes) :
    e.root.height < (list entryToBytes es ++ rest).length + 1 := by
  obtain ⟨before, after, rfl⟩ := List.append_of_mem he
  have hle := height_le_length e.root
  simp only [list, List.flatMap_append, List.flatMap_cons, entryToBytes, List.length_append]
  omega

/-! ## Databases -/

/-- The entries in some bytes are read to any sufficient depth. -/
theorem readEntries_eq_some_iff {es : List Entry} {rest : Bytes} :
    readList (readEntry (bs.length + 1)) bs = some (es, rest) ↔
      (es.length < UInt64.size ∧ ∀ e ∈ es, e.Fits) ∧ bs = list entryToBytes es ++ rest := by
  rw [(codes_entry (bs.length + 1)).list]
  constructor
  · rintro ⟨⟨hlen, hfits⟩, hbs⟩
    exact ⟨⟨hlen, fun e he => (hfits e he).1⟩, hbs⟩
  · rintro ⟨⟨hlen, hfits⟩, rfl⟩
    exact ⟨⟨hlen, fun e he => ⟨hfits e he, height_lt_of_mem he rest⟩⟩, rfl⟩

/-- What can be read starts with the code of some entries. -/
theorem ofBytes_eq_ok_iff :
    ofBytes bs = .ok db ↔ ∃ es rest, (es.length < UInt64.size ∧ ∀ e ∈ es, e.Fits) ∧
    bs = list entryToBytes es ++ rest ∧ ofEntries es = db := by
  simp only [← and_assoc, ← readEntries_eq_some_iff]
  rw [ofBytes]
  rcases readList (readEntry (bs.length + 1)) bs with _ | ⟨es, rest⟩
  · simp
  · simp

/-- Bytes that do not give a database give one error, whatever is wrong with them. -/
theorem ofBytes_eq_error_of (h : ∀ db, ofBytes bs ≠ .ok db) : ofBytes bs = .error .binary := by
  rw [ofBytes] at h ⊢
  split
  · next es rest heq => exact absurd (by rw [heq]) (h (ofEntries es))
  · rfl

/-- The binary form of a database is a code that ends by itself. A database is read
    back from its bytes, whatever bytes follow them, and a strict beginning of its
    bytes is refused. Whatever bytes a database was read from, it is read back from
    its own bytes, and these list its entries in the order of their names, each once. -/
theorem bytes_selfDelimiting :
    (∀ db : Database, db.WellFormed →
      (∀ more, ofBytes (db.toBytes ++ more) = .ok db) ∧
      ∀ part, part <+: db.toBytes → part ≠ db.toBytes → ofBytes part = .error .binary) ∧
    ∀ bs db, ofBytes bs = .ok db → ofBytes db.toBytes = .ok db ∧
      ∃ es, readList (readEntry (db.toBytes.length + 1)) db.toBytes = some (es, []) ∧
        ofEntries es = db ∧ es.Pairwise fun a b => a.before b ∧ ¬a.sameNames b := by
  have hback : ∀ db : Database, db.WellFormed → ∀ more, ofBytes (db.toBytes ++ more) = .ok db :=
      fun db h more =>
    ofBytes_eq_ok_iff.2 ⟨db.entries, more, ⟨h.length_lt, h.fits⟩, rfl, h.ofEntries_entries⟩
  refine ⟨fun db h => ⟨hback db h, fun part hpart hne => ofBytes_eq_error_of fun db' hdb' => ?_⟩,
    fun bs db hdb => ?_⟩
  · -- What is read from the beginning would be read from all bytes too, with some left over.
    obtain ⟨rest', hrest'⟩ := hpart
    obtain ⟨es, rest, hes, rfl, -⟩ := ofBytes_eq_ok_iff.1 hdb'
    have hread :=
      readEntries_eq_some_iff.2 ⟨hes, (hrest'.symm.trans (List.append_assoc ..) : db.toBytes = _)⟩
    have hread' := readEntries_eq_some_iff.2
      ⟨⟨h.length_lt, h.fits⟩, (List.append_nil db.toBytes).symm⟩
    rw [hread] at hread'
    have hnil := (Prod.mk.inj (Option.some.inj hread')).2
    rw [(List.append_eq_nil_iff.1 hnil).2, List.append_nil] at hrest'
    exact hne hrest'
  · obtain ⟨es, rest, ⟨hlen, hfits⟩, rfl, rfl⟩ := ofBytes_eq_ok_iff.1 hdb
    have hwell := wellFormed_ofEntries hlen hfits
    have hown := hback _ hwell []
    rw [List.append_nil] at hown
    refine ⟨hown, (ofEntries es).entries, ?_, hwell.ofEntries_entries,
      hwell.inOrder.imp fun hbefore => ⟨hbefore, ?_⟩⟩
    · exact readEntries_eq_some_iff.2 ⟨⟨hwell.length_lt, hwell.fits⟩, (List.append_nil _).symm⟩
    · intro hsame
      exact (before_iff_rank.1 hbefore).ne (sameNames_iff_rank.1 hsame)

/-- A method, and a callee in it that has a callee itself. -/
def circleArea : Database where
  entries := [
    ⟨⟨"Kreis", "fläche"⟩, none,
      .mk [(3, ⟨"Zahl", "×"⟩, .mk [(0, ⟨"Zahl", "+"⟩, .empty)] [1] [] [0])] [5] [] [3]⟩,
    ⟨⟨"Kreis", "fläche"⟩, some ⟨"Zahl", "×"⟩, .mk [(0, ⟨"Zahl", "+"⟩, .empty)] [1] [] [0]⟩]

/-- The same entries the wrong way round, the first of them twice. -/
def circleAreaShuffled : List Entry :=
  circleArea.entries.reverse ++ [⟨⟨"Kreis", "fläche"⟩, some ⟨"Zahl", "×"⟩, .mk [] [] [7] []⟩]

/-- The database is read back, and not without its last byte; and of entries that
    repeat names, the last is listed in its place. -/
theorem bytes_selfDelimiting_circleArea : circleArea.WellFormed ∧
    ofBytes (circleArea.toBytes ++ [0, 1]) = .ok circleArea ∧
    ofBytes circleArea.toBytes.dropLast = .error .binary ∧
    ofBytes (list entryToBytes circleAreaShuffled) = .ok (ofEntries circleAreaShuffled) ∧
    ofBytes (ofEntries circleAreaShuffled).toBytes = .ok (ofEntries circleAreaShuffled) := by
  have hwell : circleArea.WellFormed := ⟨by decide, by decide, by decide⟩
  have hshuffled :
      ofBytes (list entryToBytes circleAreaShuffled) = .ok (ofEntries circleAreaShuffled) :=
    ofBytes_eq_ok_iff.2
      ⟨circleAreaShuffled, [], ⟨by decide, by decide⟩, (List.append_nil _).symm, rfl⟩
  -- There is at least the count of the entries, so the last byte can be left out.
  have hne : circleArea.toBytes.dropLast ≠ circleArea.toBytes := fun heq => by
    have hpos : 0 < circleArea.toBytes.length := by
      rw [toBytes, list, List.length_append]
      exact Nat.add_pos_left (by decide) _
    have hlen := congrArg List.length heq
    rw [List.length_dropLast] at hlen
    omega
  exact ⟨hwell, (bytes_selfDelimiting.1 circleArea hwell).1 [0, 1],
    (bytes_selfDelimiting.1 circleArea hwell).2 _ (List.dropLast_prefix _) hne, hshuffled,
    (bytes_selfDelimiting.2 _ _ hshuffled).1⟩

end Warmup.Database
