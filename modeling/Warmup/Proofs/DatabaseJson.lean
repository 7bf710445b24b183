import Warmup.Proofs.DatabaseBytes
import Warmup.Proofs.JsonRecords
import Warmup.Proofs.JsonText

/-!
# The JSON form of a database

A node is read back exactly if its lists and records nest no deeper than is allowed
(`nodeOfJson_nodeToJson`): its own record and its lists take two levels, and each
callee on the way down three more (`nesting_nodeToJson`). So a database comes back
from its text, or not at all (`ofJsonText_toJsonText`), and from a file of either
format if its entries have names (`json_roundTrip`).
-/

namespace Warmup.Database

open Json

/-! ## Records -/

/-- A record of all its fields gives them. -/
theorem fullRecord_jsonRecord {names : List String} {fields : List (String × Value)}
    (hnames : fields.map Prod.fst = names) (hnodup : names.Nodup) :
    fullRecord names (jsonRecord fields) = some fields := by
  have hknown : known names fields = fields :=
    known_eq_self fun f hf => hnames ▸ List.mem_map.2 ⟨f, hf, rfl⟩
  rw [jsonRecord, fullRecord, record_object, hknown, hnames, if_pos hnodup]
  exact fun _ heq => by cases heq

/-- A key is read back if one level of nesting is left. -/
theorem keyOfJson_keyToJson {levels : Nat} (h : 1 ≤ levels) (k : NamedKey) :
    keyOfJson levels (keyToJson k) = some k := by
  rw [keyOfJson, keyToJson, (Option.guard_eq_some' ()).2 h, fullRecord_jsonRecord]
  · rfl
  · rfl
  · decide

/-- Positions that fit their word are read back. -/
theorem bcisOfJson_bcisToJson {bcis : List Bci} (h : BcisFit bcis) :
    bcisOfJson (bcisToJson bcis) = some bcis :=
  mapM_map_eq_some fun b hb => if_pos (h.2 b hb)

/-- The record of a callee. -/
def childToJson (c : Child) : Value :=
  jsonRecord [("bci", .natural c.1), ("key", keyToJson c.2.1), ("node", nodeToJson c.2.2)]

theorem childrenToJson_eq (cs : List Child) : childrenToJson cs = cs.map childToJson := by
  induction cs with
  | nil => rw [childrenToJson, List.map_nil]
  | cons c cs ih => rw [childrenToJson, ih, List.map_cons, childToJson]

theorem nodeOfFields_nodeToJson (child : Value → Option Child) {cs : List Child} {u i c : List Bci}
    (hu : BcisFit u) (hi : BcisFit i) (hc : BcisFit c) :
    nodeOfFields child (nodeToJson (.mk cs u i c)) = ((cs.map childToJson).mapM child).map fun cs =>
      Node.mk cs u i c := by
  rw [nodeOfFields, nodeToJson, fullRecord_jsonRecord, childrenToJson_eq]
  · show (((cs.map childToJson).mapM child).bind fun cs => (bcisOfJson (bcisToJson u)).bind fun u =>
      (bcisOfJson (bcisToJson i)).bind fun i => (bcisOfJson (bcisToJson c)).bind fun c =>
        some (Node.mk cs u i c)) = _
    rw [bcisOfJson_bcisToJson hu, bcisOfJson_bcisToJson hi, bcisOfJson_bcisToJson hc,
      Option.map_eq_bind]
    rfl
  · rfl
  · decide

/-- A callee is read back if its key and its node are. -/
theorem childOfJson_childToJson (levels : Nat) (node : Value → Option Node) {c : Child}
    (h : c.1 < UInt32.size) :
    childOfJson levels node (childToJson c) =
      (keyOfJson levels (keyToJson c.2.1)).bind fun k => (node (nodeToJson c.2.2)).map fun n =>
        (c.1, k, n) := by
  rw [childOfJson, childToJson, fullRecord_jsonRecord]
  · show ((bciOfJson (.natural c.1)).bind
        fun bci => (keyOfJson levels (keyToJson c.2.1)).bind fun k =>
      (node (nodeToJson c.2.2)).bind fun n => some (bci, k, n)) = _
    rw [show bciOfJson (.natural c.1) = some c.1 from if_pos h]
    simp only [Option.bind_some, Option.map_eq_bind, Function.comp_def]
  · rfl
  · decide

/-- A node is read back if it nests no deeper than it may, and else not at all. -/
theorem nodeOfJson_nodeToJson (levels : Nat) {n : Node} (h : n.Fits) :
    nodeOfJson levels (nodeToJson n) = if 3 * n.height + 2 ≤ levels then some n else none := by
  induction levels using Nat.strongRecOn generalizing n with
  | ind levels ih =>
    obtain ⟨cs, u, i, c⟩ := n
    rw [Node.fits_mk] at h
    obtain ⟨⟨-, hcs⟩, hu, hi, hc⟩ := h
    rcases levels with _ | _ | _ | levels
    · rfl
    · rw [if_neg (by omega)]
      rfl
    · -- There is room for the lists of the node, but not for a callee.
      rw [nodeOfJson, nodeOfFields_nodeToJson _ hu hi hc]
      rcases cs with _ | ⟨x, cs⟩
      · rfl
      · have hheight : x.2.2.height < (Node.mk (x :: cs) u i c).height :=
          calleesHeight_le_iff.1 (Nat.le_refl _) x List.mem_cons_self
        rw [if_neg (by omega)]
        rfl
    · have hchild : ∀ x ∈ cs, childOfJson levels (nodeOfJson levels) (childToJson x) =
          if 3 * x.2.2.height + 2 ≤ levels then some x else none := by
        intro x hx
        rw [childOfJson_childToJson _ _ (hcs x hx).1, ih levels (by omega) (hcs x hx).2.2]
        by_cases hle : 3 * x.2.2.height + 2 ≤ levels
        · rw [keyOfJson_keyToJson (by omega), if_pos hle, if_pos hle]
          rfl
        · rw [if_neg hle, if_neg hle]
          simp
      have hiff : (∀ x ∈ cs, 3 * x.2.2.height + 2 ≤ levels) ↔
          3 * (Node.mk cs u i c).height + 2 ≤ levels + 3 := by
        have hheight : calleesHeight cs ≤ (levels + 1) / 3 ↔ _ := calleesHeight_le_iff
        rw [Node.height]
        constructor
        · intro hall
          have hle := hheight.2 fun x hx => by have := hall x hx; omega
          omega
        · intro hle x hx
          have hlt := hheight.1 (by omega) x hx
          omega
      rw [nodeOfJson, nodeOfFields_nodeToJson _ hu hi hc, mapM_map_eq_ite hchild]
      by_cases hall : ∀ x ∈ cs, 3 * x.2.2.height + 2 ≤ levels
      · rw [if_pos hall, if_pos (hiff.1 hall)]
        rfl
      · rw [if_neg hall, if_neg (mt hiff.2 hall)]
        rfl

/-- An entry is read back exactly if its node nests no deeper than is left. -/
theorem entryOfJson_entryToJson (levels : Nat) {e : Entry} (h : e.Fits) :
    entryOfJson levels (entryToJson e) = if 3 * e.root.height + 2 ≤ levels then some e
      else none := by
  -- The fields of the record are read in any order, so only what is in them counts.
  have hfields :
      entryOfJson levels (entryToJson e) = (keyOfJson levels (keyToJson e.outer)).bind fun outer =>
      (e.inner.elim (some none) fun k => (keyOfJson levels (keyToJson k)).map some).bind
      fun inner =>
        (nodeOfJson levels (nodeToJson e.root)).bind fun root => some ⟨outer, inner, root⟩ := by
    rw [entryOfJson, entryToJson, fullRecord_jsonRecord]
    · rcases e with ⟨outer, inner | k, root⟩ <;> rfl
    · rfl
    · decide
  rw [hfields, nodeOfJson_nodeToJson levels h.2.2]
  by_cases hle : 3 * e.root.height + 2 ≤ levels
  · have hkey (k : NamedKey) : keyOfJson levels (keyToJson k) = some k :=
      keyOfJson_keyToJson (by omega) k
    rw [if_pos hle, if_pos hle, hkey]
    rcases e with ⟨outer, inner | k, root⟩
    · rfl
    · simp only [Option.elim_some, hkey]
      rfl
  · rw [if_neg hle, if_neg hle]
    simp

/-! ## Nesting -/

theorem nesting_keyToJson (k : NamedKey) : (keyToJson k).nesting = 1 := rfl

theorem nesting_bcisToJson (bcis : List Bci) : (bcisToJson bcis).nesting = 1 := by
  have hitems : itemsNesting (bcis.map .natural) ≤ 0 := itemsNesting_le_iff.2 fun v hv => by
    obtain ⟨b, -, rfl⟩ := List.mem_map.1 hv
    exact Nat.le_refl 0
  rw [bcisToJson, Value.nesting, Nat.le_zero.1 hitems]

mutual

/-- The record of a node and its lists take two levels, and each callee on the way
    down three more. -/
theorem nesting_nodeToJson (n : Node) : (nodeToJson n).nesting = 3 * n.height + 2 := by
  obtain ⟨cs, u, i, c⟩ := n
  have hcs := itemsNesting_childrenToJson cs
  simp only [nodeToJson, jsonRecord, List.map_cons, List.map_nil, Value.nesting,
    fieldsNesting, nesting_bcisToJson, hcs, Node.height]
  omega
termination_by structural n

/-- Each level of callees takes three levels of nesting: the list, the record of the callee, and
    that of its node. -/
theorem itemsNesting_childrenToJson (cs : List (Bci × NamedKey × Node)) :
    itemsNesting (childrenToJson cs) = 3 * calleesHeight cs := by
  rcases cs with _ | ⟨⟨bci, k, n⟩, cs⟩
  · rfl
  · have hn := nesting_nodeToJson n
    have hcs := itemsNesting_childrenToJson cs
    simp only [childrenToJson, itemsNesting, jsonRecord, List.map_cons, List.map_nil,
      Value.nesting, fieldsNesting, nesting_keyToJson, hn, hcs, calleesHeight]
    omega
termination_by structural cs

end

theorem nesting_entryToJson (e : Entry) : (entryToJson e).nesting = 3 * e.root.height + 3 := by
  have hroot := nesting_nodeToJson e.root
  rcases e with ⟨outer, inner | k, root⟩
  · simp only [entryToJson, jsonRecord, List.map_cons, List.map_nil, Value.nesting,
      fieldsNesting, nesting_keyToJson, hroot]
    omega
  · simp only [entryToJson, jsonRecord, List.map_cons, List.map_nil, Value.nesting,
      fieldsNesting, nesting_keyToJson, hroot]
    omega

/-! ## Texts -/

/-- The list of the entries of a database. -/
def toJson (db : Database) : Value := .array (db.entries.map entryToJson)

/-- A database is two levels around its entries. -/
theorem nesting_toJson_lt_iff {db : Database} {levels : Nat} :
    db.toJson.nesting < levels + 3 ↔ ∀ e ∈ db.entries, 3 * e.root.height + 2 ≤ levels := by
  rw [toJson, Value.nesting, Nat.add_lt_add_iff_right, Nat.lt_succ_iff, itemsNesting_le_iff]
  simp only [List.forall_mem_map, nesting_entryToJson]
  exact forall₂_congr fun e _ => Nat.succ_le_succ_iff

/-- A database is read back from its text if it nests no deeper than it may, and
    else not at all. -/
theorem ofJsonText_toJsonText {db : Database} (h : db.WellFormed) :
    ofJsonText db.toJsonText = if db.toJson.nesting < 128 then .ok db else .error .json := by
  have hread : (read db.toJsonText).bind (Value.asList (entryOfJson 125)) =
      if ∀ e ∈ db.entries, 3 * e.root.height + 2 ≤ 125 then some db.entries else none := by
    rw [toJsonText, read_write, Option.bind_some]
    exact mapM_map_eq_ite fun e he => entryOfJson_entryToJson 125 (h.fits e he)
  rw [ofJsonText, show maxNesting - 2 = 125 from rfl, hread]
  by_cases hall : ∀ e ∈ db.entries, 3 * e.root.height + 2 ≤ 125
  · rw [if_pos hall, if_pos (nesting_toJson_lt_iff.2 hall)]
    exact congrArg Except.ok h.ofEntries_entries
  · rw [if_neg hall, if_neg (mt nesting_toJson_lt_iff.1 hall)]

/-! ## Files -/

/-- The keys under which an entry is found. -/
def Entry.keys (e : Entry) : List NamedKey := e.outer :: e.inner.toList

theorem lacksName_eq_false {k : NamedKey} (h : k.className ≠ "" ∧ k.selector ≠ "") :
    lacksName k = false := by
  rw [lacksName, Bool.or_eq_false_iff, String.isEmpty_eq_false_iff, String.isEmpty_eq_false_iff]
  exact h

/-- A database whose entries have names passes the check. -/
theorem check_eq_ok {db : Database}
    (h : ∀ e ∈ db.entries, ∀ k ∈ e.keys, k.className ≠ "" ∧ k.selector ≠ "") :
    check db = .ok db := by
  have hfind : (db.entries.find? fun e => lacksName e.outer || e.inner.any lacksName) = none := by
    refine List.find?_eq_none.2 fun e he hlacks => ?_
    rw [Bool.or_eq_true, lacksName_eq_false (h e he _ List.mem_cons_self), Option.any_eq_true]
      at hlacks
    obtain hfalse | ⟨k, hk, hlacks⟩ := hlacks
    · cases hfalse
    · have hkeys : k ∈ e.keys := List.mem_cons_of_mem _ (Option.mem_toList.2 hk)
      rw [lacksName_eq_false (h e he k hkeys)] at hlacks
      cases hlacks
  rw [check, hfind]

/-- A file gives what its text or its bytes give, if that has names. -/
theorem ofFile_toFile {db : Database} (h : db.WellFormed)
    (hjson : ofJsonText db.toJsonText = .ok db) (hnames : check db = .ok db) (format : Format) :
    ofFile format (db.toFile format) = .ok db := by
  rcases format with _ | _
  · have htext : Binary.ofUtf8? (Binary.utf8 db.toJsonText) = some db.toJsonText :=
      Binary.ofUtf8?_eq_some_iff.2 rfl
    rw [toFile, ofFile, htext]
    show (ofJsonText db.toJsonText).bind check = .ok db
    rw [hjson]
    exact hnames
  · -- The bytes are those of the entries, with nothing after them.
    have hbytes : ofBytes db.toBytes = .ok db :=
      ofBytes_eq_ok_iff.2
        ⟨db.entries, [], ⟨h.length_lt, h.fits⟩, (List.append_nil _).symm, h.ofEntries_entries⟩
    show (ofBytes db.toBytes).bind check = .ok db
    rw [hbytes]
    exact hnames

/-- A database comes back from its JSON text if lists and records nest less than
    128 deep there, and else the text is refused; and it comes back from a file of
    either format if its keys have names. -/
theorem json_roundTrip {db : Database} (h : db.WellFormed) :
    read db.toJsonText = some db.toJson ∧
    (db.toJson.nesting < 128 → ofJsonText db.toJsonText = .ok db ∧
      ((∀ e ∈ db.entries, ∀ k ∈ e.keys, k.className ≠ "" ∧ k.selector ≠ "") →
        ∀ format, ofFile format (db.toFile format) = .ok db)) ∧
    (128 ≤ db.toJson.nesting → ofJsonText db.toJsonText = .error .json) := by
  refine ⟨read_write _, fun hlt => ?_, fun hle => ?_⟩
  · have hjson : ofJsonText db.toJsonText = .ok db := by rw [ofJsonText_toJsonText h, if_pos hlt]
    exact ⟨hjson, fun hnames => ofFile_toFile h hjson (check_eq_ok hnames)⟩
  · rw [ofJsonText_toJsonText h, if_neg (Nat.not_lt.2 hle)]

/-- A method that is a callee of itself, so many times over. -/
def tower : Nat → Node
  | 0 => .mk [] [7] [] []
  | n + 1 => .mk [(n, ⟨"\"Turm\"", "\\hoch\n"⟩, tower n)] [] [n] [n]

/-- A database of one tower, whose names need escapes. -/
def towerDatabase (n : Nat) : Database where
  entries := [⟨⟨"\"Turm\"", "\\hoch\n"⟩, some ⟨"\x00", "塔"⟩, tower n⟩]

/-- A tower of 41 callees is stored, one of 42 is not. -/
theorem json_roundTrip_tower :
    ((towerDatabase 41).WellFormed ∧ (towerDatabase 41).toJson.nesting < 128 ∧
      ofJsonText (towerDatabase 41).toJsonText = .ok (towerDatabase 41) ∧
      ofFile .json ((towerDatabase 41).toFile .json) = .ok (towerDatabase 41)) ∧
    (towerDatabase 42).WellFormed ∧ 128 ≤ (towerDatabase 42).toJson.nesting ∧
      ofJsonText (towerDatabase 42).toJsonText = .error .json := by
  have hwell : (towerDatabase 41).WellFormed := ⟨by decide, by decide, by decide +kernel⟩
  have hlt : (towerDatabase 41).toJson.nesting < 128 := by decide +kernel
  have hback := (json_roundTrip hwell).2.1 hlt
  have hwell' : (towerDatabase 42).WellFormed := ⟨by decide, by decide, by decide +kernel⟩
  have hle : 128 ≤ (towerDatabase 42).toJson.nesting := by decide +kernel
  exact ⟨⟨hwell, hlt, hback.1, hback.2 (by decide) .json⟩, hwell', hle,
    (json_roundTrip hwell').2.2 hle⟩

end Warmup.Database
