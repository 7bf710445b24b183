import Warmup.Database
import Warmup.Binary
import Warmup.Json.Reader
import Warmup.Json.Record
import Warmup.Json.Writer
import Warmup.Text.Path

/-!
# Database files

A database is stored as JSON or in binary, as the extension of its file says
(`Format.ofPath`). Either form is a list of entries in the order of the
database; reading takes entries in any order, and of several with the same names
the last.

In JSON every field of a record is there, except for an inner key, which may be
missing or null; a record may also be the list of all its fields; lists and
records nest at most 127 deep. What is read from a file must not have empty
names (`check`).
-/

namespace Warmup.Database

open Warmup.Json

/-! ## Formats -/

/-- How a database is stored. -/
inductive Format
  | json
  | binary
  deriving DecidableEq

/-- The format of a file. -/
def Format.ofPath (path : String) : Format :=
  if Text.extension? path = some "json".toList then .json else .binary

/-! ## JSON -/

/-- A record of which all fields are known to be there if it is a list. -/
def fullRecord (names : List String) (v : Value) : Option (List (String × Value)) :=
  match v with
  | .array items => if items.length = names.length then v.record names else none
  | _ => v.record names

/-- A named key, where records may nest `levels` deep. -/
def keyOfJson (levels : Nat) (v : Value) : Option NamedKey := do
  guard (1 ≤ levels)
  let fields ← fullRecord ["class", "selector"] v
  return { className := ← required fields "class" Value.asString
           selector := ← required fields "selector" Value.asString }

/-- A position in a method body. -/
def bciOfJson (v : Value) : Option Bci := v.asBelow UInt32.size

/-- A list of positions. -/
def bcisOfJson (v : Value) : Option (List Bci) := v.asList bciOfJson

/-- A callee, where records may nest `levels` deep, given how its node is
    read. -/
def childOfJson (levels : Nat) (node : Value → Option Node) (v : Value) : Option Child := do
  let fields ← fullRecord ["bci", "key", "node"] v
  return (← required fields "bci" bciOfJson, ← required fields "key" (keyOfJson levels),
    ← required fields "node" node)

/-- A node, given how its callees are read. -/
def nodeOfFields (child : Value → Option Child) (v : Value) : Option Node := do
  let fields ← fullRecord ["children", "untaken", "uninlinable", "complete"] v
  return .mk (← required fields "children" (Value.asList child))
    (← required fields "untaken" bcisOfJson)
    (← required fields "uninlinable" bcisOfJson) (← required fields "complete" bcisOfJson)

/-- A node, where lists and records may nest `levels` deep: the node itself and
    its lists take one level each, and a callee one more. -/
def nodeOfJson : Nat → Value → Option Node
  | 0, _ => none
  | 1, _ => none
  | 2, v => nodeOfFields (fun _ => none) v
  | levels + 3, v => nodeOfFields (childOfJson levels (nodeOfJson levels)) v

/-- An entry, where lists and records may nest `levels` deep. -/
def entryOfJson (levels : Nat) (v : Value) : Option Entry := do
  let fields ← fullRecord ["outer", "inner", "root"] v
  return {
    outer := ← required fields "outer" (keyOfJson levels)
    inner := ← optional fields "inner"
      (fun v => match v with | .null => some none | v => (keyOfJson levels v).map some) none
    root := ← required fields "root" (nodeOfJson levels) }

/-- How deep lists and records may nest. -/
def maxNesting : Nat := 127

/-- The database that a JSON text gives. -/
def ofJsonText (text : String) : Except Fault Database :=
  match (read text).bind (Value.asList (entryOfJson (maxNesting - 2))) with
  | some es => .ok (ofEntries es)
  | none => .error .json

/-- A record with all its fields. -/
def jsonRecord (fields : List (String × Value)) : Value :=
  .object (fields.map fun f => (some f.1, f.2))

/-- The record of a named key. -/
def keyToJson (k : NamedKey) : Value :=
  jsonRecord [("class", .string k.className), ("selector", .string k.selector)]

/-- The list of some positions. -/
def bcisToJson (bcis : List Bci) : Value := .array (bcis.map .natural)

mutual

/-- The record of a node. -/
def nodeToJson (n : Node) : Value :=
  match n with
  | .mk cs u i c =>
    jsonRecord [("children", .array (childrenToJson cs)), ("untaken", bcisToJson u),
      ("uninlinable", bcisToJson i), ("complete", bcisToJson c)]
termination_by structural n

/-- The records of some callees. -/
def childrenToJson (cs : List (Bci × NamedKey × Node)) : List Value :=
  match cs with
  | [] => []
  | (bci, k, n) :: cs =>
    jsonRecord [("bci", .natural bci), ("key", keyToJson k), ("node", nodeToJson n)] ::
      childrenToJson cs
termination_by structural cs

end

/-- The record of an entry. -/
def entryToJson (e : Entry) : Value :=
  jsonRecord [("outer", keyToJson e.outer),
    ("inner", match e.inner with | some k => keyToJson k | none => .null),
    ("root", nodeToJson e.root)]

/-- The JSON text of a database. -/
def toJsonText (db : Database) : String := write (.array (db.entries.map entryToJson))

/-! ## Binary -/

/-- The bytes of a named key. -/
def keyToBytes (k : NamedKey) : Binary.Bytes := Binary.text k.className ++ Binary.text k.selector

/-- The bytes of some positions. -/
def bcisToBytes (bcis : List Bci) : Binary.Bytes := Binary.list (Binary.word 4) bcis

mutual

/-- The bytes of a node. -/
def nodeToBytes (n : Node) : Binary.Bytes :=
  match n with
  | .mk cs u i c =>
    Binary.word 8 cs.length ++ childrenToBytes cs ++ bcisToBytes u ++ bcisToBytes i ++ bcisToBytes c
termination_by structural n

/-- The bytes of some callees. -/
def childrenToBytes (cs : List (Bci × NamedKey × Node)) : Binary.Bytes :=
  match cs with
  | [] => []
  | (bci, k, n) :: cs => Binary.word 4 bci ++ keyToBytes k ++ nodeToBytes n ++ childrenToBytes cs
termination_by structural cs

end

/-- The bytes of an entry. -/
def entryToBytes (e : Entry) : Binary.Bytes :=
  keyToBytes e.outer ++ Binary.option keyToBytes e.inner ++ nodeToBytes e.root

/-- The bytes of a database. -/
def toBytes (db : Database) : Binary.Bytes := Binary.list entryToBytes db.entries

/-- A named key. -/
def readKey : Binary.Reader NamedKey := fun bs => do
  let (c, bs) ← Binary.readText bs
  let (s, bs) ← Binary.readText bs
  return (⟨c, s⟩, bs)

/-- A list of positions. -/
def readBcis : Binary.Reader (List Bci) := Binary.readList (Binary.readWord 4)

/-- A callee, given how its node is read. -/
def readChild (node : Binary.Reader Node) : Binary.Reader Child := fun bs => do
  let (bci, bs) ← Binary.readWord 4 bs
  let (k, bs) ← readKey bs
  let (n, bs) ← node bs
  return ((bci, k, n), bs)

/-- A node in which scopes nest less than `depth` deep. -/
def readNode : Nat → Binary.Reader Node
  | 0, _ => none
  | depth + 1, bs => do
    let (cs, bs) ← Binary.readList (readChild (readNode depth)) bs
    let (u, bs) ← readBcis bs
    let (i, bs) ← readBcis bs
    let (c, bs) ← readBcis bs
    return (.mk cs u i c, bs)

/-- An entry in which scopes nest less than `depth` deep. -/
def readEntry (depth : Nat) : Binary.Reader Entry := fun bs => do
  let (outer, bs) ← readKey bs
  let (inner, bs) ← Binary.readOption readKey bs
  let (root, bs) ← readNode depth bs
  return (⟨outer, inner, root⟩, bs)

/-- The database that some bytes write; bytes after it do not matter. Scopes
    cannot nest deeper than there are bytes. -/
def ofBytes (bs : Binary.Bytes) : Except Fault Database :=
  match Binary.readList (readEntry (bs.length + 1)) bs with
  | some (es, _) => .ok (ofEntries es)
  | none => .error .binary

/-! ## Files -/

/-- Whether a class or selector name is missing. -/
def lacksName (k : NamedKey) : Bool := k.className.isEmpty || k.selector.isEmpty

/-- The database, if all its keys have names. -/
def check (db : Database) : Except Fault Database :=
  match db.entries.find? fun e => lacksName e.outer || e.inner.any lacksName with
  | some e => .error (.unnamed e.outer e.inner)
  | none => .ok db

/-- The contents of the file of a database. -/
def toFile (db : Database) : Format → Binary.Bytes
  | .json => Binary.utf8 db.toJsonText
  | .binary => db.toBytes

/-- The database in a file with these contents. -/
def ofFile (format : Format) (bs : Binary.Bytes) : Except Fault Database := do
  match format with
  | .json =>
    match Binary.ofUtf8? bs with
    | some text => check (← ofJsonText text)
    | none => .error .file
  | .binary => check (← ofBytes bs)

end Warmup.Database
