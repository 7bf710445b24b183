import Warmup.NativeMethod

/-!
# The inlining database

What was inlined where, filed under names, so that it outlives the machine that
recorded it. An entry belongs to a compiled method (its *outer* key) and
describes that method, or a callee inlined directly into it (its *inner* key).
Entries are kept in the order of their keys, and an entry without an inner key
stands before those with one.

A `Node` describes a scope: the callees inlined at its sends, and the sends
that never ran (`untaken`), that must not be inlined (`uninlinable`), or whose
callees are all there (`complete`).

* `Database.insert`, `Database.get?`: entries by their names;
* `Database.lookup`: entries by live keys;
* `Database.capture`: the entries that native code gives rise to.
-/

namespace Warmup

namespace Database

/-- A recorded scope. -/
inductive Node
  | mk (children : List (Bci × NamedKey × Node)) (untaken uninlinable complete : List Bci)
  deriving BEq

/-- A callee inlined at a send: where, under which names, and its scope. -/
abbrev Child := Bci × NamedKey × Node

namespace Node

/-- A scope of which nothing is recorded. -/
def empty : Node := mk [] [] [] []

/-- The callees inlined at its sends. -/
def children : Node → List Child
  | mk cs _ _ _ => cs

/-- The sends that never ran. -/
def untaken : Node → List Bci
  | mk _ u _ _ => u

/-- The sends that must not be inlined. -/
def uninlinable : Node → List Bci
  | mk _ _ i _ => i

/-- The sends whose callees are all there. -/
def complete : Node → List Bci
  | mk _ _ _ c => c

end Node

end Database

/-- Whether a named key stands before another one. -/
def NamedKey.before (a b : NamedKey) : Bool :=
  a.className < b.className || (a.className = b.className && a.selector < b.selector)

namespace Database

/-- Whether an inner key stands before another one: a missing one comes first. -/
def innerBefore : Option NamedKey → Option NamedKey → Bool
  | none, some _ => true
  | some a, some b => a.before b
  | _, none => false

/-- A recorded scope under its names. -/
structure Entry where
  outer : NamedKey
  inner : Option NamedKey
  root : Node
  deriving BEq

/-- Whether the names of an entry stand before those of another one. -/
def Entry.before (a b : Entry) : Bool :=
  a.outer.before b.outer || (a.outer = b.outer && innerBefore a.inner b.inner)

/-- Whether two entries have the same names. -/
def Entry.sameNames (a b : Entry) : Bool := a.outer = b.outer && a.inner = b.inner

end Database

/-- Recorded scopes in the order of their names. -/
structure Database where
  entries : List Database.Entry := []
  deriving BEq

namespace Database

/-! ## Entries -/

/-- Entries with a further one in its place. -/
def insertEntry (e : Entry) : List Entry → List Entry
  | [] => [e]
  | d :: rest =>
    if e.sameNames d then e :: rest
    else if e.before d then e :: d :: rest
    else d :: insertEntry e rest

/-- The database with an entry, in place of one with the same names. -/
def insert (db : Database) (e : Entry) : Database := ⟨insertEntry e db.entries⟩

/-- The database of some entries, of which the last with some names counts. -/
def ofEntries (es : List Entry) : Database := es.foldl insert {}

/-- The scope recorded under some names. -/
def get? (db : Database) (outer : NamedKey) (inner : Option NamedKey) : Option Node :=
  (db.entries.find? fun e => e.outer = outer ∧ e.inner = inner).map (·.root)

/-- The scope recorded under the names of live keys. -/
def lookup (db : Database) (t : ClassTable) (outer : LookupKey) (inner : Option LookupKey) :
    Option Node := do
  let outer ← outer.named? t
  match inner with
  | none => db.get? outer none
  | some k => db.get? outer (some (← k.named? t))

/-! ## Capture

Native code describes its scopes one by one. Each gets a node of its own, and
the nodes are then put into those of their senders, deepest scopes first. -/

/-- The nodes of scopes, by their offsets. -/
abbrev Nodes := List (Offset × Node)

/-- The nodes with one of them changed. -/
def Nodes.update (ns : Nodes) (o : Offset) (f : Node → Node) : Nodes :=
  ns.map fun n => if n.1 = o then (o, f n.2) else n

/-- A node with a further send that never ran. -/
def Node.addUntaken (bci : Bci) : Node → Node
  | mk cs u i c => mk cs (u ++ [bci]) i c

/-- A node with a further send that must not be inlined. -/
def Node.addUninlinable (bci : Bci) : Node → Node
  | mk cs u i c => mk cs u (i ++ [bci]) c

/-- A node with a further send whose callees are all there. -/
def Node.addComplete (bci : Bci) : Node → Node
  | mk cs u i c => mk cs u i (c ++ [bci])

/-- A node with further callees. -/
def Node.addChildren (new : List Child) : Node → Node
  | mk cs u i c => mk (cs ++ new) u i c

/-- The callees that the entries of a cache stand for. -/
def cacheChildren (t : ClassTable) (bci : Bci) (c : InlineCache) : List Child :=
  c.entries.filterMap fun e => ((LookupKey.send e.cls c.selector).named? t).map fun k =>
    (bci, k, Node.empty)

/-- What the cache of a send adds to the node of its scope. -/
def addSite (t : ClassTable) (s : CallSite) (n : Node) : Node :=
  if s.cache.neverExecuted then n.addUntaken s.bci
  else if s.cache.isMegamorphic || s.cache.flags.uninlinable then n.addUninlinable s.bci
  else if s.cache.isEmpty then n
  else (n.addComplete s.bci).addChildren (cacheChildren t s.bci s.cache)

/-- The nodes of all scopes of native code, each by itself. -/
def ownNodes (t : ClassTable) (n : NativeMethod) : Nodes :=
  let fresh : Nodes := (n.scopes.map (·.offset)).eraseDups.map fun o => (o, Node.empty)
  let trapped := (n.traps.filter fun s => !s.used).foldl
    (fun ns s => Nodes.update ns s.scope (Node.addUntaken s.bci)) fresh
  n.sites.foldl (fun ns s => Nodes.update ns s.scope (addSite t s)) trapped

/-- Nodes that are being put into one another: those left, and those of the
    callees inlined directly into the root. -/
structure Folding where
  nodes : Nodes
  direct : List (NamedKey × Node) := []

/-- The node of a scope put into that of its sender. -/
def Folding.step (t : ClassTable) (root : Offset) (f : Folding) (d : ScopeDesc) : Folding :=
  match d.sender, f.nodes.lookup d.offset with
  | some (sender, bci), some node =>
    let rest : Nodes := f.nodes.filter (·.1 ≠ d.offset)
    match d.key.named? t with
    | none => { f with nodes := rest }
    | some k => {
        nodes := Nodes.update rest sender (Node.addChildren [(bci, k, node)])
        direct := if sender = root then f.direct ++ [(k, node)] else f.direct }
  | some _, none => f
  | none, _ => f

/-- Whether a callee may stand before another one: by position, then by names. -/
def childLe (a b : Child) : Bool :=
  if a.1 = b.1 then !(b.2.1.before a.2.1) else a.1 < b.1

mutual

/-- A node with its lists, and those of its callees, in order. -/
def Node.normalize (n : Node) : Node :=
  match n with
  | .mk cs u i c => .mk ((normalizeAll cs).mergeSort childLe) (sortBcis u) (sortBcis i) (sortBcis c)
termination_by structural n

/-- Callees with their nodes in order. -/
def normalizeAll (cs : List (Bci × NamedKey × Node)) : List (Bci × NamedKey × Node) :=
  match cs with
  | [] => []
  | (bci, k, n) :: cs => (bci, k, n.normalize) :: normalizeAll cs
termination_by structural cs

end

/-- The number of entries that native code adds, and the database with them:
    the whole method, and each callee inlined directly into it. Code of a block,
    which has no names, adds none. -/
def capture (db : Database) (t : ClassTable) (n : NativeMethod) : Nat × Database :=
  match n.key.named? t, n.scopes.head? with
  | some outer, some root =>
    let inlined := (n.scopes.filter (·.sender.isSome)).mergeSort fun a b => b.offset ≤ a.offset
    let f := inlined.foldl (Folding.step t root.offset) { nodes := ownNodes t n }
    match f.nodes.lookup root.offset with
    | none => (0, db)
    | some node =>
      let whole := db.insert ⟨outer, none, node.normalize⟩
      (1 + f.direct.length,
        f.direct.foldl (fun db d => db.insert ⟨outer, some d.1, d.2.normalize⟩) whole)
  | _, _ => (0, db)

end Database

end Warmup
