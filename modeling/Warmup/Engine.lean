import Warmup.Compilation
import Warmup.FeedbackTree.Evidence
import Warmup.LookupMemo
import Warmup.ProcessTable

/-!
# The engine

All tables of the machine together. An execution engine reports what happens
(sends, invocations, traps, new definitions), and each report runs the part of
the optimization loop that it concerns. This module has the tables and the
compiler over them:

* `Engine.prepare`: the compilation of a key, with the feedback there is;
* `Engine.compile`: the same, with the code installed.
-/

namespace Warmup

/-- How often things have happened. -/
structure Tally where
  sends : Nat := 0
  notUnderstood : Nat := 0
  compilations : Nat := 0
  recompilations : Nat := 0
  deferred : Nat := 0
  declined : Nat := 0
  traps : Nat := 0
  deriving DecidableEq

/-- All tables of the machine. -/
structure Engine where
  settings : Settings
  classes : ClassTable := .initial
  code : CodeTable := {}
  memo : LookupMemo := {}
  sites : SiteTable := {}
  pics : PicSpace
  processes : ProcessTable := {}
  database : Database := {}
  traps : TrapHistory := {}
  /-- Invocations of interpreted methods. -/
  counters : List (MethodId × Nat) := []
  tally : Tally := {}

namespace Engine

/-- The engine of a fresh machine. -/
def start (s : Settings) : Engine where
  settings := s
  pics := { capacity := s.caches.picCapacity.toNat, megamorphicStubs := s.caches.megamorphicStubs }

/-- What the engine knows about earlier executions. -/
def evidence (e : Engine) : Evidence where
  classes := e.classes
  code := e.code
  sites := e.sites
  database := some e.database
  settings := e.settings.feedback

/-- The compiler over the tables of the engine. -/
def compiler (e : Engine) : Compiler := ⟨e.settings, e.classes, e.code, e.traps⟩

/-- The method that a key leads to, which must exist. -/
def resolve (e : Engine) (k : LookupKey) : Except Fault MethodId :=
  match k.resolve e.classes with
  | some m => .ok m
  | none => .error (.notUnderstood (k.describe e.classes))

/-- The invocations of an interpreted method. -/
def invocationCount (e : Engine) (m : MethodId) : Nat := (e.counters.lookup m).getD 0

/-- The engine with the invocations of an interpreted method set. -/
def setCount (e : Engine) (m : MethodId) (n : Nat) : Engine :=
  { e with counters := (m, n) :: e.counters.filter (·.1 ≠ m) }

/-! ## Compilation -/

/-- The feedback that a compilation of a key starts from. -/
def feedback (e : Engine) (k : LookupKey) : Except Fault FeedbackTree := do
  return e.evidence.treeFor k (← e.resolve k)

/-- The compilation of a key at a level, not installed. -/
def prepare (e : Engine) (k : LookupKey) (level : Nat) : Except Fault Compilation := do
  let m ← e.resolve k
  e.compiler.compile (e.evidence.treeFor k m) k m level

/-- The engine with a key compiled at a level and installed. -/
def compileAt (e : Engine) (k : LookupKey) (level : Nat) : Except Fault (Engine × NativeId) := do
  let c ← e.prepare k level
  let (code, id) ← e.code.install c.native
  return ({ e with
    code := code
    counters := e.counters.filter (·.1 ≠ c.graph.method)
    tally := { e.tally with compilations := e.tally.compilations + 1 } }, id)

/-- The engine with a key compiled one level above its current code. -/
def compile (e : Engine) (k : LookupKey) : Except Fault (Engine × NativeId) := do
  match e.code.currentMethod? k with
  | none => e.compileAt k 1
  | some n => e.compileAt k (min (← Word.fit 8 (n.level + 1)) e.settings.recompile.maxLevel.toNat)

/-! ## The database and roots -/

/-- The number of database entries that native code gives, and the engine with
    them. -/
def capture (e : Engine) (n : NativeId) : Except Fault (Engine × Nat) := do
  let (count, db) := e.database.capture e.classes (← e.code.get n)
  return ({ e with database := db }, count)

/-- All that the tables keep alive. -/
def roots (e : Engine) : List Root :=
  e.classes.roots ++ e.code.roots ++ e.memo.roots ++ e.sites.roots ++ e.processes.roots

end Engine

end Warmup
