import Warmup.SendGraph.Emit
import Warmup.SendGraph.Inline

/-!
# Compilations

A method is compiled by inlining into it what feedback and settings allow, and
by emitting the code of the graph that results. The code is not installed yet.
-/

namespace Warmup

/-- A method that was compiled. -/
structure Compilation where
  graph : SendGraph
  stats : InliningStats
  native : NativeMethod

namespace Compilation

/-- Why callees were not inlined. -/
def rejected (c : Compilation) : List Rejection := c.stats.rejected

/-- The rejections by name, in the order of the names, with their numbers. -/
def rejectionCounts (c : Compilation) : List (String × Nat) :=
  let names := c.rejected.map (·.name)
  (names.eraseDups.mergeSort fun a b => a ≤ b).map fun n => (n, names.count n)

/-- The text of a compilation. -/
def describe (c : Compilation) : String :=
  let g := c.graph
  let n := c.stats
  "=== Compilation (level " ++ toString g.level ++ ") ===\n" ++
    "Scopes: " ++ toString g.scopes.length ++ " (" ++ toString g.depth ++ " deep)\n" ++
    "Sends: " ++ toString n.inlined ++ " inlined, " ++ toString n.typeCases ++ " type cases, " ++
    toString n.realSends ++ " real, " ++ toString n.traps ++ " traps\n" ++
    String.join
    (c.rejectionCounts.map fun r => "  rejected (" ++ r.1 ++ "): " ++ toString r.2 ++ "\n") ++
    "Size: " ++ toString c.native.size ++ "\n"

end Compilation

/-- The compilation of a method under a key, with feedback, at a level. -/
def Compiler.compile (c : Compiler) (t : FeedbackTree) (key : LookupKey) (method : MethodId)
    (level : Nat) :
    Except Fault Compilation := do
  let (graph, stats) ← c.graph t key method level
  return ⟨graph, stats, ← graph.emit c.classes⟩

end Warmup
