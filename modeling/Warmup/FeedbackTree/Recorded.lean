import Warmup.Database
import Warmup.FeedbackTree

/-!
# Recorded feedback

A scope recorded in the database becomes a scope of a feedback tree, with its
callees below it. Callees whose names mean nothing any more are left out.
-/

namespace Warmup

namespace FeedbackTree

/-- The key and the method that names stand for. -/
def resolveNames (c : ClassTable) (k : NamedKey) : Option (LookupKey × MethodId) := do
  let key ← k.resolve c
  return (key, ← key.resolve c)

/-- The tree with what a record says about the sends of a scope. -/
def markRecorded (t : FeedbackTree) (s : ScopeId) (level : Nat)
    (untaken uninlinable complete : List Bci) :
    FeedbackTree :=
  let t := untaken.foldl (fun t bci => t.addUntaken s bci .neverExecuted (level + 1)) t
  let t :=
    uninlinable.foldl (fun t bci => (t.add (.uninlinable true) (some (s, bci)) (level + 1)).1) t
  complete.foldl (fun t bci => t.markComplete s bci) t

mutual

/-- The tree with all that a record says about a scope. -/
def fill (c : ClassTable) (n : Database.Node) (t : FeedbackTree) (s : ScopeId) (level : Nat) :
    FeedbackTree :=
  match n with
  | .mk children untaken uninlinable complete =>
    fillCallees c children (t.markRecorded s level untaken uninlinable complete) s level
termination_by structural n

/-- The tree with recorded callees of a scope. -/
def fillCallees (c : ClassTable) (cs : List (Bci × NamedKey × Database.Node)) (t : FeedbackTree)
    (s : ScopeId) (level : Nat) : FeedbackTree :=
  match cs with
  | [] => t
  | (bci, name, n) :: cs =>
    match resolveNames c name with
    | none => fillCallees c cs t s level
    | some (key, method) =>
      let (t, id) := t.add (.recorded key method) (some (s, bci)) (level + 1)
      fillCallees c cs (fill c n t id (level + 1)) s level
termination_by structural cs

end

/-- The tree with a recorded callee at a send. -/
def graft (c : ClassTable) (n : Database.Node) (key : LookupKey) (method : MethodId)
    (t : FeedbackTree) (sender : Option (ScopeId × Bci)) (level : Nat) : FeedbackTree :=
  let (t, id) := t.add (.recorded key method) sender level
  fill c n t id level

end FeedbackTree

/-- The tree of the scope recorded under live keys, if its key leads to a
    method. -/
def Database.tree? (db : Database) (c : ClassTable) (outer : LookupKey) (inner : Option LookupKey) :
    Option FeedbackTree := do
  let n ← db.lookup c outer inner
  let key := inner.getD outer
  let method ← key.resolve c
  return FeedbackTree.graft c n key method .empty none 0

end Warmup
