import Warmup.LookupKey

/-!
# Processes

A process is a stack of activations, oldest first. An activation is interpreted
or runs native code, in which case it stands for all the scopes from the root
of that code down to the one it is in. Variables that blocks capture live in
lexical contexts: an activation may own one, and that of a block refers to the
context of its home.

* `creator?`: the activation that owns a context, below a given one;
* `homeFrame`: the home of a block's activation on its own stack;
* `referencing`: all activations that a context is owned by or home to.
-/

namespace Warmup

/-- How an activation executes. -/
inductive Execution
  | interpreted
  /-- Native code, in the scope at this offset. -/
  | compiled (n : NativeId) (scope : Offset)
  deriving DecidableEq

/-- An activation of a method or block. -/
structure Activation where
  key : LookupKey
  method : MethodId
  execution : Execution := .interpreted
  isBlock : Bool := false
  /-- The context it has made. -/
  own : Option ContextId := none
  /-- The context of the home of a block. -/
  home : Option ContextId := none
  /-- It was entered by a super send. -/
  superSend : Bool := false
  bci : Bci := 0
  deriving DecidableEq

namespace Activation

/-- Whether it runs native code. -/
def isCompiled (a : Activation) : Bool := a.execution ≠ .interpreted

/-- The native code it runs. -/
def native? (a : Activation) : Option NativeId :=
  match a.execution with
  | .interpreted => none
  | .compiled n _ => some n

/-- Whether it refers to a context. -/
def references (a : Activation) (c : ContextId) : Bool := a.own = some c || a.home = some c

/-- The key, the method and the code. -/
def roots (a : Activation) : List Root :=
  a.key.roots ++ [.method a.method] ++ match a.native? with
    | some n => [.native n]
    | none => []

end Activation

/-- A lexical context. -/
structure Context where
  creator : MethodId
  /-- Laid out by optimized code, which the interpreter cannot use. -/
  optimized : Bool
  valid : Bool := true
  deriving DecidableEq

/-- An activation, by its process and its place on the stack. -/
abbrev FrameRef := ProcessId × Nat

/-- Processes and contexts in the order of their handles. -/
structure ProcessTable where
  callStacks : List (List Activation) := []
  contexts : List Context := []
  active : Option ProcessId := none
  /-- The scheduler itself is running. -/
  inScheduler : Bool := false
  deriving DecidableEq

/-- The newest activation that owns a context, among the first `below` ones. -/
def creator? (stack : List Activation) (c : ContextId) (below : Nat) : Option Nat :=
  (List.range (min below stack.length)).reverse.find? fun i => (stack[i]?.bind (·.own)) = some c

namespace ProcessTable

/-! ## Queries -/

/-- The stack of a process, which must exist. -/
def stack (t : ProcessTable) (p : ProcessId) : Except Fault (List Activation) :=
  match t.callStacks[p.index]? with
  | some s => .ok s
  | none => .error (.unknown .process p.index)

/-- An activation, which must exist. -/
def frame (t : ProcessTable) (p : ProcessId) (i : Nat) : Except Fault Activation := do
  match (← t.stack p)[i]? with
  | some a => .ok a
  | none => .error (.unknown .frame i)

/-- The activation that a reference names. -/
def frame? (t : ProcessTable) (r : FrameRef) : Option Activation :=
  (t.callStacks[r.1.index]?).bind (·[r.2]?)

/-- The context with this handle. -/
def context? (t : ProcessTable) (c : ContextId) : Option Context := t.contexts[c.index]?

/-- All activations with their places, process by process and oldest first. -/
def activations (t : ProcessTable) : List (FrameRef × Activation) :=
  (t.callStacks.mapIdx fun p s => s.mapIdx fun i a => ((⟨p⟩, i), a)).flatten

/-- The places of all activations that have some property. -/
def framesWhere (t : ProcessTable) (p : FrameRef → Activation → Bool) : List FrameRef :=
  (t.activations.filter fun e => p e.1 e.2).map (·.1)

/-- All activations that refer to a context. -/
def referencing (t : ProcessTable) (c : ContextId) : List FrameRef :=
  t.framesWhere fun _ a => a.references c

/-- The home of a block's activation, if it is on the same stack below it. -/
def homeFrame (t : ProcessTable) (p : ProcessId) (i : Nat) : Except Fault (Option Nat) := do
  let stack ← t.stack p
  let a ← t.frame p i
  return a.home.bind fun c => creator? stack c i

/-! ## Changes -/

/-- The table with a further, empty process, which is active if none was. -/
def spawn (t : ProcessTable) : ProcessTable × ProcessId :=
  let p : ProcessId := ⟨t.callStacks.length⟩
  ({ t with callStacks := t.callStacks ++ [[]], active := some (t.active.getD p) }, p)

/-- The table with a stack replaced. -/
def setStack (t : ProcessTable) (p : ProcessId) (s : List Activation) : ProcessTable :=
  { t with callStacks := t.callStacks.set p.index s }

/-- The table with a further activation on a stack, and its place. -/
def push (t : ProcessTable) (p : ProcessId) (a : Activation) : Except Fault (ProcessTable × Nat) := do
  let stack ← t.stack p
  return (t.setStack p (stack ++ [a]), stack.length)

/-- The table without the newest activation of a stack, and that activation. -/
def pop (t : ProcessTable) (p : ProcessId) : Except Fault (ProcessTable × Option Activation) := do
  let stack ← t.stack p
  return (t.setStack p stack.dropLast, stack.getLast?)

/-- The table with an activation replaced. -/
def setFrame (t : ProcessTable) (p : ProcessId) (i : Nat) (a : Activation) :
    Except Fault ProcessTable := do
  let stack ← t.stack p
  let _ ← t.frame p i
  return t.setStack p (stack.set i a)

/-- The table with another active process. -/
def setActive (t : ProcessTable) (p : ProcessId) : Except Fault ProcessTable := do
  let _ ← t.stack p
  return { t with active := some p }

/-- The table with a further context. -/
def addContext (t : ProcessTable) (creator : MethodId) (optimized : Bool) :
    ProcessTable × ContextId :=
  ({ t with contexts := t.contexts ++ [⟨creator, optimized, true⟩] }, ⟨t.contexts.length⟩)

/-- The table with a context that is not valid. -/
def invalidateContext (t : ProcessTable) (c : ContextId) : ProcessTable :=
  { t with contexts := t.contexts.modify c.index fun e => { e with valid := false } }

/-- What the activations hold, and the creators of valid contexts. -/
def roots (t : ProcessTable) : List Root :=
  (t.callStacks.flatten.flatMap (·.roots)) ++ (t.contexts.filter (·.valid)).map fun c =>
    .method c.creator

end ProcessTable

end Warmup
