import Warmup.CodeTable
import Warmup.ProcessTable

/-!
# Deoptimization

A compiled activation stands for several interpreted ones, one per scope from
the root of its code down to the scope it is in. Deoptimization puts these in
its place.

The contexts that compiled activations have laid out are of no use to the
interpreter: each is made invalid, and a fresh one takes its place. So all
activations that refer to it, in any process, must be replaced too, and those
of them that are compiled may have contexts of their own (`cascade`).

* `deoptimize`: an activation and all newer ones of its process, with all that
  follows from it.
-/

namespace Warmup

/-- What a deoptimization did, with activations by their places before it. -/
structure Deoptimized where
  /-- Compiled activations that were replaced, in order. -/
  converted : List FrameRef := []
  /-- Interpreted activations that got other contexts, in order. -/
  rewired : List FrameRef := []
  /-- Contexts that are no longer valid, in order. -/
  invalidated : List ContextId := []
  /-- The number of activations that took the place of compiled ones. -/
  synthesized : Nat := 0
  deriving DecidableEq

/-- The interpreted activations that a compiled one stands for, oldest first:
    the scopes from the root of the code down to a given one, each with its
    position, following at most `steps` senders. -/
def scopeChain (n : NativeMethod) : Nat → Offset → Bci → Except Fault (List (ScopeDesc × Bci))
  | 0, o, _ => .error (.unknown .frame o)
  | steps + 1, o, bci =>
    match n.scope? o with
    | none => .error (.unknown .frame o)
    | some d =>
      match d.sender with
      | none => .ok [(d, bci)]
      | some (sender, senderBci) => do return (← scopeChain n steps sender senderBci) ++ [(d, bci)]

/-- The activations that take the place of a compiled one. The oldest has its
    own context, and the newest is a block if it was one. -/
def unfoldActivation (n : NativeMethod) (a : Activation) (scope : Offset) :
    Except Fault (List Activation) := do
  let chain ← scopeChain n (n.scopes.length + 1) scope a.bci
  return chain.mapIdx fun i e => {
    key := e.1.key
    method := e.1.method
    bci := e.2
    own := if i = 0 then a.own else none
    superSend := i = 0 && a.superSend
    isBlock := i + 1 = chain.length && a.isBlock
    home := if i + 1 = chain.length then a.home else none }

namespace ProcessTable

/-! ## What must be replaced -/

/-- The optimized contexts that compiled activations among the marked ones have
    made, in order. -/
def spoiled (t : ProcessTable) (marked : List FrameRef) : List ContextId :=
  ((List.range t.contexts.length).map ContextId.mk).filter fun c =>
    (t.context? c).any (fun e => e.optimized && e.valid) &&
      marked.any fun r => (t.frame? r).any fun a => a.isCompiled && a.own = some c

/-- The marked activations, and those that refer to a context that they
    spoil. -/
def grow (t : ProcessTable) (marked : List FrameRef) : List FrameRef :=
  let contexts := t.spoiled marked
  t.framesWhere fun r a => marked.contains r || contexts.any a.references

/-- All activations that must be replaced if the marked ones are, after at most
    `steps` rounds. -/
def cascade (t : ProcessTable) : Nat → List FrameRef → List FrameRef
  | 0, marked => marked
  | steps + 1, marked =>
    let grown := t.grow marked
    if grown.length = marked.length then marked else t.cascade steps grown

/-- An activation and all newer ones of its process. -/
def newerThan (t : ProcessTable) (p : ProcessId) (i : Nat) : List FrameRef :=
  t.framesWhere fun r _ => r.1 = p && i ≤ r.2

/-! ## Replacement -/

/-- The table with a fresh context in place of each of some contexts, and which
    one took the place of which. -/
def replaceContexts (t : ProcessTable) :
    List ContextId → ProcessTable × List (ContextId × ContextId)
  | [] => (t, [])
  | c :: cs =>
    match t.context? c with
    | none => t.replaceContexts cs
    | some e =>
      let (t, fresh) := (t.invalidateContext c).addContext e.creator false
      let (t, rest) := t.replaceContexts cs
      (t, (c, fresh) :: rest)

end ProcessTable

/-- The context that took the place of another one. -/
def redirect (replaced : List (ContextId × ContextId)) (c : ContextId) : ContextId :=
  (replaced.lookup c).getD c

/-- The activation with the contexts that took the place of its own. -/
def Activation.redirect (a : Activation) (replaced : List (ContextId × ContextId)) : Activation :=
  { a with
    own := a.own.map (Warmup.redirect replaced), home := a.home.map (Warmup.redirect replaced) }

/-- A stack with one activation replaced by several. -/
def splice (stack : List Activation) (i : Nat) (new : List Activation) : List Activation :=
  stack.take i ++ new ++ stack.drop (i + 1)

namespace ProcessTable

/-- The table with one activation replaced, and what was done so far. -/
def replaceFrame (t : ProcessTable) (code : CodeTable) (replaced : List (ContextId × ContextId))
    (r : FrameRef) (done : Deoptimized) : Except Fault (ProcessTable × Deoptimized) := do
  let stack ← t.stack r.1
  let a := (← t.frame r.1 r.2).redirect replaced
  match a.execution with
  | .interpreted =>
    return (t.setStack r.1 (stack.set r.2 a), { done with rewired := r :: done.rewired })
  | .compiled n scope =>
    let new ← unfoldActivation (← code.get n) a scope
    return (t.setStack r.1 (splice stack r.2 new), { done with
      converted := r :: done.converted
      synthesized := done.synthesized + new.length })

/-- The table with activations replaced one after the other, newest first, so
    that the places of those to come stay right. -/
def replaceFrames (code : CodeTable) (replaced : List (ContextId × ContextId)) :
    List FrameRef → ProcessTable → Deoptimized → Outcome ProcessTable Deoptimized
  | [], t, done => .done t done
  | r :: rest, t, done =>
    match t.replaceFrame code replaced r done with
    | .error f => .fail t f
    | .ok (t, done) => replaceFrames code replaced rest t done

/-- The table without the compiled form of an activation and of all that
    follows from it. If the code of an activation is not there, those before it
    stay as they are. -/
def deoptimize (t : ProcessTable) (code : CodeTable) (p : ProcessId) (i : Nat) :
    Outcome ProcessTable Deoptimized :=
  match t.frame p i with
  | .error f => .fail t f
  | .ok _ =>
    let marked := t.cascade t.activations.length (t.newerThan p i)
    let contexts := t.spoiled marked
    let (u, replaced) := t.replaceContexts contexts
    replaceFrames code replaced marked.reverse u { invalidated := contexts }

end ProcessTable

end Warmup
