import Warmup.InlineCache

/-!
# Feedback trees

What earlier executions of a method have shown, in the form that the compiler
asks for: a tree of scopes, in which the callees seen at a send hang below the
scope that sends. A scope stands for a method (interpreted, inlined into earlier
code, called from a cache, or recorded in the database), or says of a send that
it never ran or must not be inlined.

The scopes of a tree are kept in the order in which they were added; the first
one is the root, and every other one names its sender. What hangs at a send is
filed a second time, under the send.

* `FeedbackTree.add`: a further scope, which is also filed at its sender;
* `FeedbackTree.subscopes`: what hangs at a send;
* `FeedbackTree.classes`: the receiver classes seen at a send;
* `FeedbackTree.preorder`: all scopes, each before what hangs below it.
-/

namespace Warmup

/-- How it is known that a send never ran. -/
inductive Untaken
  /-- Its cache was never used. -/
  | neverExecuted
  /-- The trap in its place never fired. -/
  | uncommonBranch
  deriving DecidableEq

/-- The word for how it is known. -/
def Untaken.name : Untaken → String
  | neverExecuted => "NeverExecuted"
  | uncommonBranch => "UncommonBranch"

/-- What is known about a scope. -/
inductive Knowledge
  /-- A method of which only the interpreter's caches are known. -/
  | interpreted (key : LookupKey) (method : MethodId) (trusted : Bool)
  /-- A method that was compiled into earlier code. -/
  | inlined (key : LookupKey) (method : MethodId) (native : NativeId)
    (offset : Offset) (lite : Bool)
  /-- A callee of which only its cache entry is known. -/
  | callee (key : LookupKey) (method : MethodId) (target : Target)
  /-- The send never ran. -/
  | untaken (why : Untaken)
  /-- The send must not be inlined. -/
  | uninlinable (megamorphic : Bool)
  /-- A method recorded in the database. -/
  | recorded (key : LookupKey) (method : MethodId)
  | nothing
  deriving DecidableEq

namespace Knowledge

/-- The key of a method. -/
def key? : Knowledge → Option LookupKey
  | interpreted k _ _ | inlined k _ _ _ _ | callee k _ _ | recorded k _ => some k
  | untaken _ | uninlinable _ | nothing => none

/-- The method, if the scope stands for one. -/
def method? : Knowledge → Option MethodId
  | interpreted _ m _ | inlined _ m _ _ _ | callee _ m _ | recorded _ m => some m
  | untaken _ | uninlinable _ | nothing => none

/-- Whether it says that a send never ran. -/
def isUntaken : Knowledge → Bool
  | untaken _ => true
  | _ => false

/-- Whether it says that a send must not be inlined. -/
def isUninlinable : Knowledge → Bool
  | uninlinable _ => true
  | _ => false

/-- Whether the method was compiled without full debug information. -/
def isLite : Knowledge → Bool
  | inlined _ _ _ _ lite => lite
  | _ => false

/-- The key, the method and its code. -/
def roots (w : Knowledge) : List Root :=
  (w.key?.map LookupKey.roots).getD [] ++ (w.method?.map Root.method).toList ++
    match w with
    | inlined _ _ n _ _ => [.native n]
    | callee _ _ t => [t.root]
    | _ => []

end Knowledge

/-- A scope of a feedback tree. -/
structure FeedbackScope where
  what : Knowledge
  /-- The scope and position it hangs at; the root has none. -/
  sender : Option (ScopeId × Bci)
  /-- The number of callees that were walked to reach it. -/
  level : Nat
  /-- Sends whose trap has fired, each once. -/
  uncommon : List Bci := []
  /-- Sends at which all classes that were seen are known, each once. -/
  complete : List Bci := []
  deriving DecidableEq

/-- Scopes in the order of their handles, and the scopes that hang at each send. -/
structure FeedbackTree where
  scopes : List FeedbackScope
  /-- The scopes with the send that they are filed at, oldest first. -/
  callees : List ((ScopeId × Bci) × ScopeId) := []
  deriving DecidableEq

namespace FeedbackTree

/-- The handle of the root. -/
def root : ScopeId := ⟨0⟩

/-- The tree without scopes. -/
def empty : FeedbackTree where
  scopes := []

/-- The tree of one scope. -/
def single (w : Knowledge) : FeedbackTree where
  scopes := [{ what := w, sender := none, level := 0 }]

/-- The tree that knows nothing. -/
def null : FeedbackTree := single .nothing

/-! ## Changes -/

/-- The send at which a new scope is filed: that of its sender, if there is such a scope. -/
def filing? (t : FeedbackTree) (sender : Option (ScopeId × Bci)) : Option (ScopeId × Bci) :=
  sender.filter fun d => d.1.index ≤ t.scopes.length

/-- The tree with a further scope, and its handle. -/
def add (t : FeedbackTree) (w : Knowledge) (sender : Option (ScopeId × Bci)) (level : Nat) :
    FeedbackTree × ScopeId :=
  let id : ScopeId := ⟨t.scopes.length⟩
  ({ scopes := t.scopes ++ [{ what := w, sender := sender, level := level }]
     callees := t.callees ++ (t.filing? sender).toList.map (·, id) }, id)

/-- The tree with one scope changed. -/
def modify (t : FeedbackTree) (s : ScopeId) (f : FeedbackScope → FeedbackScope) : FeedbackTree :=
  { t with scopes := t.scopes.modify s.index f }

/-- The tree in which the trap of a send has fired. -/
def markUncommon (t : FeedbackTree) (s : ScopeId) (bci : Bci) : FeedbackTree :=
  t.modify s fun e => { e with uncommon := e.uncommon.insert bci }

/-- The tree in which all classes seen at a send are known. -/
def markComplete (t : FeedbackTree) (s : ScopeId) (bci : Bci) : FeedbackTree :=
  t.modify s fun e => { e with complete := e.complete.insert bci }

/-! ## Queries -/

/-- The scope with this handle. -/
def get? (t : FeedbackTree) (s : ScopeId) : Option FeedbackScope := t.scopes[s.index]?

/-- Whether nothing is known. -/
def isNull (t : FeedbackTree) : Bool := t.scopes.length = 1 && t.scopes.all (·.what = .nothing)

/-- What hangs at a send, oldest first. -/
def subscopes (t : FeedbackTree) (s : ScopeId) (bci : Bci) : List ScopeId :=
  (t.callees.filter (·.1 = (s, bci))).map (·.2)

/-- What is known at a send. -/
def known (t : FeedbackTree) (s : ScopeId) (bci : Bci) : List Knowledge :=
  (t.subscopes s bci).filterMap fun x => (t.get? x).map (·.what)

/-- The sends of a scope at which something hangs, in order. -/
def sites (t : FeedbackTree) (s : ScopeId) : List Bci :=
  sortBcis ((t.callees.filter (·.1.1 = s)).map (·.1.2))

/-- Whether something of this kind is known at a send. -/
def anyKnown (t : FeedbackTree) (s : ScopeId) (bci : Bci) (p : Knowledge → Bool) : Bool :=
  (t.known s bci).any p

/-- Whether a send, or what is left of it, never ran. -/
def isUntaken (t : FeedbackTree) (s : ScopeId) (bci : Bci) : Bool :=
  t.anyKnown s bci Knowledge.isUntaken

/-- Whether a send must not be inlined. -/
def isUninlinable (t : FeedbackTree) (s : ScopeId) (bci : Bci) : Bool :=
  t.anyKnown s bci Knowledge.isUninlinable

/-- Whether the trap of a send has fired. -/
def isUncommon (t : FeedbackTree) (s : ScopeId) (bci : Bci) : Bool :=
  (t.get? s).any (·.uncommon.contains bci)

/-- Whether all classes seen at a send are known. -/
def isComplete (t : FeedbackTree) (s : ScopeId) (bci : Bci) : Bool :=
  (t.get? s).any (·.complete.contains bci)

/-- Whether a scope was compiled without full debug information. -/
def isLite (t : FeedbackTree) (s : ScopeId) : Bool := (t.get? s).any (·.what.isLite)

/-- The receiver classes seen at a send, each once. -/
def classes (t : FeedbackTree) (s : ScopeId) (bci : Bci) : List ClassId :=
  ((t.known s bci).filterMap fun w => w.key?.map (·.cls)).eraseDups

/-- The callee with this key at a send. -/
def find? (t : FeedbackTree) (s : ScopeId) (bci : Bci) (k : LookupKey) : Option ScopeId :=
  (t.subscopes s bci).find? fun c => (t.get? c).bind (·.what.key?) = some k

/-- The scopes below a given one, at most `n` levels of them, each before what
    hangs below it; a send is named with what hangs there. -/
def below (t : FeedbackTree) : Nat → ScopeId → List (Nat × Bci × ScopeId)
  | 0, _ => []
  | n + 1, s =>
    (t.sites s).flatMap fun bci => (t.subscopes s bci).flatMap fun c =>
      (0, bci, c) :: (t.below n c).map fun e => (e.1 + 1, e.2)

/-- The root, and all scopes below it, each before what hangs below it. -/
def preorder (t : FeedbackTree) : List ScopeId := root :: (t.below t.scopes.length root).map (·.2.2)

/-- The keys, methods and code of all scopes. -/
def roots (t : FeedbackTree) : List Root := t.scopes.flatMap (·.what.roots)

/-- The tree with word that a send never ran, unless it is there. -/
def addUntaken (t : FeedbackTree) (s : ScopeId) (bci : Bci) (why : Untaken) (level : Nat) :
    FeedbackTree :=
  if t.isUntaken s bci then t else (t.add (.untaken why) (some (s, bci)) level).1

/-! ## Text -/

/-- The words for what is known. -/
def label (c : ClassTable) : Knowledge → String
  | .interpreted k _ trusted =>
    "Interpreted " ++ k.describe c ++ if trusted then "" else " (untrusted)"
  | .inlined k _ n offset lite =>
    "Inlined " ++ k.describe c ++ " [nm " ++ toString n.index ++ " scope " ++
      toString offset ++ "]" ++
      if lite then " lite" else ""
  | .callee k _ (.compiled n) => "Pic " ++ k.describe c ++ " -> nm " ++ toString n.index
  | .callee k _ (.interpreted _) => "Pic " ++ k.describe c ++ " -> interpreted"
  | .untaken .neverExecuted => "Untaken (never executed)"
  | .untaken .uncommonBranch => "Untaken (uncommon branch)"
  | .uninlinable megamorphic => "Uninlinable" ++ if megamorphic then " (megamorphic)" else ""
  | .recorded k _ => "Database " ++ k.describe c
  | .nothing => "Null"

/-- A line at some depth of the text. -/
def line (depth : Nat) (text : String) : String :=
  String.ofList (List.replicate (2 * depth) ' ') ++ text ++ "\n"

/-- The lines of one scope: what is known, and the traps that have fired. -/
def scopeText (c : ClassTable) (e : FeedbackScope) (depth : Nat) (place : String) : String :=
  line depth (place ++ label c e.what) ++
    String.join ((sortBcis e.uncommon).map fun bci =>
      line (depth + 1) ("@" ++ toString bci ++ " uncommon branch taken"))

/-- The text of a tree: its scopes in preorder, indented by their depth. -/
def render (t : FeedbackTree) (c : ClassTable) : String :=
  let text (s : ScopeId) (depth : Nat) (place : String) : String :=
    ((t.get? s).map fun e => scopeText c e depth place).getD ""
  text root 0 "" ++ String.join ((t.below t.scopes.length root).map fun e =>
    text e.2.2 (e.1 + 1) ("@" ++ toString e.2.1 ++ " "))

end FeedbackTree

end Warmup
