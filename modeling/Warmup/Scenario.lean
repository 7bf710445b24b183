import Warmup.Engine.Trap

/-!
# Scenarios

Short runs of the whole machine that print what it does. In all of them some
classes of shapes answer `area`, and a driver sends `area` to its argument:

* `untaken`: a send that never ran is compiled as a trap;
* `polymorphic`: two receiver classes give a type case;
* `megamorphic`: more receiver classes than a cache holds leave a real send;
* `nonLifoBlock`: a block that outlives its home counts for its home;
* `trapBackoff`: code that traps often enough is compiled again without its
  trap.
-/

namespace Warmup

/-- A run that can be asked for. -/
inductive Scenario
  | untaken
  | polymorphic
  | megamorphic
  | nonLifoBlock
  | trapBackoff
  deriving DecidableEq

/-- The scenario of this name. -/
def Scenario.ofName? : String → Option Scenario
  | "untaken" => some .untaken
  | "polymorphic" => some .polymorphic
  | "megamorphic" => some .megamorphic
  | "non-lifo-block" => some .nonLifoBlock
  | "trap-backoff" => some .trapBackoff
  | _ => none

namespace Scenario

/-- Why a scenario ends early. -/
inductive Halt
  | fault (f : Fault)
  /-- The settings have left no trap to fire. -/
  | noTrap
  deriving DecidableEq

/-- A part of a scenario: it adds lines to what was printed, which is kept also
    if it ends early. -/
abbrev Script := ExceptT Halt (StateM String)

/-- Prints a text. -/
def print (text : String) : Script Unit := modify (· ++ text)

/-- Prints a line. -/
def say (line : String) : Script Unit := print (line ++ "\n")

/-- The result of an operation, if it has one. -/
def check {α : Type} : Except Fault α → Script α
  | .ok a => pure a
  | .error f => throw (.fault f)

/-! ## Texts -/

/-- The words for what a send did to its cache. -/
def transitionText : Transition → String
  | .hit _ => "hit"
  | .filled _ => "filled (monomorphic)"
  | .grown _ => "grown (polymorphic)"
  | .wentMegamorphic _ => "went megamorphic"
  | .megamorphicLookup _ => "megamorphic lookup"
  | .notUnderstood => "not understood"
  | .fallback _ => "fallback"

/-- A name with its fields in braces. -/
def braced (name fields : String) : String := name ++ " \x7b " ++ fields ++ " \x7d"

/-- The text of a method's handle. -/
def methodText (m : MethodId) : String := "MethodId(" ++ toString m.index ++ ")"

/-- The text of a key; selectors count from one. -/
def keyText (k : LookupKey) : String :=
  let target := match k.wanted with
    | .selector s =>
      "Selector(Selector(" ++ braced "SymbolU32" ("value: " ++ toString (s.index + 1)) ++ "))"
    | .method m => "Method(" ++ methodText m ++ ")"
  braced "LookupKey" ("class: ClassId(" ++ toString k.cls.index ++ "), target: " ++ target)

/-- The text of a refusal, with its number. -/
def refusalText (r : Refusal) : String :=
  let field := match r with
    | .tooManyVersions _ => "versions"
    | .maxLevel _ => "level"
    | .tooYoung _ => "invocations"
  braced r.name (field ++ ": " ++ toString r.number)

/-- The text of what a request to recompile led to. -/
def recompiledText : Recompiled → String
  | .compiled n k =>
    braced "Compiled" ("nm: NativeMethodId(" ++ toString n.index ++ "), key: " ++ keyText k)
  | .deferred home => braced "Deferred" ("home: " ++ methodText home)
  | .declined why => "Declined(" ++ refusalText why ++ ")"

/-- The text of what is left of a send. -/
def residualText : Residual → String
  | .send s => "real send " ++ s.flags.describe
  | .trap _ => "uncommon trap"

/-- The text of what becomes of a send. -/
def resolutionText (c : ClassTable) : Resolution → String
  | .inlined d _ => "inlined for " ++ c.className d
  | .send s => residualText (.send s)
  | .trap t => residualText (.trap t)
  | .typeCase arms residual =>
    "type case [" ++ ", ".intercalate (arms.map fun a => c.className a.1) ++
      "] else " ++ residualText residual

/-! ## The shapes and their driver -/

/-- An engine with shapes and a driver. -/
structure World where
  engine : Engine
  shapes : List ClassId
  /-- The method that sends `area`, and its key. -/
  run : MethodId
  key : LookupKey

/-- The table with `n` classes of shapes, numbered from `i`, and their
    handles. -/
def addShapes (shape : ClassId) (area : Selector) :
    Nat → Nat → ClassTable → Except Fault (ClassTable × List ClassId)
  | 0, _, t => .ok (t, [])
  | n + 1, i, t => do
    let (t, c) := t.defineClass ("Shape" ++ toString i) (some shape)
    let (t, _) ← t.addMethod c { selector := area, steps := [.work (2 + i)] }
    let (t, rest) ← addShapes shape area n (i + 1) t
    return (t, c :: rest)

/-- The world with `n` classes of shapes. Their handles take four bytes each, and
    must fit in half of the address space. -/
def world (s : Settings) (n : Nat) : Except Fault World := do
  let _ ← Word.fit 63 (4 * n)
  let (t, shape) := ClassTable.initial.defineClass "Shape" none
  let (t, driver) := t.defineClass "Driver" none
  let (t, area) := t.intern "area"
  let (t, run) := t.intern "run:"
  let (t, shapes) ← addShapes shape area n 0 t
  let (t, method) ← t.addMethod driver
    { selector := run, argCount := 1, steps := [.work 1, .send area (.arg 0) []] }
  return ⟨{ Engine.start s with classes := t }, shapes, method, .send driver run⟩

/-- Prints the caches of the driver, its feedback, and what a compilation makes
    of its sends. -/
def report (w : World) : Script Unit := do
  let e := w.engine
  say "--- Inline caches ---"
  for (bci, c) in e.sites.ofMethod w.run do
    say ("  bci " ++ toString bci ++ ": " ++ c.state.name ++ ", " ++ toString c.entries.length ++
      " targets, flags " ++ c.flags.describe)
  say "--- Scope tree ---"
  let tree ← check (e.feedback w.key)
  print (tree.render e.classes)
  let c ← check (e.prepare w.key 1)
  say "--- Resolutions ---"
  for n in c.graph.sends do
    say ("  scope " ++ toString n.scope ++ " bci " ++ toString n.bci ++ " #" ++
      e.classes.selectorName n.selector ++ ": " ++ resolutionText e.classes n.resolution)
  print c.describe

/-! ## Runs -/

/-- A driver that is linked and never sends. -/
def runUntaken (s : Settings) : Script Unit := do
  let w ← check (world s 1)
  report { w with engine := ← check (w.engine.link w.run) }

/-- Sends to some shapes, one after the other. -/
def sendAll (w : World) : List ClassId → Script World
  | [] => pure w
  | c :: cs => do
    let o := w.engine.sendInterpreted w.run 1 c
    let t ← check o.result
    say ("  " ++ w.engine.classes.className c ++ " -> " ++ transitionText t)
    sendAll { w with engine := o.state } cs

/-- A driver that sends to `n` classes of shapes. -/
def runObserved (s : Settings) (n : Nat) : Script Unit := do
  let w ← check (world s n)
  say "--- Sends ---"
  report (← sendAll w w.shapes)

/-- A block of the driver that runs after the driver has returned. -/
def runNonLifoBlock (s : Settings) : Script Unit := do
  let w ← check (world s 1)
  let (t, value) := w.engine.classes.intern "value"
  let (t, block) ← check (t.addBlock w.run { selector := value, steps := [.work 3] })
  let (ps, context) := w.engine.processes.addContext w.run false
  let (ps, p) := ps.spawn
  let (ps, i) ← check (ps.push p
    { key := .given .blockClosure block, method := block, isBlock := true, home := some context })
  let (e, r) ← check ({ w.engine with classes := t, processes := ps }.recompile p i .counter)
  say "--- Recompilation ---"
  say ("  block " ++ toString block.index ++ " -> " ++ recompiledText r)
  say ("  home counter: " ++ toString (e.invocationCount w.run))

/-- Fires the first trap of the driver's current code up to `n` times. -/
def fireTraps (w : World) : Nat → Engine → Script Engine
  | 0, e => pure e
  | n + 1, e =>
    match e.code.current? w.key with
    | none => pure e
    | some c => do
      let (ps, p) := e.processes.spawn
      let (ps, i) ← check (ps.push p { key := w.key, method := w.run, execution := .compiled c 0 })
      let o := { e with processes := ps }.uncommonTrap p i 0
      let (f, r) ← check o.result
      say ("  nm " ++ toString c.index ++ ": " ++
        (if f.patched then "Patched" else "AlreadyUsed") ++
        ", trap count " ++ toString f.trapCount ++ ", recompile " ++
        match r with
        | some r => "Some(" ++ recompiledText r ++ ")"
        | none => "None")
      fireTraps w n o.state

/-- Traps until the driver is compiled again. -/
def runTrapBackoff (s : Settings) : Script Unit := do
  let w ← check (world s 1)
  let (e, n) ← check ((← check (w.engine.link w.run)).compile w.key)
  if (← check (e.code.get n)).traps.isEmpty then throw .noTrap
  say "--- Traps ---"
  let e ← fireTraps w s.traps.threshold.toNat e
  let backoff := e.traps.backoff w.key
  say "--- Backoff ---"
  say ("  exponent: " ++ toString backoff)
  say ("  invocation limit: " ++ toString (← check (s.invocationLimit backoff)))
  say ("  disabled sites: " ++ toString e.traps.disabled.length)
  match e.code.currentMethod? w.key with
  | none => pure ()
  | some n =>
    say ("  current code: nm " ++ toString n.id.index ++ " (version " ++
      toString n.version ++ ", level " ++ toString n.level ++ ")")

/-- The run of a scenario. -/
def run (s : Settings) : Scenario → Script Unit
  | untaken => runUntaken s
  | polymorphic => runObserved s 2
  | megamorphic => do runObserved s (← check (Word.fit 64 (s.caches.maxEntries.toNat + 1)))
  | nonLifoBlock => runNonLifoBlock s
  | trapBackoff => runTrapBackoff s

end Scenario

end Warmup
