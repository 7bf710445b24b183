import Warmup.NativeMethod

/-!
# The code table

All code that was ever installed, in order. For every key the table knows its
current version, if there is one, and how many versions there have been.
Invalid code keeps its place: activations that still run it are replaced by
its scopes, and its level decides at which level its key is compiled next.
-/

namespace Warmup

/-- Native methods in the order of their handles. -/
structure CodeTable where
  methods : List NativeMethod := []
  /-- The version that a send to a key enters. -/
  current : List (LookupKey × NativeId) := []
  /-- The versions of a key so far. -/
  versions : List (LookupKey × Nat) := []
  /-- The installations so far. -/
  epoch : Nat := 0

namespace CodeTable

/-! ## Queries -/

/-- The code with this handle. -/
def get? (t : CodeTable) (n : NativeId) : Option NativeMethod := t.methods[n.index]?

/-- The code with this handle, which must exist. -/
def get (t : CodeTable) (n : NativeId) : Except Fault NativeMethod :=
  match t.get? n with
  | some e => .ok e
  | none => .error (.unknown .native n.index)

/-- The current version of a key. -/
def current? (t : CodeTable) (k : LookupKey) : Option NativeId := t.current.lookup k

/-- The code of the current version of a key. -/
def currentMethod? (t : CodeTable) (k : LookupKey) : Option NativeMethod :=
  (t.current? k).bind t.get?

/-- The number of versions of a key. -/
def versionCount (t : CodeTable) (k : LookupKey) : Nat := (t.versions.lookup k).getD 0

/-- Whether the current version of a key is newer than `n`. -/
def isNewerThan (t : CodeTable) (k : LookupKey) (n : NativeId) : Bool :=
  match t.current? k with
  | none => false
  | some c =>
    match t.get? c, t.get? n with
    | some new, some old => c ≠ n && old.compiledAt < new.compiledAt
    | _, _ => false

/-! ## Changes -/

/-- The table with one native method changed. -/
def modify (t : CodeTable) (n : NativeId) (f : NativeMethod → NativeMethod) : CodeTable :=
  { t with methods := t.methods.modify n.index f }

/-- The table with `n` as the current version of its key. -/
def install (t : CodeTable) (n : NativeMethod) : Except Fault (CodeTable × NativeId) := do
  let version ← Word.fit 16 (t.versionCount n.key + 1)
  let id : NativeId := ⟨t.methods.length⟩
  let older := match t.current? n.key with
    | some old =>
      t.methods.modify old.index fun e =>
        if e.state = .live then { e with state := .superseded } else e
    | none => t.methods
  return ({
    methods :=
      older ++ [{ n with id := id, version := version, compiledAt := t.epoch + 1, state := .live }]
    current := (n.key, id) :: t.current.filter (·.1 ≠ n.key)
    versions := (n.key, version) :: t.versions.filter (·.1 ≠ n.key)
    epoch := t.epoch + 1 }, id)

/-- Whether code was valid before it is made invalid, and the table after
    that. -/
def invalidate (t : CodeTable) (n : NativeId) : Bool × CodeTable :=
  match t.get? n with
  | none => (false, t)
  | some e =>
    if e.state = .invalid then (false, t)
    else
      (true, { t with
        methods := t.methods.modify n.index fun e => { e with state := .invalid }
        current := if t.current? e.key = some n then t.current.filter (·.1 ≠ e.key)
          else t.current })

/-- The valid code that a method was compiled into, and the table in which it
    is invalid. -/
def invalidateDependents (t : CodeTable) (m : MethodId) : List NativeId × CodeTable :=
  let dependents := (t.methods.filter fun n => n.isValid && n.dependsOn m).map (·.id)
  (dependents, dependents.foldl (fun t n => (t.invalidate n).2) t)

/-- What valid code holds. -/
def roots (t : CodeTable) : List Root := (t.methods.filter (·.isValid)).flatMap (·.roots)

end CodeTable

end Warmup
