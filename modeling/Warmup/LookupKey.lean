import Warmup.ClassTable

/-!
# Lookup keys

A key pairs a receiver class with what is wanted of it: the answer to a
selector, or one given method (a block, or a callee already found). Inline
caches, compiled code and feedback are all filed under keys.
-/

namespace Warmup

/-- What a lookup is after. -/
inductive Wanted
  | selector (s : Selector)
  | method (m : MethodId)
  deriving DecidableEq

/-- A receiver class, and what is wanted of it. -/
structure LookupKey where
  cls : ClassId
  wanted : Wanted
  deriving DecidableEq

namespace LookupKey

/-- The key of a send. -/
def send (c : ClassId) (s : Selector) : LookupKey := ⟨c, .selector s⟩

/-- The key of a given method. -/
def given (c : ClassId) (m : MethodId) : LookupKey := ⟨c, .method m⟩

/-- The selector of the key of a send. -/
def selector? (k : LookupKey) : Option Selector :=
  match k.wanted with
  | .selector s => some s
  | .method _ => none

/-- The method that a key leads to. -/
def resolve (t : ClassTable) (k : LookupKey) : Option MethodId :=
  match k.wanted with
  | .selector s => t.lookup k.cls s
  | .method m => (t.method? m).map fun _ => m

/-- The text of a key: `Class>>selector`. -/
def describe (t : ClassTable) (k : LookupKey) : String :=
  let name := t.className k.cls ++ ">>"
  match k.wanted with
  | .selector s => name ++ t.selectorName s
  | .method m =>
    match t.method? m with
    | some e => name ++ (if e.isBlock then "[] in " else "") ++ t.selectorName e.selector
    | none => name ++ "#" ++ toString m.index

/-- The class and the given method. -/
def roots (k : LookupKey) : List Root :=
  .cls k.cls :: match k.wanted with
    | .selector _ => []
    | .method m => [.method m]

/-- The names of a key of a send to a class that exists. -/
def named? (t : ClassTable) (k : LookupKey) : Option NamedKey := do
  let s ← k.selector?
  let c ← t.class? k.cls
  return ⟨c.name, t.selectorName s⟩

end LookupKey

/-- The key of a send that names stand for, if class and selector are known. -/
def NamedKey.resolve (t : ClassTable) (k : NamedKey) : Option LookupKey := do
  let c ← t.classNamed? k.className
  let s ← t.selector? k.selector
  return .send c s

end Warmup
