import Warmup.Method
import Warmup.Text.Pieces

/-!
# The class table

Classes with single inheritance, their method dictionaries, and the names of
selectors. A class may name a superclass that does not exist (yet): the chain
of superclasses ends there.

* `chain`: a class, its superclass, and so on;
* `lookup`: the first method along the chain of a class;
* `addMethod`: a new definition, which supersedes an older one of its class.

The first nine classes are always there; the compiler knows some of them by
their place (`ClassId.smallInteger`, ...).
-/

namespace Warmup

namespace ClassId

/-- The class of small integers. -/
def smallInteger : ClassId := ⟨2⟩

/-- The class of floating point numbers. -/
def float : ClassId := ⟨3⟩

/-- The class of arrays. -/
def array : ClassId := ⟨4⟩

/-- The class of `true`. -/
def trueClass : ClassId := ⟨5⟩

/-- The class of `false`. -/
def falseClass : ClassId := ⟨6⟩

/-- The class of blocks. -/
def blockClosure : ClassId := ⟨8⟩

/-- Whether the compiler knows the representation of the instances. -/
def isPrimitive (c : ClassId) : Bool :=
  [smallInteger, float, array, trueClass, falseClass].contains c

end ClassId

/-- A class and its own methods. -/
structure ClassEntry where
  name : String
  superclass : Option ClassId
  methods : List (Selector × MethodId) := []

/-- The method a class defines itself for a selector. -/
def ClassEntry.method? (c : ClassEntry) (s : Selector) : Option MethodId := c.methods.lookup s

/-- The class with `m` as its own method for `s`. -/
def ClassEntry.install (c : ClassEntry) (s : Selector) (m : MethodId) : ClassEntry :=
  { c with methods := (s, m) :: c.methods.filter (·.1 ≠ s) }

/-- Classes, methods and selectors, each in the order of their handles. -/
structure ClassTable where
  classes : List ClassEntry
  methods : List Method
  selectors : List String

namespace ClassTable

/-- The table of a fresh machine. -/
def initial : ClassTable where
  classes := [
    ⟨"Object", none, []⟩, ⟨"Boolean", some ⟨0⟩, []⟩, ⟨"SmallInteger", some ⟨0⟩, []⟩,
    ⟨"Float", some ⟨0⟩, []⟩, ⟨"Array", some ⟨0⟩, []⟩, ⟨"True", some ⟨1⟩, []⟩,
    ⟨"False", some ⟨1⟩, []⟩, ⟨"UndefinedObject", some ⟨0⟩, []⟩, ⟨"BlockClosure", some ⟨0⟩, []⟩]
  methods := []
  selectors := []

/-! ## Queries -/

/-- The class with this handle. -/
def class? (t : ClassTable) (c : ClassId) : Option ClassEntry := t.classes[c.index]?

/-- The superclass of a class. -/
def superclass? (t : ClassTable) (c : ClassId) : Option ClassId := (t.class? c).bind (·.superclass)

/-- The name of a class. -/
def className (t : ClassTable) (c : ClassId) : String :=
  match t.class? c with
  | some e => e.name
  | none => "<unknown class>"

/-- The class of this name. -/
def classNamed? (t : ClassTable) (name : String) : Option ClassId :=
  (t.classes.findIdx? (·.name = name)).map ClassId.mk

/-- The selector of this name, if it was seen before. -/
def selector? (t : ClassTable) (name : String) : Option Selector :=
  (t.selectors.findIdx? (· = name)).map Selector.mk

/-- The name of a selector. -/
def selectorName (t : ClassTable) (s : Selector) : String :=
  t.selectors[s.index]?.getD "<unknown selector>"

/-- The method with this handle. -/
def method? (t : ClassTable) (m : MethodId) : Option Method := t.methods[m.index]?

/-- The method with this handle, which must exist. -/
def method (t : ClassTable) (m : MethodId) : Except Fault Method :=
  match t.method? m with
  | some e => .ok e
  | none => .error (.unknown .method m.index)

/-- The method a class defines itself for a selector. -/
def localMethod? (t : ClassTable) (c : ClassId) (s : Selector) : Option MethodId :=
  (t.class? c).bind (·.method? s)

/-! ## Lookup -/

/-- The first `n` classes of the chain that starts at `c`. -/
def chainUpTo (t : ClassTable) : Nat → ClassId → List ClassId
  | 0, _ => []
  | n + 1, c =>
    c :: match t.superclass? c with
      | some s => t.chainUpTo n s
      | none => []

/-- A class and all its superclasses. A chain without a loop has every class at
    most once, and at its end maybe one that does not exist; one with a loop has
    no end, and is cut off. -/
def chain (t : ClassTable) (c : ClassId) : List ClassId := t.chainUpTo (t.classes.length + 1) c

/-- The method that a receiver of class `c` runs for `s`. -/
def lookup (t : ClassTable) (c : ClassId) (s : Selector) : Option MethodId :=
  (t.chain c).findSome? fun d => t.localMethod? d s

/-- The method that a super send of `s` runs in a method of class `c`. -/
def superLookup (t : ClassTable) (c : ClassId) (s : Selector) : Option MethodId :=
  (t.superclass? c).bind fun d => t.lookup d s

/-- Whether `a` is `c` or above it. -/
def inheritsFrom (t : ClassTable) (c a : ClassId) : Bool := (t.chain c).contains a

/-- Whether a selector calls a block: `value`, or keywords of which each is
    `value` or empty, starting with `value`. -/
def isBlockInvocation (t : ClassTable) (s : Selector) : Bool :=
  let name := (t.selectorName s).toList
  let value := "value".toList
  name = value || (value ++ [':']).isPrefixOf name && (Text.pieces ':' name).all fun p =>
    p = [] || p = value

/-! ## Changes -/

/-- A selector for this name, new if the name is. -/
def intern (t : ClassTable) (name : String) : ClassTable × Selector :=
  match t.selector? name with
  | some s => (t, s)
  | none => ({ t with selectors := t.selectors ++ [name] }, ⟨t.selectors.length⟩)

/-- A class of this name: the existing one, or a new one. -/
def defineClass (t : ClassTable) (name : String) (superclass : Option ClassId) :
    ClassTable × ClassId :=
  match t.classNamed? name with
  | some c => (t, c)
  | none => ({ t with classes := t.classes ++ [⟨name, superclass, []⟩] }, ⟨t.classes.length⟩)

/-- The methods after `m` was replaced. -/
def supersede (methods : List Method) (m : MethodId) : List Method :=
  methods.modify m.index fun e => { e with superseded := true }

/-- A method of class `c`, in place of the one it had for the same selector. -/
def addMethod (t : ClassTable) (c : ClassId) (d : Draft) : Except Fault (ClassTable × MethodId) :=
  match t.class? c with
  | none => .error (.unknown .cls c.index)
  | some e =>
    let id : MethodId := ⟨t.methods.length⟩
    let older := match e.method? d.selector with
      | some old => supersede t.methods old
      | none => t.methods
    .ok ({ t with
      classes := t.classes.set c.index (e.install d.selector id)
      methods := older ++ [d.finish id c none] }, id)

/-- A block written in `home`; no dictionary knows it. -/
def addBlock (t : ClassTable) (home : MethodId) (d : Draft) :
    Except Fault (ClassTable × MethodId) := do
  let h ← t.method home
  let id : MethodId := ⟨t.methods.length⟩
  return ({ t with methods := t.methods ++ [d.finish id h.holder (some home)] }, id)

/-- All classes and methods. -/
def roots (t : ClassTable) : List Root :=
  (List.range t.classes.length).map (fun i => .cls ⟨i⟩) ++ t.methods.map fun m => .method m.id

end ClassTable

end Warmup
