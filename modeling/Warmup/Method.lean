import Warmup.Word

/-!
# Methods

The machine needs little of a method: what it costs to inline, and which
messages it sends to what. A body is a list of instructions, and the position
of an instruction is its `Bci`. A block is a method with a *home*, the method
it is written in.

A `Draft` is a method on its way into a class table: it has no identity yet,
and its sends get their positions when it is finished (`Draft.finish`).
-/

namespace Warmup

/-- Where the receiver or an argument of a send comes from. -/
inductive Operand
  /-- The receiver of the enclosing method. -/
  | self
  /-- An argument of the enclosing method. -/
  | arg (i : Nat)
  /-- A literal of a known class. -/
  | literal (c : ClassId)
  /-- A block literal. -/
  | block (m : MethodId)
  /-- Anything else. -/
  | unknown
  deriving DecidableEq

/-- A message send in a method body. -/
structure SendSite where
  bci : Bci
  selector : Selector
  receiver : Operand
  args : List Operand
  /-- The lookup starts above the class that holds the method. -/
  isSuper : Bool
  deriving DecidableEq

/-- The number of arguments that are block literals. -/
def SendSite.blockArgs (s : SendSite) : Nat :=
  s.args.countP fun a => match a with | .block _ => true | _ => false

/-- An instruction of a method body. -/
inductive Instr
  /-- Straight-line work of some cost. -/
  | work (cost : Nat)
  | send (site : SendSite)
  | ret
  deriving DecidableEq

/-- The cost of a send. -/
def sendCost : Nat := 4

/-- The cost of a return. -/
def returnCost : Nat := 1

/-- The cost of an instruction. -/
def Instr.cost : Instr → Nat
  | work cost => cost
  | send _ => sendCost
  | ret => returnCost

/-- What the programmer says about inlining a method. -/
inductive InlineHint
  | unspecified
  | always
  | never
  deriving DecidableEq

/-- The word for a hint. -/
def InlineHint.name : InlineHint → String
  | unspecified => "default"
  | always => "always"
  | never => "never"

/-- A method or block. -/
structure Method where
  id : MethodId
  selector : Selector
  /-- The class that defines it. -/
  holder : ClassId
  /-- The method a block is written in. -/
  home : Option MethodId
  hint : InlineHint
  argCount : Nat
  body : List Instr
  /-- A newer definition has replaced it. -/
  superseded : Bool
  deriving DecidableEq

namespace Method

/-- The cost of the whole body, as a number of 32 bits. -/
def cost (m : Method) : Except Fault Nat := Word.fit 32 ((m.body.map Instr.cost).foldr (· + ·) 0)

/-- Whether it is a block. -/
def isBlock (m : Method) : Bool := m.home.isSome

/-- The sends of the body, in order. -/
def sends (m : Method) : List SendSite :=
  m.body.filterMap fun i => match i with | .send s => some s | _ => none

/-- The send at position `bci`. -/
def sendAt? (m : Method) (bci : Bci) : Option SendSite := m.sends.find? (·.bci = bci)

end Method

/-! ## Drafts -/

namespace Draft

/-- A step of a draft. -/
inductive Step
  | work (cost : Nat)
  | send (selector : Selector) (receiver : Operand) (args : List Operand)
  | superSend (selector : Selector) (args : List Operand)

/-- The instruction of a step that stands at position `bci`. -/
def Step.place (bci : Bci) : Step → Instr
  | work cost => .work cost
  | send selector receiver args => .send ⟨bci, selector, receiver, args, false⟩
  | superSend selector args => .send ⟨bci, selector, .self, args, true⟩

end Draft

/-- A method without an identity. -/
structure Draft where
  selector : Selector
  argCount : Nat := 0
  hint : InlineHint := .unspecified
  steps : List Draft.Step := []

namespace Draft

/-- The body of a draft: its steps at their positions, and a return. -/
def body (d : Draft) : List Instr := d.steps.mapIdx Step.place ++ [.ret]

/-- The method that a draft becomes. -/
def finish (d : Draft) (id : MethodId) (holder : ClassId) (home : Option MethodId) : Method where
  id := id
  selector := d.selector
  holder := holder
  home := home
  hint := d.hint
  argCount := d.argCount
  body := d.body
  superseded := false

end Draft

end Warmup
