import Warmup.FeedbackTree

/-!
# Receiver estimates

What the compiler believes about the receiver class of a send that it does not
know: some classes, and how likely any other one is. Feedback gives an estimate
(`Estimate.ofFeedback`); without it, some selectors give one by themselves
(`Estimate.predict`).
-/

namespace Warmup

/-- How likely a class is that an estimate does not name. -/
inductive Likelihood
  /-- Never seen. -/
  | untaken
  /-- All classes seen are named. -/
  | unlikely
  | likely
  deriving DecidableEq

/-- The word for a likelihood. -/
def Likelihood.name : Likelihood → String
  | untaken => "Untaken"
  | unlikely => "Unlikely"
  | likely => "Likely"

/-- The receiver classes that are expected at a send. -/
structure Estimate where
  classes : List ClassId := []
  /-- How likely any other class is. -/
  others : Likelihood := .likely
  deriving DecidableEq

namespace Estimate

/-- Arithmetic and comparison. -/
def arithmetic : List String := ["+", "-", "*", "/", "//", "\\\\", "<", "<=", ">", ">=", "=", "~="]

/-- Indexed access. -/
def indexing : List String := ["at:", "at:put:", "size"]

/-- Conditionals and connectives. -/
def boolean : List String :=
  ["ifTrue:", "ifFalse:", "ifTrue:ifFalse:", "ifFalse:ifTrue:", "and:", "or:", "not"]

/-- The receiver classes that a selector suggests. -/
def predict (c : ClassTable) (s : Selector) : Option Estimate :=
  let name := c.selectorName s
  if arithmetic.contains name then some ⟨[.smallInteger], .likely⟩
  else if indexing.contains name then some ⟨[.array], .likely⟩
  else if boolean.contains name then some ⟨[.trueClass, .falseClass], .unlikely⟩
  else none

/-- The receiver classes seen at a send, if the feedback says anything about
    it. -/
def ofFeedback (t : FeedbackTree) (s : ScopeId) (bci : Bci) : Option Estimate :=
  let classes := t.classes s bci
  if t.isUntaken s bci then some ⟨classes, .untaken⟩
  else if classes.isEmpty then none
  else some ⟨classes, if t.isComplete s bci then .unlikely else .likely⟩

end Estimate

end Warmup
