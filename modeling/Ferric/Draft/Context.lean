import Ferric.CType.Basic

/-!
# The context of a text

What the text of a node depends on besides the node and the registry: the pass that asks for it,
the function and the loops and switches around it.
-/

namespace Ferric

/-- The pass over the declarations that a text is composed for. -/
inductive Phase where
  | enums | globals | records | functions
deriving DecidableEq, Repr

/-- **The context of a text.** -/
structure Context where
  result : CType := .void
  switchDepth : Nat := 0
  phase : Phase := .functions
  /-- The statements that have to run before a `continue`. -/
  loopStep : Option String := none
  /-- The label that a `break` leaves through. -/
  breakLabel : Option String := none

namespace Context

/-- The context of a declaration in one of the passes. -/
def ofPhase (phase : Phase) : Context :=
  { phase }

def ofFunction (result : CType) : Context :=
  { result }

/-- Inside a loop: `continue` runs `step` first, and `break` leaves the loop. -/
def inLoop (ctx : Context) (step : Option String) : Context :=
  { ctx with loopStep := step, breakLabel := none }

/-- Inside a switch: `break` leaves through the label, if there is one. -/
def inSwitch (ctx : Context) (label : Option String) : Context :=
  { ctx with switchDepth := ctx.switchDepth + 1, breakLabel := label }

/-- The digits that tell nested switches apart; the outermost one has none. -/
def switchSuffix (ctx : Context) : String :=
  if ctx.switchDepth = 0 then "" else toString ctx.switchDepth

end Context

end Ferric
