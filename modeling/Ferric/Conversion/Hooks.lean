import Ferric.Output.Buffers
import Ferric.Syntax.Node

/-!
# Hooks

A conversion can be observed, and its result changed at two places: the text of a global before its
storage class is put in front, and the buffers before they are handed out.  The observer keeps a
state of its own.
-/

namespace Ferric

/-- The observer of a conversion, with a state `σ`. -/
structure Hooks (σ : Type) where
  /-- Sees a global's text, and gives the text to go on with. -/
  onGlobal : Node → String → σ → String × σ
  /-- Sees the name and the parameters of a function whose header was written. -/
  onFunction : String → List String → σ → σ
  /-- Sees the buffers after all passes, and gives those to hand out. -/
  beforeClose : Output → σ → Output × σ

/-- No observer. -/
def Hooks.none : Hooks Unit where
  onGlobal := fun _ text s => (text, s)
  onFunction := fun _ _ s => s
  beforeClose := fun output s => (output, s)

end Ferric
