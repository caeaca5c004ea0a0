import Ferric.CType.Render
import Ferric.Syntax.Node

/-!
# Outlines

A syntax tree as indented lines, one for each node outside of system headers.
-/

namespace Ferric

namespace Node

/-- The line of a node: its kind, its name if it has one, and its type unless that is `void`. -/
def outlineLine (depth : Nat) (n : Node) : String :=
  String.join (List.replicate depth "  ") ++ n.kind.inspect ++
    (if n.spelling == "" then "" else " " ++ Text.quoted n.spelling) ++
    (if n.type.isVoid then "" else " : " ++ n.type.renderPlain)

mutual

/-- **The outline of a tree** at a depth. -/
def outline (depth : Nat) : Node → List String
  | n@⟨_, _, _, children, _, _, sys, _, _⟩ =>
    if sys then [] else n.outlineLine depth :: outlineAll (depth + 1) children

def outlineAll (depth : Nat) : List Node → List String
  | [] => []
  | c :: cs => c.outline depth ++ outlineAll depth cs

end

end Node

end Ferric
