import Ferric.CType.Basic
import Ferric.Syntax.Kind

/-!
# The syntax tree

A node of the tree that a front end delivers for one C source, and the questions asked of
it.  Two nodes are the same node when they stand at the same position; a declaration that the front
end lists twice is recognised by its entity key.

## Main definitions

* `Node`: the tree.
* `Position`, `Node.at?`, `Node.located`: where a node stands.
* `Node.core`: an expression without the parentheses and conversions around it.
* `Located.sameEntity`: whether two nodes declare the same thing.
-/

namespace Ferric

/-- A place in a source. -/
structure Location where
  file : Option String := none
  line : Nat := 0
  column : Nat := 0
deriving DecidableEq, Repr, Inhabited

/-- The place as `file:line:column`. -/
def Location.render (l : Location) : String :=
  l.file.getD "<unknown>" ++ ":" ++ toString l.line ++ ":" ++ toString l.column

/-- **A syntax node**. -/
structure Node where
  kind : Kind
  /-- The declared or referenced name, or the text of a literal. -/
  spelling : String := ""
  type : CType := .void
  children : List Node := []
  /-- Source tokens, kept for literals, operators written as words and `for` headers. -/
  tokens : List String := []
  /-- The value the front end computed for an enumerator. -/
  value : Option Int := none
  inSystemHeader : Bool := false
  /-- The key of the declared entity; empty when there is none. -/
  usr : String := ""
  location : Location := default

instance : Inhabited Node := ⟨{ kind := .unit }⟩

/-- The way from the root to a node: the index of a child at each step. -/
abbrev Position := List Nat

namespace Node

/-- The child with a given index. -/
def child? (n : Node) (i : Nat) : Option Node :=
  n.children[i]?

def findChild? (n : Node) (kind : Kind) : Option Node :=
  n.children.find? fun c => c.kind == kind

def functionBody? (n : Node) : Option Node :=
  if n.kind == .functionDecl then n.findChild? .compoundStmt else none

/-- The node at a position below this one. -/
def at? : Node → Position → Option Node
  | n, [] => some n
  | n, i :: rest => (n.child? i).bind fun c => c.at? rest

mutual

/-- The expression inside parentheses and conversions; each of them holds it as its last child. -/
def core : Node → Node
  | n@⟨kind, _, _, children, _, _, _, _, _⟩ =>
    if kind.isWrapper then coreOfLast n children else n

/-- The core of the last of some nodes, or a given node when there are none. -/
def coreOfLast (outer : Node) : List Node → Node
  | [] => outer
  | [c] => c.core
  | _ :: d :: ds => coreOfLast outer (d :: ds)

end

mutual

/-- The node and everything below it, parents first. -/
def walk : Node → List Node
  | n@⟨_, _, _, children, _, _, _, _, _⟩ => n :: walkAll children

/-- Some nodes and everything below them. -/
def walkAll : List Node → List Node
  | [] => []
  | c :: cs => c.walk ++ walkAll cs

end

end Node

/-- A node together with its position in the tree it belongs to. -/
structure Located where
  position : Position
  node : Node

mutual

/-- The node at a position and everything below it with its positions, parents first. -/
def Node.located (position : Position) : Node → List Located
  | n@⟨_, _, _, children, _, _, _, _, _⟩ =>
    ⟨position, n⟩ :: Node.locatedAll position 0 children

/-- The children of the node at a position, from the index `i` on, with everything below them. -/
def Node.locatedAll (position : Position) (i : Nat) : List Node → List Located
  | [] => []
  | c :: cs => c.located (position ++ [i]) ++ Node.locatedAll position (i + 1) cs

end

/-- Whether two nodes of one tree declare the same entity: they are one node, or they are of one
kind and carry the same key. -/
def Located.sameEntity (a b : Located) : Bool :=
  a.position == b.position ||
    (a.node.usr != "" && a.node.kind == b.node.kind && a.node.usr == b.node.usr)

end Ferric
