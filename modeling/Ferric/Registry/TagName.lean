import Ferric.Registry.Basic
import Ferric.Syntax.Node

/-!
# Names of structs, unions and enumerations

A tag that is declared without a name takes the name of the first typedef, variable or field that
follows it in the enclosing scope and whose type refers to it, through pointers and arrays.

## Main definitions

* `Visit`, `Node.visits`: the nodes outside of system headers with the nodes around them.
* `Visit.tagName`: the name of a tag.
-/

namespace Ferric

/-- A node with the nodes around it, the nearest first. -/
structure Visit where
  subject : Located
  ancestors : List Located

mutual

/-- The visits of a node and of everything below it, parents first; system headers are left out. -/
def Node.visitsFrom (ancestors : List Located) (position : Position) : Node → List Visit
  | n@⟨_, _, _, children, _, _, sys, _, _⟩ =>
    if sys then []
    else ⟨⟨position, n⟩, ancestors⟩ ::
      Node.visitsFromAll (⟨position, n⟩ :: ancestors) position 0 children

def Node.visitsFromAll (ancestors : List Located) (position : Position) (i : Nat) :
    List Node → List Visit
  | [] => []
  | c :: cs =>
    c.visitsFrom ancestors (position ++ [i]) ++ Node.visitsFromAll ancestors position (i + 1) cs

end

/-- **The nodes outside of system headers**, parents first. -/
def Node.visits (root : Node) : List Visit :=
  root.visitsFrom [] []

/-- The visit of the node at a position, with the nodes passed on the way to it; nothing is left
out. -/
def Node.visitAt? (root : Node) (position : Position) : Option Visit :=
  let passed := (List.range position.length).filterMap fun i =>
    (root.at? (position.take i)).map fun n => (⟨position.take i, n⟩ : Located)
  (root.at? position).map fun n => ⟨⟨position, n⟩, passed.reverse⟩

/-- The key by which types of the same sort as `tag` refer to a tag. -/
def tagKey? (tag : Kind) (type : CType) : Option String :=
  match tag with
  | .enumDecl => type.enum?
  | _ => type.record?

/-- The declarations that may lend their name to an anonymous tag. -/
def Kind.lendsName : Kind → Bool
  | .typedefDecl | .varDecl _ _ | .fieldDecl => true
  | _ => false

namespace Visit

/-- Whether a node lends its name to the tag of this visit, which has the given key. -/
def isNamedBy (v : Visit) (key : String) (candidate : Located) : Bool :=
  !candidate.sameEntity v.subject && candidate.node.kind.lendsName &&
    candidate.node.spelling != "" &&
    tagKey? v.subject.node.kind candidate.node.type == some key

/-- The first declaration in a scope after the tag that lends its name. -/
def namedWithin? (v : Visit) (key : String) (scope : Located) : Option Located :=
  let fromTag := (scope.node.located scope.position).dropWhile fun l => !l.sameEntity v.subject
  fromTag.find? (v.isNamedBy key)

/-- **The name of a struct, union or enumeration.** -/
def tagName (v : Visit) : String :=
  let tag := v.subject.node
  if tag.spelling != "" then tag.spelling
  else
    let lender? : Option Located := do
      let key ← tagKey? tag.kind tag.type
      let scope ← v.ancestors.find? (·.node.kind.isScope)
      v.namedWithin? key scope
    match lender? with
    | some lender => lender.node.spelling
    | none => placeholderName

end Visit

end Ferric
