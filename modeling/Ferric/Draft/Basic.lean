import Ferric.Draft.Context
import Ferric.Fragment
import Ferric.Log
import Ferric.Syntax.Node

/-!
# Drafts

A draft is a node together with the text it has in any context, and with the drafts of its
children.  The text of a node is composed from the drafts of its parts, so that composing is
recursion on the tree and each construct only says how the texts of its parts fit together.

This module holds the ways in which a part is used: as an expression, as a condition, as
statements, as the body of a loop or a branch.

## Main definitions

* `Draft`: a node with its text.
* `Draft.expression`, `Draft.condition`: a part used for its value, and for its truth value.
* `Draft.statements`, `Draft.bodyStatements`: a part in statement position, and as a body.
* `Node.materialize`: a value used as a condition is compared with zero.
-/

namespace Ferric

/-- **A draft**: a node, its text in a context, and the drafts of its children. -/
structure Draft where
  node : Node
  text : Context → Logged String
  parts : List Draft

/-! ## Truth values -/

namespace Node

/-- Whether the value of an expression is a truth value already. -/
def yieldsBool (n : Node) : Bool :=
  match n.core.kind with
  | .binaryOperator op => op.yieldsBool
  | .unaryOperator .lnot => true
  | _ => n.type.isBool || n.core.type.isBool

/-- The type by which a condition is compared with zero. -/
def conditionType (n : Node) : CType :=
  if n.type.isVoid then n.core.type else n.type

/-- **The text of an expression used as a condition**: a number or pointer is compared with its
zero, a truth value stays as it is. -/
def materialize (n : Node) (text : String) : String :=
  if text == "" || n.yieldsBool then text
  else
    let t := n.conditionType
    if t.isPointer || t.isArray then Fragment.grouped text ++ " != " ++ Fragment.nullPointer
    else if t.isFloating then Fragment.grouped text ++ " != 0.0"
    else if t.isInteger then Fragment.grouped text ++ " != 0"
    else text

end Node

namespace Draft

/-! ## Parts in use -/

/-- The text of a part used for its value. -/
def expression (d : Draft) (ctx : Context) : Logged String :=
  Fragment.asExpression <$> d.text ctx

/-- The text of a part used for its truth value. -/
def condition (d : Draft) (ctx : Context) : Logged String :=
  d.node.materialize <$> d.expression ctx

def asStatements (text : String) : List String :=
  let statement := Fragment.asStatement text
  if statement == "" then [] else [statement]

mutual

/-- The statements of a part in statement position; a comma expression is several of them. -/
def statements : Draft → Context → Logged (List String)
  | ⟨node, text, parts⟩, ctx =>
    if node.kind = .binaryOperator .comma then statementsOf parts ctx
    else asStatements <$> text ctx

/-- The statements of several parts in turn. -/
def statementsOf : List Draft → Context → Logged (List String)
  | [], _ => pure []
  | d :: ds, ctx => do
    let first ← d.statements ctx
    let rest ← statementsOf ds ctx
    pure (first ++ rest)

end

/-- The statements of a body; the braces of a compound statement are taken away. -/
def bodyStatements (d : Draft) (ctx : Context) : Logged (List String) :=
  if d.node.kind = .compoundStmt then statementsOf d.parts ctx else d.statements ctx

/-- A body between braces. -/
def branch (d : Draft) (ctx : Context) : Logged String :=
  Fragment.block <$> d.bodyStatements ctx

def lastText (parts : List Draft) (ctx : Context) : Logged String :=
  match parts.getLast? with
  | some d => d.text ctx
  | none => pure ""

/-- The first of some parts used for its value, or nothing. -/
def firstExpression (parts : List Draft) (ctx : Context) : Logged String :=
  match parts.head? with
  | some d => d.expression ctx
  | none => pure ""

end Draft

end Ferric
