import Ferric.Draft.Expression
import Ferric.Draft.Statement
import Ferric.Literal

/-!
# Composing drafts

The text of every kind of node, and with it the draft of a tree.

## Main definitions

* `Draft.compose`: the text of a node, given the drafts of its children.
* `Draft.ofNode`: the draft of a tree.
* `Node.emit`, `Node.emitExpression`, `Node.emitStatements`: the text of a node.

## Main results

* `Draft.text_ofNode`: the text of a node is composed from the drafts of its children.
-/

namespace Ferric

namespace Draft

/-- **The text of a node**, given the drafts of its children.  Declarations that have a pass of
their own have no text here. -/
def compose (reg : Registry) (n : Node) (parts : List Draft) (ctx : Context) : Logged String :=
  match n.kind with
  | .unit => lastText parts ctx
  | .structDecl | .unionDecl | .enumDecl | .typedefDecl | .functionDecl | .parmDecl => pure ""
  | .enumConstantDecl => firstExpression parts ctx
  | .fieldDecl => pure (sanitize n.spelling ++ ": " ++ reg.renderType n.type)
  | .varDecl _ _ => varDeclaration reg n parts ctx
  | .typeRef => pure (reg.renderType n.type)
  | .labelRef => pure n.spelling
  | .compoundStmt => Fragment.block <$> statementsOf parts ctx
  | .declStmt => declarations parts ctx
  | .returnStmt => returnStatement parts ctx
  | .ifStmt => ifStatement parts ctx
  | .whileStmt => whileLoop parts ctx
  | .doStmt => doLoop parts ctx
  | .forStmt => forLoop n parts ctx
  | .switchStmt => switchStatement parts ctx
  | .caseStmt | .defaultStmt => strayLabel n parts ctx
  | .breakStmt => pure (breakText ctx)
  | .continueStmt => pure (continueText ctx)
  | .gotoStmt => gotoStatement n
  | .labelStmt => labelStatement n parts ctx
  | .nullStmt => pure ""
  | .integerLiteral => pure (Literal.integer n.firstToken)
  | .floatingLiteral => pure (Literal.floating n.firstToken)
  | .characterLiteral => pure (Literal.character n.firstToken)
  | .stringLiteral => pure (Literal.string n.spelling)
  | .declRefExpr => pure (reference reg n)
  | .memberRefExpr => member n parts ctx
  | .callExpr => call reg n parts ctx
  | .binaryOperator op | .compoundAssignOperator op => binary op parts ctx
  | .unaryOperator op => unary op parts ctx
  | .unaryExpr => pure (wordOperator reg n)
  | .arraySubscriptExpr => subscript parts ctx
  | .conditionalOperator => conditional parts ctx
  | .parenExpr => parenthesized parts ctx
  | .cStyleCastExpr | .unexposedExpr =>
    (Fragment.nullIfZero · n.type) <$> lastText parts ctx
  | .initListExpr => initList reg n parts ctx
  | .unknown name => do
    Logged.debug ("passing through unhandled " ++ name ++ " at " ++ n.location.render)
    lastText parts ctx

mutual

/-- **The draft of a tree.** -/
def ofNode (reg : Registry) : Node → Draft
  | n@⟨_, _, _, children, _, _, _, _, _⟩ =>
    let parts := ofNodes reg children
    ⟨n, compose reg n parts, parts⟩

/-- The drafts of several trees. -/
def ofNodes (reg : Registry) : List Node → List Draft
  | [] => []
  | c :: cs => ofNode reg c :: ofNodes reg cs

end

@[simp] theorem ofNodes_eq_map (reg : Registry) (ns : List Node) :
    ofNodes reg ns = ns.map (ofNode reg) := by
  induction ns with
  | nil => rfl
  | cons n ns ih => simp [ofNodes, ih]

@[simp] theorem node_ofNode (reg : Registry) (n : Node) : (ofNode reg n).node = n := by
  cases n
  rfl

@[simp] theorem parts_ofNode (reg : Registry) (n : Node) :
    (ofNode reg n).parts = n.children.map (ofNode reg) := by
  cases n
  simp [ofNode]

theorem text_ofNode (reg : Registry) (n : Node) :
    (ofNode reg n).text = compose reg n (n.children.map (ofNode reg)) := by
  cases n
  simp [ofNode]

end Draft

namespace Node

def emit (reg : Registry) (n : Node) (ctx : Context) : Logged String :=
  (Draft.ofNode reg n).text ctx

/-- The text of a node used for its value. -/
def emitExpression (reg : Registry) (n : Node) (ctx : Context) : Logged String :=
  (Draft.ofNode reg n).expression ctx

def emitStatements (reg : Registry) (n : Node) (ctx : Context) : Logged (List String) :=
  (Draft.ofNode reg n).statements ctx

end Node

end Ferric
