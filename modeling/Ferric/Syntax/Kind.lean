import Ferric.Syntax.Operator
import Ferric.Text.Inspect

/-!
# Kinds of syntax nodes

What a node of the syntax tree is: a declaration, a reference, a statement or an expression.  The
kinds that the library does not model keep the front end's name for them.
-/

namespace Ferric

/-- The kind of a syntax node. -/
inductive Kind where
  /-- The root: one C source with the headers it includes. -/
  | unit
  -- declarations
  | structDecl
  | unionDecl
  | enumDecl
  | enumConstantDecl
  | fieldDecl
  /-- A function; the node's type is the function type. -/
  | functionDecl
  | parmDecl
  /-- A variable: whether the object itself is constant, and whether it is declared `extern`. -/
  | varDecl (isConst isExtern : Bool)
  /-- A typedef; the node's type is the underlying type. -/
  | typedefDecl
  -- references
  | typeRef
  | labelRef
  -- statements
  | compoundStmt
  | declStmt
  | returnStmt
  | ifStmt
  | whileStmt
  | doStmt
  | forStmt
  | switchStmt
  | caseStmt
  | defaultStmt
  | breakStmt
  | continueStmt
  | gotoStmt
  | labelStmt
  | nullStmt
  -- expressions
  | integerLiteral
  | floatingLiteral
  | characterLiteral
  | stringLiteral
  | declRefExpr
  | memberRefExpr
  | callExpr
  | binaryOperator (op : BinaryOp)
  | compoundAssignOperator (op : BinaryOp)
  | unaryOperator (op : UnaryOp)
  /-- An operator written as a word, such as `sizeof`; its tokens are kept. -/
  | unaryExpr
  | arraySubscriptExpr
  | conditionalOperator
  | parenExpr
  | cStyleCastExpr
  /-- Implicit conversions and other wrappers. -/
  | unexposedExpr
  | initListExpr
  /-- Anything else, by the front end's name. -/
  | unknown (name : String)
deriving DecidableEq, Repr

namespace Kind

/-- The name of a kind, without what belongs to the single node. -/
def name : Kind → String
  | .unit => "TranslationUnit"
  | .structDecl => "StructDecl"
  | .unionDecl => "UnionDecl"
  | .enumDecl => "EnumDecl"
  | .enumConstantDecl => "EnumConstantDecl"
  | .fieldDecl => "FieldDecl"
  | .functionDecl => "FunctionDecl"
  | .parmDecl => "ParmDecl"
  | .varDecl _ _ => "VarDecl"
  | .typedefDecl => "TypedefDecl"
  | .typeRef => "TypeRef"
  | .labelRef => "LabelRef"
  | .compoundStmt => "CompoundStmt"
  | .declStmt => "DeclStmt"
  | .returnStmt => "ReturnStmt"
  | .ifStmt => "IfStmt"
  | .whileStmt => "WhileStmt"
  | .doStmt => "DoStmt"
  | .forStmt => "ForStmt"
  | .switchStmt => "SwitchStmt"
  | .caseStmt => "CaseStmt"
  | .defaultStmt => "DefaultStmt"
  | .breakStmt => "BreakStmt"
  | .continueStmt => "ContinueStmt"
  | .gotoStmt => "GotoStmt"
  | .labelStmt => "LabelStmt"
  | .nullStmt => "NullStmt"
  | .integerLiteral => "IntegerLiteral"
  | .floatingLiteral => "FloatingLiteral"
  | .characterLiteral => "CharacterLiteral"
  | .stringLiteral => "StringLiteral"
  | .declRefExpr => "DeclRefExpr"
  | .memberRefExpr => "MemberRefExpr"
  | .callExpr => "CallExpr"
  | .binaryOperator _ => "BinaryOperator"
  | .compoundAssignOperator _ => "CompoundAssignOperator"
  | .unaryOperator _ => "UnaryOperator"
  | .unaryExpr => "UnaryExpr"
  | .arraySubscriptExpr => "ArraySubscriptExpr"
  | .conditionalOperator => "ConditionalOperator"
  | .parenExpr => "ParenExpr"
  | .cStyleCastExpr => "CStyleCastExpr"
  | .unexposedExpr => "UnexposedExpr"
  | .initListExpr => "InitListExpr"
  | .unknown _ => "Unknown"

/-- The kinds that are told by their name alone. -/
def plain : List Kind :=
  [.unit, .structDecl, .unionDecl, .enumDecl, .enumConstantDecl, .fieldDecl,
    .functionDecl, .parmDecl, .typedefDecl, .typeRef, .labelRef, .compoundStmt, .declStmt,
    .returnStmt, .ifStmt, .whileStmt, .doStmt, .forStmt, .switchStmt, .caseStmt, .defaultStmt,
    .breakStmt, .continueStmt, .gotoStmt, .labelStmt, .nullStmt, .integerLiteral,
    .floatingLiteral, .characterLiteral, .stringLiteral, .declRefExpr, .memberRefExpr, .callExpr,
    .unaryExpr, .arraySubscriptExpr, .conditionalOperator, .parenExpr, .cStyleCastExpr,
    .unexposedExpr, .initListExpr]

def ofName? (name : String) : Option Kind :=
  plain.find? fun k => k.name == name

/-- A kind as messages and outlines show it. -/
def inspect (k : Kind) : String :=
  match k with
  | .varDecl isConst isExtern =>
    Text.inspectRecord k.name
      [("is_const", Text.inspectBool isConst), ("is_extern", Text.inspectBool isExtern)]
  | .binaryOperator op | .compoundAssignOperator op => k.name ++ "(" ++ op.label ++ ")"
  | .unaryOperator op => k.name ++ "(" ++ op.label ++ ")"
  | .unknown name => k.name ++ "(" ++ Text.quoted name ++ ")"
  | _ => k.name

/-- A struct or a union. -/
def isRecord : Kind → Bool
  | .structDecl | .unionDecl => true
  | _ => false

/-- The scopes that a tag declaration may belong to. -/
def isScope : Kind → Bool
  | .unit | .structDecl | .unionDecl | .functionDecl => true
  | _ => false

/-- Parentheses and conversions: what stands around an expression without being an operator. -/
def isWrapper : Kind → Bool
  | .parenExpr | .unexposedExpr | .cStyleCastExpr => true
  | _ => false

end Kind

end Ferric
