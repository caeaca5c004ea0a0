import Ferric.FrontEnd.RawType
import Ferric.Number.Binary64
import Ferric.Syntax.Node

/-!
# Cursors

The tree that a front end delivers: each cursor is known by the name of its kind and answers what it
is asked, whether or not the answer makes sense for its kind.  Lowering asks each cursor what
belongs to its kind and makes a syntax node of the answers.

## Main definitions

* `Cursor`: the delivered tree.
* `Cursor.lower`: its syntax tree.
* `headerTokens`: the tokens of a `for` statement up to the end of its header.
-/

namespace Ferric.FrontEnd

/-- The value that the front end computed for an expression. -/
structure Evaluation where
  whole : Int
  fraction : Binary64
deriving DecidableEq, Repr

/-- **A cursor** with its answers. -/
structure Cursor where
  kind : String
  spelling : String := ""
  type : RawType := .other ""
  isConst : Bool := false
  /-- The type that a typedef stands for. -/
  underlying : RawType := .other ""
  isExtern : Bool := false
  binaryOp : String := ""
  unaryOp : String := ""
  tokens : List String := []
  evaluation : Option Evaluation := none
  value : Int := 0
  /-- The key of the declared entity. -/
  usr : String := ""
  inSystemHeader : Bool := false
  location : Location := {}
  children : List Cursor := []

/-- The front end's name of a binary operator; comparisons are in capitals. -/
def operatorName : BinaryOp → String
  | .comparison .eq => "EQ"
  | .comparison .ne => "NE"
  | .comparison .lt => "LT"
  | .comparison .le => "LE"
  | .comparison .gt => "GT"
  | .comparison .ge => "GE"
  | op => op.label

/-- The binary operator of a name; the operators that C does not have count as the comma. -/
def binaryOpOfName (name : String) : BinaryOp :=
  (BinaryOp.all.find? fun op => operatorName op == name).getD .comma

def unaryOpOfName (name : String) : UnaryOp :=
  (UnaryOp.ofLabel? name).getD .other

/-- Whether a text occurs in another one. -/
def occursIn (part : List Char) : List Char → Bool
  | [] => part.isEmpty
  | c :: cs => part.isPrefixOf (c :: cs) || occursIn part cs

/-- Whether the spelling of a tag is made up by the front end, which has several ways to do so. -/
def isAnonymous (spelling : String) : Bool :=
  spelling == "" || occursIn "(unnamed".toList spelling.toList ||
    occursIn "(anonymous".toList spelling.toList

/-- Whether a token starts like a number. -/
def isNumeric (token : String) : Bool :=
  match token.toList with
  | c :: _ => ('0' ≤ c && c ≤ '9') || c == '.'
  | [] => false

/-- The tokens up to the parenthesis that brings the depth of open ones back to none. -/
def upToClosing? : Nat → List String → Option (List String)
  | _, [] => none
  | depth, token :: rest =>
    if token = "(" then (upToClosing? (depth + 1) rest).map (token :: ·)
    else if token = ")" then
      if depth - 1 = 0 then some [token] else (upToClosing? (depth - 1) rest).map (token :: ·)
    else (upToClosing? depth rest).map (token :: ·)

/-- **The tokens of a `for` statement up to the end of its header**; all of them when the header
does not end. -/
def headerTokens (tokens : List String) : List String :=
  (upToClosing? 0 tokens).getD tokens

namespace Cursor

def nodeKind (c : Cursor) : Kind :=
  match c.kind with
  | "VarDecl" => .varDecl c.isConst c.isExtern
  | "BinaryOperator" => .binaryOperator (binaryOpOfName c.binaryOp)
  | "CompoundAssignOperator" => .compoundAssignOperator (binaryOpOfName c.binaryOp)
  | "UnaryOperator" => .unaryOperator (unaryOpOfName c.unaryOp)
  | name => (Kind.ofName? name).getD (.unknown name)

def nodeType (c : Cursor) (kind : Kind) : CType :=
  match kind with
  | .typedefDecl => c.underlying.lower
  | .unit => .void
  | _ => c.type.lower

/-- The spelling of the node: tags without a name of their own have none. -/
def nodeSpelling (c : Cursor) (kind : Kind) : String :=
  match kind with
  | .structDecl | .unionDecl | .enumDecl => if isAnonymous c.spelling then "" else c.spelling
  | _ => c.spelling

/-- The tokens of a number.  Where they come from a definition, its value stands for them. -/
def numberTokens (c : Cursor) (render : Evaluation → String) : List String :=
  if c.tokens.head?.any isNumeric then c.tokens
  else match c.evaluation with
    | some value => [render value]
    | none => c.tokens

def nodeTokens (c : Cursor) (kind : Kind) : List String :=
  match kind with
  | .integerLiteral => c.numberTokens fun value => toString value.whole
  | .floatingLiteral => c.numberTokens fun value => value.fraction.positional
  | .characterLiteral | .unaryExpr => c.tokens
  | .forStmt => headerTokens c.tokens
  | _ => []

def nodeValue (c : Cursor) (kind : Kind) : Option Int :=
  match kind with
  | .enumConstantDecl => some c.value
  | _ => none

/-- The key of the node, for declarations that can be repeated. -/
def nodeKey (c : Cursor) (kind : Kind) : String :=
  match kind with
  | .structDecl | .unionDecl | .enumDecl | .typedefDecl | .functionDecl | .varDecl _ _ => c.usr
  | _ => ""

def node (c : Cursor) (children : List Node) : Node :=
  let kind := c.nodeKind
  { kind
    spelling := c.nodeSpelling kind
    type := c.nodeType kind
    children
    tokens := c.nodeTokens kind
    value := c.nodeValue kind
    inSystemHeader := c.inSystemHeader
    usr := c.nodeKey kind
    location := c.location }

mutual

/-- **The syntax tree of a cursor.** -/
def lower : Cursor → Node
  | c@⟨_, _, _, _, _, _, _, _, _, _, _, _, _, _, children⟩ => c.node (lowerAll children)

/-- The syntax trees of some cursors. -/
def lowerAll : List Cursor → List Node
  | [] => []
  | c :: cs => lower c :: lowerAll cs

end

@[simp] theorem lowerAll_eq_map (cs : List Cursor) : lowerAll cs = cs.map lower := by
  induction cs with
  | nil => rfl
  | cons c cs ih => simp [lowerAll, ih]

theorem lower_eq (c : Cursor) : c.lower = c.node (c.children.map lower) := by
  cases c
  simp [lower]

end Cursor

end Ferric.FrontEnd
