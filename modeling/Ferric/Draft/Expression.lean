import Ferric.CType.Spelling
import Ferric.Draft.Basic
import Ferric.Registry.Basic
import Ferric.ZeroValue

/-!
# Texts of expressions

How the texts of operands become the text of an expression.  Casts are dropped, since the target
types carry them; taking an address and following a pointer stay implicit; a pointer plus a number
is an element of what it points to.

## Main definitions

* `Draft.call`: calls, with the callee under its emitted name.
* `Draft.binary`, `Draft.unary`: operators.
* `Draft.wordOperator`: `sizeof` and its kin.
* `Draft.initList`: the values of records and arrays.
-/

namespace Ferric

/-- The token of a literal, or its spelling when no token is kept. -/
def Node.firstToken (n : Node) : String :=
  n.tokens.head?.getD n.spelling

/-- The words of a type name in parentheses: everything between the first parenthesis and the one
that closes it. -/
def typeNameWords (depth : Nat) : List String → List String
  | [] => []
  | token :: rest =>
    if token = "(" then
      if depth = 0 then typeNameWords 1 rest else token :: typeNameWords (depth + 1) rest
    else if token = ")" then
      if depth ≤ 1 then [] else token :: typeNameWords (depth - 1) rest
    else token :: typeNameWords depth rest

/-- The type named by the tokens of an operator on a type name, such as `sizeof ( int )`. -/
def CType.ofTokens (tokens : List String) : CType :=
  CType.ofSpelling (Text.joined " " (typeNameWords 0 (tokens.drop 1)))

namespace Draft

/-! ## Names and calls -/

/-- The text of a reference: a function that is known has its emitted name. -/
def reference (reg : Registry) (n : Node) : String :=
  match if n.type.isFunction then reg.function? n.spelling else none with
  | some function => function.targetName
  | none => sanitize n.spelling

def member (n : Node) (parts : List Draft) (ctx : Context) : Logged String := do
  let base ← firstExpression parts ctx
  let field := sanitize n.spelling
  pure (if base == "" then field else base ++ "." ++ field)

/-- The texts of arguments, given the types of the parameters that are known. -/
def argumentTexts (ctx : Context) : List CType → List Draft → Logged (List String)
  | _, [] => pure []
  | [], d :: ds => do
    let text ← d.expression ctx
    let rest ← argumentTexts ctx [] ds
    pure (text :: rest)
  | t :: ts, d :: ds => do
    let text ← d.expression ctx
    let rest ← argumentTexts ctx ts ds
    pure (Fragment.nullIfZero text t :: rest)

/-- The text of a call: the first part is the callee. -/
def call (reg : Registry) (n : Node) (parts : List Draft) (ctx : Context) : Logged String :=
  match parts with
  | [] => pure (sanitize n.spelling)
  | callee :: args => do
    let calleeText ← callee.expression ctx
    let function? := reg.resolveFunction? (Fragment.ungrouped calleeText)
    let name := (function?.map (·.targetName)).getD calleeText
    let types := (function?.map fun f => f.arguments.map (·.2)).getD []
    let texts ← argumentTexts ctx types args
    pure (name ++ "(" ++ Text.joined ", " texts ++ ")")

/-! ## Operators -/

/-- The text of a binary operator on two operands whose texts are known. -/
def binaryText (op : BinaryOp) (lhs rhs : Node) (a b : String) : String :=
  match op with
  | .arithmetic .add =>
    if lhs.type.isPointer then a ++ "[" ++ b ++ "]"
    else if rhs.type.isPointer then b ++ "[" ++ a ++ "]"
    else a ++ " " ++ op.spelling ++ " " ++ b
  | .arithmetic _ | .comma => a ++ " " ++ op.spelling ++ " " ++ b
  | .comparison _ =>
    Fragment.nullIfZero a rhs.type ++ " " ++ op.spelling ++ " " ++
      Fragment.nullIfZero b lhs.type
  | .logical _ => lhs.materialize a ++ " " ++ op.spelling ++ " " ++ rhs.materialize b
  | .assign none => a ++ " " ++ op.spelling ++ " " ++ Fragment.nullIfZero b lhs.type ++ ";"
  | .assign (some _) => a ++ " " ++ op.spelling ++ " " ++ b ++ ";"

/-- The text of a binary operator.  A comma is a block with the statements of all parts. -/
def binary (op : BinaryOp) (parts : List Draft) (ctx : Context) : Logged String :=
  match parts with
  | lhs :: rhs :: _ =>
    match op with
    | .comma => do
      let statements ← statementsOf parts ctx
      pure ("\x7b " ++ Text.joined " " statements ++ " \x7d")
    | op => do
      let a ← lhs.expression ctx
      let b ← rhs.expression ctx
      pure (binaryText op lhs.node rhs.node a b)
  | _ => lastText parts ctx

/-- The text of the logical negation of an operand: it is compared with its zero. -/
def negationText (operand : Node) (a : String) : String :=
  if operand.type.isPointer || operand.core.type.isPointer then
    Fragment.grouped a ++ " == " ++ Fragment.nullPointer
  else if operand.yieldsBool then "!" ++ Fragment.grouped a
  else if operand.type.isFloating then Fragment.grouped a ++ " == 0.0"
  else Fragment.grouped a ++ " == 0"

/-- The text of a unary operator on an operand whose text is known. -/
def unaryText (op : UnaryOp) (operand : Node) (a : String) : String :=
  match op with
  | .preInc | .postInc => a ++ " += 1"
  | .preDec | .postDec => a ++ " -= 1"
  | .addrOf | .deref | .plus | .other => a
  | .minus => "-" ++ a
  | .not => "!" ++ a
  | .lnot => negationText operand a

/-- The text of a unary operator. -/
def unary (op : UnaryOp) (parts : List Draft) (ctx : Context) : Logged String :=
  match parts with
  | [] => pure ""
  | operand :: _ => unaryText op operand.node <$> operand.expression ctx

/-- The spellings of the operator that asks for an alignment. -/
def alignmentWords : List String :=
  ["alignof", "_Alignof", "__alignof", "__alignof__"]

/-- The text of an operator written as a word: the size of a type, the alignment, or the tokens as
they are. -/
def wordOperator (reg : Registry) (n : Node) : String :=
  let word := n.tokens.head?.getD "sizeof"
  if word ∈ alignmentWords then "4"
  else if word = "sizeof" then
    let type := match n.children with
      | operand :: _ => operand.type
      | [] => CType.ofTokens n.tokens
    "std::mem::size_of::<" ++ reg.renderType type ++ ">()"
  else String.join n.tokens

/-- The text of an element of an array. -/
def subscript (parts : List Draft) (ctx : Context) : Logged String :=
  match parts with
  | base :: index :: _ => do
    let b ← base.expression ctx
    let i ← index.expression ctx
    pure (b ++ "[" ++ i ++ "]")
  | _ => lastText parts ctx

/-- The text of a conditional expression. -/
def conditional (parts : List Draft) (ctx : Context) : Logged String :=
  match parts with
  | test :: yes :: no :: _ => do
    let c ← test.condition ctx
    let a ← yes.expression ctx
    let b ← no.expression ctx
    pure ("if " ++ c ++ " \x7b " ++ a ++ " \x7d else \x7b " ++ b ++ " \x7d")
  | _ => lastText parts ctx

/-- The text of an expression in parentheses. -/
def parenthesized (parts : List Draft) (ctx : Context) : Logged String := do
  let inner ← firstExpression parts ctx
  pure (if inner == "" then inner else "(" ++ inner ++ ")")

/-! ## Values of records and arrays -/

/-- The texts of the fields of a record; a field without a value is zero. -/
def fieldTexts (reg : Registry) (ctx : Context) : List Field → List Draft → Logged (List String)
  | [], _ => pure []
  | field :: fields, [] => do
    let rest ← fieldTexts reg ctx fields []
    pure ((sanitize field.name ++ ": " ++ zeroValue reg.recordName field.type) :: rest)
  | field :: fields, d :: ds => do
    let text ← d.expression ctx
    let rest ← fieldTexts reg ctx fields ds
    pure ((sanitize field.name ++ ": " ++ Fragment.nullIfZero text field.type) :: rest)

/-- The text of a record with the given values; only the first field of a union has one. -/
def recordValue (reg : Registry) (entry : RecordEntry) (parts : List Draft) (ctx : Context) :
    Logged String := do
  let fields := if entry.isUnion then entry.fields.take 1 else entry.fields
  let texts ← fieldTexts reg ctx fields parts
  pure (entry.targetName ++ " \x7b " ++ Text.joined ", " texts ++ " \x7d")

def elementText (element? : Option CType) (text : String) : String :=
  match element? with
  | some t => Fragment.nullIfZero text t
  | none => text

/-- The zeros that fill up an array of a known size. -/
def fillers (reg : Registry) (type : CType) (count : Nat) : List String :=
  match type with
  | .array element (some size) =>
    List.replicate (size - count) (zeroValue reg.recordName element)
  | _ => []

/-- The text of an array with the given values; the rest of a known size is zero. -/
def arrayValue (reg : Registry) (type : CType) (parts : List Draft) (ctx : Context) :
    Logged String := do
  let texts ← Logged.mapList (fun d => elementText type.element? <$> d.expression ctx) parts
  pure ("[" ++ Text.joined ", " (texts ++ fillers reg type texts.length) ++ "]")

/-- The record with known fields that a type denotes. -/
def definedRecord? (reg : Registry) (type : CType) : Option RecordEntry :=
  match type with
  | .record key => (reg.recordOfKey? key).filter fun entry => !entry.fields.isEmpty
  | _ => none

/-- The text of an initializer list. -/
def initList (reg : Registry) (n : Node) (parts : List Draft) (ctx : Context) : Logged String :=
  match definedRecord? reg n.type with
  | some entry => recordValue reg entry parts ctx
  | none => arrayValue reg n.type parts ctx

end Draft

end Ferric
