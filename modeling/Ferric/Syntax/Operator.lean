/-!
# Operators

The binary and unary operators of C expressions.  An operator is spelled alike in C and in the
emitted text.
-/

namespace Ferric

/-- Arithmetic, bitwise and shift operators: those that may be joined with an assignment. -/
inductive Arithmetic where
  | add | sub | mul | div | rem | and | or | xor | shl | shr
deriving DecidableEq, Repr

inductive Comparison where
  | eq | ne | lt | le | gt | ge
deriving DecidableEq, Repr

/-- Logical operators. -/
inductive Connective where
  | and | or
deriving DecidableEq, Repr

/-- Binary operators. -/
inductive BinaryOp where
  | arithmetic (op : Arithmetic)
  | comparison (op : Comparison)
  | logical (op : Connective)
  /-- An assignment, plain or joined with an operator. -/
  | assign (op : Option Arithmetic)
  | comma
deriving DecidableEq, Repr

/-- Unary operators. -/
inductive UnaryOp where
  | preInc | preDec | postInc | postDec
  | addrOf | deref
  | plus | minus
  /-- The bitwise complement. -/
  | not
  /-- The logical negation. -/
  | lnot
  /-- Any other operator written with a word. -/
  | other
deriving DecidableEq, Repr

namespace Arithmetic

/-- The operator's token. -/
def spelling : Arithmetic → String
  | .add => "+"
  | .sub => "-"
  | .mul => "*"
  | .div => "/"
  | .rem => "%"
  | .and => "&"
  | .or => "|"
  | .xor => "^"
  | .shl => "<<"
  | .shr => ">>"

/-- The operator's name. -/
def label : Arithmetic → String
  | .add => "Add"
  | .sub => "Sub"
  | .mul => "Mul"
  | .div => "Div"
  | .rem => "Rem"
  | .and => "And"
  | .or => "Or"
  | .xor => "Xor"
  | .shl => "Shl"
  | .shr => "Shr"

/-- Every operator. -/
def all : List Arithmetic :=
  [.add, .sub, .mul, .div, .rem, .and, .or, .xor, .shl, .shr]

end Arithmetic

namespace Comparison

/-- The operator's token. -/
def spelling : Comparison → String
  | .eq => "=="
  | .ne => "!="
  | .lt => "<"
  | .le => "<="
  | .gt => ">"
  | .ge => ">="

/-- The operator's name. -/
def label : Comparison → String
  | .eq => "Eq"
  | .ne => "Ne"
  | .lt => "Lt"
  | .le => "Le"
  | .gt => "Gt"
  | .ge => "Ge"

/-- Every operator. -/
def all : List Comparison :=
  [.eq, .ne, .lt, .le, .gt, .ge]

end Comparison

namespace BinaryOp

/-- The operator's token. -/
def spelling : BinaryOp → String
  | .arithmetic op => op.spelling
  | .comparison op => op.spelling
  | .logical .and => "&&"
  | .logical .or => "||"
  | .assign none => "="
  | .assign (some op) => op.spelling ++ "="
  | .comma => ","

/-- The operator's name. -/
def label : BinaryOp → String
  | .arithmetic op => op.label
  | .comparison op => op.label
  | .logical .and => "LAnd"
  | .logical .or => "LOr"
  | .assign none => "Assign"
  | .assign (some op) => op.label ++ "Assign"
  | .comma => "Comma"

/-- Every operator. -/
def all : List BinaryOp :=
  Arithmetic.all.map .arithmetic ++ Comparison.all.map .comparison ++
    [.logical .and, .logical .or, .assign none] ++
    Arithmetic.all.map (fun op => .assign (some op)) ++ [.comma]

/-- Whether the operator changes its left operand. -/
def isAssignment : BinaryOp → Bool
  | .assign _ => true
  | _ => false

/-- Whether the operator compares its operands. -/
def isComparison : BinaryOp → Bool
  | .comparison _ => true
  | _ => false

/-- Whether the operator joins truth values. -/
def isLogical : BinaryOp → Bool
  | .logical _ => true
  | _ => false

/-- Whether the result is a truth value already. -/
def yieldsBool (op : BinaryOp) : Bool :=
  op.isComparison || op.isLogical

/-- The operator with a given name. -/
def ofLabel? (label : String) : Option BinaryOp :=
  all.find? fun op => op.label == label

end BinaryOp

namespace UnaryOp

/-- The operator's name. -/
def label : UnaryOp → String
  | .preInc => "PreInc"
  | .preDec => "PreDec"
  | .postInc => "PostInc"
  | .postDec => "PostDec"
  | .addrOf => "AddrOf"
  | .deref => "Deref"
  | .plus => "Plus"
  | .minus => "Minus"
  | .not => "Not"
  | .lnot => "LNot"
  | .other => "Other"

/-- Every operator. -/
def all : List UnaryOp :=
  [.preInc, .preDec, .postInc, .postDec, .addrOf, .deref, .plus, .minus, .not, .lnot, .other]

/-- Whether the operator is written before its operand. -/
def standsBefore : UnaryOp → Bool
  | .postInc | .postDec => false
  | _ => true

/-- The operator with a given name. -/
def ofLabel? (label : String) : Option UnaryOp :=
  all.find? fun op => op.label == label

end UnaryOp

end Ferric
