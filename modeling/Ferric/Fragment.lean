import Ferric.CType.Basic
import Ferric.Text.Alphanumeric
import Ferric.Text.Lines

/-!
# Fragments of emitted text

Expressions and statements are composed as text.  This module holds the operations on such text:
grouping with parentheses and taking groups away, reading a statement as an expression and the
reverse, and braced blocks.

## Main definitions

* `Chars.isWrapped`, `Chars.isAtom`: texts that need no parentheses around them.
* `Fragment.grouped`, `Fragment.ungrouped`: put a text in parentheses if it needs them, take the
  enclosing ones away.
* `Fragment.asExpression`, `Fragment.asStatement`: without and with the final semicolon.
* `Fragment.block`: statements between braces, one level further in.
* `Fragment.nullIfZero`: a literal zero becomes the null pointer where a pointer is expected.
-/

namespace Ferric

namespace Chars

/-- Read on at a depth of open parentheses: true when they are all closed at the end and the depth
did not come back to zero before it. -/
def closesLast : Nat → List Char → Bool
  | depth, [] => depth == 0
  | depth, '(' :: cs => closesLast (depth + 1) cs
  | depth, ')' :: cs =>
    if depth - 1 == 0 && !cs.isEmpty then false else closesLast (depth - 1) cs
  | depth, _ :: cs => closesLast depth cs

/-- Whether one pair of parentheses encloses the whole text. -/
def isWrapped (cs : List Char) : Bool :=
  cs.head? == some '(' && cs.getLast? == some ')' && closesLast 0 cs

/-- The characters that may stand in an operand outside of brackets. -/
def isOperandChar (c : Char) : Bool :=
  isAlphanumeric c || c == '_' || c == '.' || c == ':'

/-- Read on at a depth of open brackets: outside of them only operand characters may stand. -/
def isAtomFrom : Nat → List Char → Bool
  | _, [] => true
  | depth, c :: cs =>
    if c == '(' || c == '[' then isAtomFrom (depth + 1) cs
    else if c == ')' || c == ']' then isAtomFrom (depth - 1) cs
    else if depth == 0 && !isOperandChar c then false
    else isAtomFrom depth cs

/-- Identifiers, literals, member chains and calls: a single operand. -/
def isAtom (cs : List Char) : Bool :=
  !cs.isEmpty && isAtomFrom 0 cs

/-- Put the text in parentheses unless it is a single operand or has them already. -/
def grouped (cs : List Char) : List Char :=
  let cs := trim cs
  if isAtom cs || isWrapped cs then cs else '(' :: cs ++ [')']

/-- What stands between the first and the last character, without blanks around it. -/
def inner (cs : List Char) : List Char :=
  trim (cs.drop 1).dropLast

theorem length_inner_lt {cs : List Char} (h : isWrapped cs = true) :
    (inner cs).length < cs.length := by
  have nonempty : cs ≠ [] := by
    rintro rfl
    simp [isWrapped] at h
  have bound : (inner cs).length ≤ (cs.drop 1).dropLast.length := length_trim_le _
  have := List.length_pos_iff.2 nonempty
  simp only [List.length_dropLast, List.length_drop] at bound
  omega

/-- Take enclosing parentheses away as long as there are some. -/
def ungroupedFrom (cs : List Char) : List Char :=
  if h : isWrapped cs = true then
    have := length_inner_lt h
    ungroupedFrom (inner cs)
  else cs
termination_by cs.length

/-- Take enclosing parentheses and the blanks around them away. -/
def ungrouped (cs : List Char) : List Char :=
  ungroupedFrom (trim cs)

/-- The text without blanks around it and without the semicolons at its end. -/
def asExpression (cs : List Char) : List Char :=
  trimEnd (dropEndWhile (· == ';') (trim cs))

/-- Whether a statement text needs no semicolon after it. -/
def isTerminated (cs : List Char) : Bool :=
  match cs.getLast? with
  | none => true
  | some c => c == ';' || c == '\x7d'

/-- The text with a semicolon, unless it is empty or ends in one or in a block. -/
def asStatement (cs : List Char) : List Char :=
  let cs := trimEnd cs
  if isTerminated cs then cs else cs ++ [';']

/-- Statements between braces, each line one level further in. -/
def block (statements : List (List Char)) : List Char :=
  '\x7b' :: '\n' :: statements.flatMap (indented 1) ++ ['\x7d']

end Chars

namespace Fragment

def nullPointer : String := "std::ptr::null_mut()"

/-- The text as a single operand. -/
def grouped : String → String :=
  Text.onChars Chars.grouped

/-- The text without enclosing parentheses. -/
def ungrouped : String → String :=
  Text.onChars Chars.ungrouped

/-- The text as an expression: without a final semicolon. -/
def asExpression : String → String :=
  Text.onChars Chars.asExpression

/-- The text as a statement: with a final semicolon unless it ends in a block. -/
def asStatement : String → String :=
  Text.onChars Chars.asStatement

/-- Statements between braces, each line one level further in. -/
def block (statements : List String) : String :=
  String.ofList (Chars.block (statements.map String.toList))

/-- Where a pointer is expected, a literal zero is the null pointer. -/
def nullIfZero (text : String) (expected : CType) : String :=
  if expected.isPointer && ungrouped text == "0" then nullPointer else text

end Fragment

end Ferric
