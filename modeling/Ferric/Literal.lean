import Ferric.Number.Signed64
import Ferric.Text.Blank

/-!
# Literals

The spellings of C constants as Rust literals, and the value of a C integer constant.

## Main definitions

* `Literal.integer`: suffixes dropped, octal constants in their Rust form.
* `Literal.floating`: a digit on both sides of the point, the suffix as a type.
* `Literal.character`, `Literal.string`: width marks dropped.
* `Literal.integerValue`: the value of an integer constant, with a sign and parentheses.
-/

namespace Ferric

namespace Chars

/-- Whether a character is a width or sign suffix of integer constants. -/
def isIntegerSuffix (c : Char) : Bool :=
  c == 'u' || c == 'U' || c == 'l' || c == 'L'

/-- An integer constant without its suffixes; an octal one in the target's form. -/
def integerLiteral (token : List Char) : List Char :=
  match dropEndWhile isIntegerSuffix token with
  | [] => ['0']
  | ['0'] => ['0']
  | '0' :: digits =>
    if digits.all Char.isDigit then '0' :: 'o' :: digits else '0' :: digits
  | digits => digits

/-- Put a zero between a point and the exponent letter after it, at the first such place. -/
def splitPoint (letter : Char) : List Char → Option (List Char)
  | [] => none
  | '.' :: c :: cs =>
    if c == letter then some ('.' :: '0' :: c :: cs)
    else (splitPoint letter (c :: cs)).map ('.' :: ·)
  | c :: cs => (splitPoint letter cs).map (c :: ·)

/-- A decimal mantissa and exponent with digits on both sides of the point. -/
def completedPoint (body : List Char) : List Char :=
  let body := if body.getLast? == some '.' then body ++ ['0'] else body
  let body := if body.head? == some '.' then '0' :: body else body
  ((splitPoint 'e' body).or (splitPoint 'E' body)).getD body

/-- Whether a constant is written in base sixteen. -/
def isHexadecimal : List Char → Bool
  | '0' :: 'x' :: _ => true
  | '0' :: 'X' :: _ => true
  | _ => false

/-- A floating constant in the target's form. -/
def floatingLiteral (token : List Char) : List Char :=
  let single :=
    !isHexadecimal token && (token.getLast? == some 'f' || token.getLast? == some 'F')
  if single then completedPoint token.dropLast ++ ['f', '3', '2']
  else completedPoint (dropEndWhile (fun c => c == 'l' || c == 'L') token)

/-- Whether a character marks the width of a character or string constant. -/
def isWidthMark (c : Char) : Bool :=
  c == 'L' || c == 'u' || c == 'U'

/-- What stands between two apostrophes, if the text is enclosed in them. -/
def unquoted? : List Char → Option (List Char)
  | '\'' :: cs => if cs.getLast? == some '\'' then some cs.dropLast else none
  | _ => none

/-- A character constant in the target's form; nothing at all is the zero character. -/
def characterLiteral (token : List Char) : List Char :=
  let bare := token.dropWhile isWidthMark
  let content := (unquoted? bare).getD bare
  if content == [] || content == ['\x00'] || content == ['\\', '0'] then ['\'', '\\', '0', '\'']
  else '\'' :: content ++ ['\'']

def stringMarks : List (List Char) :=
  [['u', '8'], ['L'], ['u'], ['U']]

/-- A string constant without its width mark. -/
def stringLiteral (spelling : List Char) : List Char :=
  let unmarked? := stringMarks.findSome? fun mark =>
    (mark.isPrefixOf? spelling).filter fun rest => rest.head? == some '"'
  unmarked?.getD spelling

/-- What stands between one pair of parentheses, if the text starts and ends with them. -/
def parenthesized? : List Char → Option (List Char)
  | '(' :: cs => if cs.getLast? == some ')' then some cs.dropLast else none
  | _ => none

/-- The value of an unsigned constant: base sixteen after `0x`, base eight after `0o` or a leading
zero, else base ten. -/
def magnitude? (digits : List Char) : Option Int :=
  match digits with
  | '0' :: 'x' :: hex => Signed64.read? 16 hex
  | '0' :: 'X' :: hex => Signed64.read? 16 hex
  | '0' :: 'o' :: octal => Signed64.read? 8 octal
  | '0' :: c :: cs => Signed64.read? 8 (c :: cs)
  | _ => Signed64.read? 10 digits

/-- The value of an integer constant, possibly in parentheses and with a minus sign. -/
def integerValue (text : List Char) : Except Overflow (Option Int) :=
  let text := trim text
  let text := trim ((parenthesized? text).getD text)
  match text with
  | '-' :: rest =>
    match magnitude? (dropEndWhile isIntegerSuffix (trim rest)) with
    | some value => (Signed64.negate value).map some
    | none => .ok none
  | _ => .ok (magnitude? (dropEndWhile isIntegerSuffix text))

end Chars

namespace Literal

/-- An integer constant as a Rust literal. -/
def integer : String → String :=
  Text.onChars Chars.integerLiteral

/-- A floating constant as a Rust literal. -/
def floating : String → String :=
  Text.onChars Chars.floatingLiteral

/-- A character constant as a Rust literal. -/
def character : String → String :=
  Text.onChars Chars.characterLiteral

/-- A string constant as a Rust literal. -/
def string : String → String :=
  Text.onChars Chars.stringLiteral

/-- The value of an integer constant as written in C, if it is one and fits. -/
def integerValue (text : String) : Except Overflow (Option Int) :=
  Chars.integerValue text.toList

end Literal

end Ferric
