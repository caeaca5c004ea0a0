import Ferric.Json.Basic
import Ferric.Number.Signed64

/-!
# Reading JSON

A reader of documents.  What is left of the text is a list of characters; each reader gives what it
read with the rest.  The length of a document bounds its depth and the number of its parts: twice
that length serves as fuel.

## Main definitions

* `Json.parse?`: the value of a text.
-/

namespace Ferric

namespace Json

def skipBlank (cs : List Char) : List Char :=
  cs.dropWhile fun c => c == ' ' || c == '\t' || c == '\n' || c == '\r'

/-- The value of four digits in base sixteen. -/
def readUnit? : List Char → Option (Nat × List Char)
  | a :: b :: c :: d :: cs => (digitsValue? 16 [a, b, c, d]).map (·, cs)
  | _ => none

/-- The character that a letter after a backslash stands for. -/
def simpleEscape? : Char → Option Char
  | '"' => some '"'
  | '\\' => some '\\'
  | '/' => some '/'
  | 'b' => some '\x08'
  | 'f' => some '\x0c'
  | 'n' => some '\n'
  | 'r' => some '\r'
  | 't' => some '\t'
  | _ => none

/-- The character of an escape by number; a character beyond the first plane is given by two
units. -/
def readNumbered? (cs : List Char) : Option (Char × List Char) :=
  (readUnit? cs).bind fun (high, rest) =>
    if 0xD800 ≤ high && high < 0xDC00 then
      match rest with
      | '\\' :: 'u' :: rest =>
        (readUnit? rest).bind fun (low, rest) =>
          if 0xDC00 ≤ low && low < 0xE000 then
            some (Char.ofNat (0x10000 + (high - 0xD800) * 0x400 + (low - 0xDC00)), rest)
          else none
      | _ => none
    else some (Char.ofNat high, rest)

/-- The rest of a string after its opening quote, with the characters read so far in reverse. -/
def readStringFrom? : Nat → List Char → List Char → Option (String × List Char)
  | 0, _, _ => none
  | _, _, [] => none
  | _ + 1, done, '"' :: cs => some (String.ofList done.reverse, cs)
  | fuel + 1, done, '\\' :: 'u' :: cs =>
    (readNumbered? cs).bind fun (c, rest) => readStringFrom? fuel (c :: done) rest
  | fuel + 1, done, '\\' :: e :: cs =>
    (simpleEscape? e).bind fun c => readStringFrom? fuel (c :: done) cs
  | fuel + 1, done, c :: cs => readStringFrom? fuel (c :: done) cs

/-- The leading digits, and the rest. -/
def spanDigits (cs : List Char) : List Char × List Char :=
  cs.span Char.isDigit

/-- The exponent of a number, if one follows. -/
def readExponent? (cs : List Char) : Option (Option Int × List Char) :=
  match cs with
  | c :: rest =>
    if c == 'e' || c == 'E' then
      let (negative, rest) := match rest with
        | '-' :: rest => (true, rest)
        | '+' :: rest => (false, rest)
        | rest => (false, rest)
      let (digits, rest) := spanDigits rest
      (digitsValue? 10 digits).map fun n => (some (if negative then -(n : Int) else n), rest)
    else some (none, cs)
  | [] => some (none, [])

/-- The fraction of a number, if one follows. -/
def readFraction? (cs : List Char) : Option (List Char × List Char) :=
  match cs with
  | '.' :: rest =>
    let (digits, rest) := spanDigits rest
    if digits.isEmpty then none else some (digits, rest)
  | _ => some ([], cs)

def readNumber? (cs : List Char) : Option (Decimal × List Char) := do
  let (negative, rest) := match cs with
    | '-' :: rest => (true, rest)
    | rest => (false, rest)
  let (whole, rest) := spanDigits rest
  if whole.isEmpty then none
  else
    let (fraction, rest) ← readFraction? rest
    let (exponent?, rest) ← readExponent? rest
    let digits ← digitsValue? 10 (whole ++ fraction)
    some (⟨negative, digits, exponent?.getD 0 - fraction.length,
      fraction.isEmpty && exponent?.isNone⟩, rest)

mutual

/-- A value, after blanks. -/
def readValue? : Nat → List Char → Option (Json × List Char)
  | 0, _ => none
  | fuel + 1, cs =>
    match skipBlank cs with
    | 'n' :: 'u' :: 'l' :: 'l' :: rest => some (.null, rest)
    | 't' :: 'r' :: 'u' :: 'e' :: rest => some (.bool true, rest)
    | 'f' :: 'a' :: 'l' :: 's' :: 'e' :: rest => some (.bool false, rest)
    | '"' :: rest =>
      (readStringFrom? fuel [] rest).map fun (s, rest) => (.string s, rest)
    | '[' :: rest =>
      match skipBlank rest with
      | ']' :: rest => some (.array [], rest)
      | rest => (readItems? fuel [] rest).map fun (items, rest) => (.array items, rest)
    | '\x7b' :: rest =>
      match skipBlank rest with
      | '\x7d' :: rest => some (.object [], rest)
      | rest => (readFields? fuel [] rest).map fun (fields, rest) => (.object fields, rest)
    | rest => (readNumber? rest).map fun (d, rest) => (.number d, rest)

/-- The items of a list up to its end, with those read so far in reverse. -/
def readItems? : Nat → List Json → List Char → Option (List Json × List Char)
  | 0, _, _ => none
  | fuel + 1, done, cs =>
    (readValue? fuel cs).bind fun (item, rest) =>
      match skipBlank rest with
      | ',' :: rest => readItems? fuel (item :: done) rest
      | ']' :: rest => some ((item :: done).reverse, rest)
      | _ => none

/-- The fields of an object up to its end, with those read so far in reverse. -/
def readFields? : Nat → List (String × Json) → List Char →
    Option (List (String × Json) × List Char)
  | 0, _, _ => none
  | fuel + 1, done, cs =>
    match skipBlank cs with
    | '"' :: rest =>
      (readStringFrom? fuel [] rest).bind fun (name, rest) =>
        match skipBlank rest with
        | ':' :: rest =>
          (readValue? fuel rest).bind fun (value, rest) =>
            match skipBlank rest with
            | ',' :: rest => readFields? fuel ((name, value) :: done) rest
            | '\x7d' :: rest => some (((name, value) :: done).reverse, rest)
            | _ => none
        | _ => none
    | _ => none

end

/-- **The value of a document.** -/
def parse? (text : String) : Option Json :=
  let cs := text.toList
  (readValue? (2 * cs.length + 2) cs).bind fun (value, rest) =>
    if (skipBlank rest).isEmpty then some value else none

end Json

end Ferric
