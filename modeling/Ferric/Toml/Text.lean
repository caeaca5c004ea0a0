import Ferric.Number.Signed64

/-!
# Blanks, strings and keys of TOML

The smallest parts of a document.  What is left of the text is a list of characters; each reader
gives what it read with the rest, or none when the text is no such part.

## Main definitions

* `Toml.lineEnd?`: what may follow on a line, up to its end.
* `Toml.readString?`: the four forms of strings.
* `Toml.readKey?`: keys with dots.
-/

namespace Ferric

namespace Toml

/-- Blanks inside a line. -/
def isSpace (c : Char) : Bool :=
  c == ' ' || c == '\t'

/-- Characters that may stand for themselves in a comment or a string: no controls but the tab. -/
def isPlain (c : Char) : Bool :=
  c == '\t' || (0x20 ≤ c.toNat && c.toNat != 0x7F)

/-- Drop the blanks of the line. -/
def skipSpace (cs : List Char) : List Char :=
  cs.dropWhile isSpace

/-- Drop a comment, if one starts here. -/
def skipComment (cs : List Char) : List Char :=
  match cs with
  | '#' :: rest => rest.dropWhile isPlain
  | _ => cs

/-- What follows a line break. -/
def afterBreak? : List Char → Option (List Char)
  | '\n' :: cs => some cs
  | '\r' :: '\n' :: cs => some cs
  | _ => none

/-- What follows the end of the line, which may hold blanks and a comment before it. -/
def lineEnd? (cs : List Char) : Option (List Char) :=
  match skipComment (skipSpace cs) with
  | [] => some []
  | rest => afterBreak? rest

/-- Drop blanks, comments and line breaks; a comment has to end in a line break. -/
def skipLines : Nat → List Char → List Char
  | 0, cs => cs
  | fuel + 1, cs =>
    match afterBreak? (skipComment (skipSpace cs)) with
    | some rest => skipLines fuel rest
    | none => skipSpace cs

/-- Drop blanks, comments and line breaks. -/
def skipFiller (cs : List Char) : List Char :=
  skipLines cs.length cs

/-! ## Strings -/

/-- The character of a number; the numbers that stand for no character are refused. -/
def scalar? (n : Nat) : Option Char :=
  if n < 0xD800 || (0xE000 ≤ n && n ≤ 0x10FFFF) then some (Char.ofNat n) else none

/-- The character that `count` digits in base sixteen give. -/
def readScalar? (count : Nat) (cs : List Char) : Option (Char × List Char) :=
  let digits := cs.take count
  if digits.length = count then
    ((digitsValue? 16 digits).bind scalar?).map (·, cs.drop count)
  else none

/-- The character of an escape, after its backslash. -/
def readEscape? : List Char → Option (Char × List Char)
  | 'b' :: cs => some ('\x08', cs)
  | 't' :: cs => some ('\t', cs)
  | 'n' :: cs => some ('\n', cs)
  | 'f' :: cs => some ('\x0c', cs)
  | 'r' :: cs => some ('\r', cs)
  | '"' :: cs => some ('"', cs)
  | '\\' :: cs => some ('\\', cs)
  | 'u' :: cs => readScalar? 4 cs
  | 'U' :: cs => readScalar? 8 cs
  | _ => none

/-- The rest of a string of one line after its opening quote.  Escapes are read when `escapes`
holds; `done` has the characters read so far, in reverse. -/
def readLineString? (quote : Char) (escapes : Bool) :
    Nat → List Char → List Char → Option (String × List Char)
  | 0, _, _ => none
  | _ + 1, _, [] => none
  | fuel + 1, done, c :: cs =>
    if c = quote then some (String.ofList done.reverse, cs)
    else if escapes && c = '\\' then
      (readEscape? cs).bind fun (e, rest) => readLineString? quote escapes fuel (e :: done) rest
    else if isPlain c then readLineString? quote escapes fuel (c :: done) cs
    else none

/-- Drop blanks and line breaks; a carriage return alone is neither. -/
def skipBlankLines : List Char → List Char
  | '\n' :: cs => skipBlankLines cs
  | '\r' :: '\n' :: cs => skipBlankLines cs
  | c :: cs => if isSpace c then skipBlankLines cs else c :: cs
  | [] => []

/-- What follows a backslash at the end of a line: the text after all blanks and line breaks. -/
def afterFold? (cs : List Char) : Option (List Char) :=
  (afterBreak? (skipSpace cs)).map skipBlankLines

/-- The rest of a string of several lines after its opening quotes and the line break that may
follow them.  It ends at three quotes; one or two more before them belong to it. -/
def readTextString? (quote : Char) (escapes : Bool) :
    Nat → List Char → List Char → Option (String × List Char)
  | 0, _, _ => none
  | _ + 1, _, [] => none
  | fuel + 1, done, c :: cs =>
    if c = quote then
      let quotes := (c :: cs).takeWhile (· == quote)
      if 3 ≤ quotes.length then
        let kept := min (quotes.length - 3) 2
        some (String.ofList (done.reverse ++ List.replicate kept quote), (c :: cs).drop (kept + 3))
      else readTextString? quote escapes fuel (c :: done) cs
    else match afterBreak? (c :: cs) with
      | some rest => readTextString? quote escapes fuel ('\n' :: done) rest
      | none =>
        if escapes && c = '\\' then
          match afterFold? cs with
          | some rest => readTextString? quote escapes fuel done rest
          | none =>
            (readEscape? cs).bind fun (e, rest) =>
              readTextString? quote escapes fuel (e :: done) rest
        else if isPlain c then readTextString? quote escapes fuel (c :: done) cs
        else none

/-- **A string**: between single quotes as it stands, between double quotes with escapes, and
between three quotes of either kind over several lines. -/
def readString? (cs : List Char) : Option (String × List Char) :=
  match cs with
  | a :: b :: c :: rest =>
    if (a = '"' || a = '\'') && b = a && c = a then
      readTextString? a (a = '"') (rest.length + 1) [] ((afterBreak? rest).getD rest)
    else if a = '"' || a = '\'' then
      readLineString? a (a = '"') cs.length [] (b :: c :: rest)
    else none
  | a :: rest => if a = '"' || a = '\'' then readLineString? a (a = '"') cs.length [] rest else none
  | [] => none

/-! ## Keys -/

/-- Characters of a key without quotes. -/
def isBare (c : Char) : Bool :=
  c.isAlphanum || c == '_' || c == '-'

def readKeyPart? (cs : List Char) : Option (String × List Char) :=
  match cs with
  | '"' :: rest => readLineString? '"' true cs.length [] rest
  | '\'' :: rest => readLineString? '\'' false cs.length [] rest
  | _ =>
    let part := cs.takeWhile isBare
    if part.isEmpty then none else some (String.ofList part, cs.dropWhile isBare)

/-- A key of at most `limit` parts with dots and blanks between them. -/
def readKeyParts? : Nat → List Char → Option (List String × List Char)
  | 0, _ => none
  | limit + 1, cs =>
    (readKeyPart? (skipSpace cs)).bind fun (part, rest) =>
      match skipSpace rest with
      | '.' :: rest => (readKeyParts? limit rest).map fun (parts, rest) => (part :: parts, rest)
      | rest => some ([part], rest)

/-- How many lists and tables may stand inside each other, and how many parts a key may have. -/
def depthLimit : Nat := 79

/-- **A key**: its parts, at least one. -/
def readKey? (cs : List Char) : Option (List String × List Char) :=
  readKeyParts? depthLimit cs

end Toml

end Ferric
