import Ferric.Number.Binary64
import Ferric.Number.Signed64
import Ferric.Toml.Basic

/-!
# Numbers and points in time of TOML

Whole numbers in four bases, fractions, dates and times.  A whole number has to fit into 64 bits; a
positive fraction must not be too large for a binary fraction of 64 bits.

## Main definitions

* `Toml.readInteger?`, `Toml.readFraction?`, `Toml.readMoment?`: the three kinds.
* `Toml.readNumber?`: whichever of them stands in front.
-/

namespace Ferric

namespace Toml

/-- The rest of a run of digits in which single underscores may divide two digits; `done` has the
digits read so far, in reverse. -/
def readDigitsFrom? (isDigit : Char → Bool) :
    List Char → List Char → Option (List Char × List Char)
  | done, [] => some (done.reverse, [])
  | done, '_' :: d :: cs => if isDigit d then readDigitsFrom? isDigit (d :: done) cs else none
  | done, c :: cs =>
    if c = '_' then none
    else if isDigit c then readDigitsFrom? isDigit (c :: done) cs
    else some (done.reverse, c :: cs)

/-- A run of digits, at least one, without its underscores. -/
def readDigits? (isDigit : Char → Bool) : List Char → Option (List Char × List Char)
  | c :: cs => if isDigit c then readDigitsFrom? isDigit [c] cs else none
  | [] => none

/-- A sign, if one stands in front: whether it is a minus, and the rest. -/
def readSign : List Char → Bool × List Char
  | '-' :: cs => (true, cs)
  | '+' :: cs => (false, cs)
  | cs => (false, cs)

/-- The digits of a decimal number without needless zeros in front. -/
def readDecimal? : List Char → Option (List Char × List Char)
  | '0' :: cs => some (['0'], cs)
  | cs => readDigits? Char.isDigit cs

/-- A whole number in a base that is not ten, after its mark. -/
def readBased? (base : Nat) (cs : List Char) : Option (Toml × List Char) :=
  (readDigits? (fun c => (digitValue? base c).isSome) cs).bind fun (digits, rest) =>
    (Signed64.read? base digits).map fun i => (.integer i, rest)

/-- A whole number. -/
def readInteger? : List Char → Option (Toml × List Char)
  | '0' :: 'x' :: cs => readBased? 16 cs
  | '0' :: 'o' :: cs => readBased? 8 cs
  | '0' :: 'b' :: cs => readBased? 2 cs
  | cs =>
    let (negative, cs) := readSign cs
    (readDecimal? cs).bind fun (digits, rest) =>
      (Signed64.read? 10 (if negative then '-' :: digits else digits)).map fun i =>
        (.integer i, rest)

/-! ## Fractions -/

/-- Whether `digits · 10 ^ exponent` is too large for a binary fraction of 64 bits.  The number of
digits settles all but a narrow band. -/
def isTooLarge (digits : Nat) (exponent : Int) : Bool :=
  let size : Int := (Nat.toDigits 10 digits).length + exponent
  if digits = 0 || size < 300 then false
  else if 310 < size then true
  else (Binary64.ofDecimal false digits exponent).isInfinite

/-- The digits after a point. -/
def readPlaces? : List Char → Option (List Char × List Char)
  | '.' :: cs => readDigits? Char.isDigit cs
  | cs => some ([], cs)

def readExponent? (cs : List Char) : Option (Option Int × List Char) :=
  match cs with
  | c :: rest =>
    if c = 'e' || c = 'E' then
      let (negative, rest) := readSign rest
      (readDigits? Char.isDigit rest).bind fun (digits, rest) =>
        (digitsValue? 10 digits).map fun n => (some (if negative then -(n : Int) else n), rest)
    else some (none, cs)
  | [] => some (none, [])

/-- What was read of `cs` when `rest` is left. -/
def lexeme (cs rest : List Char) : String :=
  String.ofList (cs.take (cs.length - rest.length))

/-- A fraction: decimal digits with a point, an exponent, or both. -/
def readFraction? (cs : List Char) : Option (Toml × List Char) := do
  let (negative, body) := readSign cs
  match body with
  | 'i' :: 'n' :: 'f' :: rest => some (.fraction (lexeme cs rest), rest)
  | 'n' :: 'a' :: 'n' :: rest => some (.fraction (lexeme cs rest), rest)
  | _ =>
    let (whole, rest) ← readDecimal? body
    let (places, rest) ← readPlaces? rest
    let (exponent?, rest) ← readExponent? rest
    let digits ← digitsValue? 10 (whole ++ places)
    if places.isEmpty && exponent?.isNone then none
    else if !negative && isTooLarge digits (exponent?.getD 0 - places.length) then none
    else some (.fraction (lexeme cs rest), rest)

/-! ## Points in time -/

/-- A number of exactly `count` decimal digits within bounds. -/
def readField? (count low high : Nat) (cs : List Char) : Option (Nat × List Char) :=
  let digits := cs.take count
  if digits.length = count && digits.all Char.isDigit then
    ((digitsValue? 10 digits).filter fun n => low ≤ n && n ≤ high).map (·, cs.drop count)
  else none

/-- A character that has to follow. -/
def expect? (c : Char) : List Char → Option (List Char)
  | d :: cs => if d = c then some cs else none
  | [] => none

def daysOfMonth (year month : Nat) : Nat :=
  if month = 2 then
    if year % 4 = 0 && (year % 100 != 0 || year % 400 = 0) then 29 else 28
  else if month = 4 || month = 6 || month = 9 || month = 11 then 30
  else 31

def readDate? (cs : List Char) : Option (List Char) := do
  let (year, cs) ← readField? 4 0 9999 cs
  let cs ← expect? '-' cs
  let (month, cs) ← readField? 2 1 12 cs
  let cs ← expect? '-' cs
  let (_, cs) ← readField? 2 1 (daysOfMonth year month) cs
  some cs

/-- The decimal places of a second, if there are any. -/
def skipPlaces : List Char → List Char
  | '.' :: c :: cs => if c.isDigit then cs.dropWhile Char.isDigit else '.' :: c :: cs
  | cs => cs

/-- A time of the day. -/
def readClock? (cs : List Char) : Option (List Char) := do
  let (_, cs) ← readField? 2 0 23 cs
  let cs ← expect? ':' cs
  let (_, cs) ← readField? 2 0 59 cs
  let cs ← expect? ':' cs
  let (_, cs) ← readField? 2 0 60 cs
  some (skipPlaces cs)

/-- The distance from universal time. -/
def readOffset? (cs : List Char) : Option (List Char) :=
  match cs with
  | c :: rest =>
    if c = 'Z' || c = 'z' then some rest
    else if c = '+' || c = '-' then do
      let (_, rest) ← readField? 2 0 23 rest
      let rest ← expect? ':' rest
      let (_, rest) ← readField? 2 0 59 rest
      some rest
    else none
  | [] => none

/-- The time after a date, with its distance from universal time; none of it has to be there. -/
def skipClock (cs : List Char) : List Char :=
  match cs with
  | c :: rest =>
    if c = 'T' || c = 't' || c = ' ' then
      match readClock? rest with
      | some rest => (readOffset? rest).getD rest
      | none => cs
    else cs
  | [] => []

/-- A point in time: a date, a date with a time, or a time. -/
def readMoment? (cs : List Char) : Option (Toml × List Char) :=
  (((readDate? cs).map skipClock).or (readClock? cs)).map fun rest =>
    (.moment (lexeme cs rest), rest)

/-- A point in time, a fraction or a whole number, whichever reads the text first. -/
def readNumber? (cs : List Char) : Option (Toml × List Char) :=
  ((readMoment? cs).or (readFraction? cs)).or (readInteger? cs)

end Toml

end Ferric
