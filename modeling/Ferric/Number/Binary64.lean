/-!
# Binary fractions of 64 bits

Numbers `± significand · 2 ^ exponent` with at most 53 binary digits: the nearest one to a decimal
number, its whole part, and the fewest decimal digits that read back as it.

All of it is exact arithmetic on natural numbers.

## Main definitions

* `Binary64.ofDecimal`: the nearest number, ties to the even significand.
* `Binary64.truncate`: the whole part, toward zero.
* `Binary64.shortest`: the fewest digits inside the interval of numbers that round to it.
* `Binary64.positional`: those digits written out without an exponent, or `inf`.
-/

namespace Ferric

/-- A binary fraction `± significand · 2 ^ exponent`. -/
structure Binary64 where
  negative : Bool
  significand : Nat
  exponent : Int
deriving DecidableEq, Repr

namespace Binary64

/-- `num / den` rounded to the nearest whole number, a tie to the even one. -/
def roundDiv (num den : Nat) : Nat :=
  let whole := num / den
  let twice := 2 * (num % den)
  if twice < den then whole
  else if den < twice then whole + 1
  else if whole % 2 = 0 then whole else whole + 1

/-- The pair `(num · 2 ^ i, den)` as a fraction of natural numbers, also for negative `i`. -/
def scale2 (num den : Nat) (i : Int) : Nat × Nat :=
  match i with
  | .ofNat n => (num * Nat.pow 2 n, den)
  | .negSucc n => (num, den * Nat.pow 2 (n + 1))

def leastExponent : Int := -1074

def greatestExponent : Int := 971

/-- Whether a number is beyond the greatest one, and so stands for infinity. -/
def isInfinite (x : Binary64) : Bool :=
  greatestExponent < x.exponent

/-- The nearest number to the positive fraction `num / den`. -/
def ofFraction (negative : Bool) (num den : Nat) : Binary64 :=
  let estimate : Int := max leastExponent ((num.log2 : Int) - den.log2 - 52)
  let scaled (q : Int) : Nat × Nat := scale2 num den (-q)
  let (n, d) := scaled estimate
  -- The estimate is at most one too high.
  let q := if n < Nat.pow 2 52 * d && leastExponent < estimate then estimate - 1 else estimate
  let (n, d) := scaled q
  let m := roundDiv n d
  if m = Nat.pow 2 53 then ⟨negative, Nat.pow 2 52, q + 1⟩ else ⟨negative, m, q⟩

/-- The nearest number to `± digits · 10 ^ exponent`. -/
def ofDecimal (negative : Bool) (digits : Nat) (exponent : Int) : Binary64 :=
  if digits = 0 then ⟨negative, 0, 0⟩
  else match exponent with
    | .ofNat n => ofFraction negative (digits * Nat.pow 10 n) 1
    | .negSucc n => ofFraction negative digits (Nat.pow 10 (n + 1))

/-- The whole part, toward zero. -/
def truncate (x : Binary64) : Int :=
  let (n, d) := scale2 x.significand 1 x.exponent
  if x.negative then -((n / d : Nat) : Int) else ((n / d : Nat) : Int)

/-- How often a fraction below one has to be multiplied by ten to reach one, with a bound on the
search. -/
def tensBelow (num den : Nat) : Nat → Nat
  | 0 => 0
  | bound + 1 => if den ≤ num then 0 else tensBelow (num * 10) den bound + 1

/-- The decimal exponent of the first digit of a positive fraction. -/
def decimalExponent (num den : Nat) : Int :=
  if den ≤ num then ((Nat.toDigits 10 (num / den)).length : Int) - 1
  else -(tensBelow num den 400 : Int)

/-- The interval of fractions that round to a number, over a common denominator: its value, the
two ends, the denominator, and whether the ends belong to it. -/
structure Neighbourhood where
  value : Nat
  low : Nat
  high : Nat
  den : Nat
  closed : Bool

/-- The interval of fractions that round to `m · 2 ^ q`. -/
def neighbourhood (m : Nat) (q : Int) : Neighbourhood :=
  let below := if m = Nat.pow 2 52 && leastExponent < q then 1 else 2
  let grow (n : Nat) : Nat := (scale2 n 1 (q - 2)).1
  { value := grow (4 * m)
    low := grow (4 * m - below)
    high := grow (4 * m + 2)
    den := (scale2 1 1 (q - 2)).2
    closed := m % 2 = 0 }

/-- Whether the decimal `d · 10 ^ k` lies in the interval. -/
def Neighbourhood.contains (i : Neighbourhood) (d : Nat) (k : Int) : Bool :=
  let (l, h, x) : Nat × Nat × Nat :=
    match k with
    | .ofNat n => (i.low, i.high, d * Nat.pow 10 n * i.den)
    | .negSucc n => (i.low * Nat.pow 10 (n + 1), i.high * Nat.pow 10 (n + 1), d * i.den)
  if i.closed then l ≤ x && x ≤ h else l < x && x < h

/-- The candidate with a given number of digits: the nearer of the two neighbours on that decimal
grid that lie in the interval, the upper one at a tie. -/
def candidate? (i : Neighbourhood) (first : Int) (count : Nat) : Option (Nat × Int) :=
  let k : Int := first - count + 1
  let (n, d) : Nat × Nat :=
    match k with
    | .ofNat e => (i.value, i.den * Nat.pow 10 e)
    | .negSucc e => (i.value * Nat.pow 10 (e + 1), i.den)
  let down := n / d
  let nearerUp := d ≤ 2 * (n % d)
  match i.contains down k, i.contains (down + 1) k with
  | true, true => some (if nearerUp then down + 1 else down, k)
  | true, false => some (down, k)
  | false, true => some (down + 1, k)
  | false, false => none

/-- **The fewest digits that read back**: digits `d` and an exponent `k` with `d · 10 ^ k` nearest
to the number among the shortest decimals that round to it. -/
def shortest (x : Binary64) : Nat × Int :=
  let i := neighbourhood x.significand x.exponent
  let first := decimalExponent i.value i.den
  ((List.range 17).findSome? fun n => candidate? i first (n + 1)).getD (0, 0)

/-- `digits · 10 ^ k` written out without an exponent, and without a point when it is whole. -/
def writeOut (digits : Nat) (k : Int) : String :=
  let ds := Nat.toDigits 10 digits
  match k with
  | .ofNat n => String.ofList (ds ++ List.replicate n '0')
  | .negSucc n =>
    let places := n + 1
    let padded := List.replicate (places + 1 - ds.length) '0' ++ ds
    let whole := padded.take (padded.length - places)
    let fraction := padded.drop (padded.length - places)
    let trimmed := (fraction.reverse.dropWhile (· == '0')).reverse
    String.ofList (if trimmed.isEmpty then whole else whole ++ '.' :: trimmed)

/-- The number in positional notation, with the fewest digits that read back. -/
def positional (x : Binary64) : String :=
  let sign := if x.negative then "-" else ""
  if x.significand = 0 then sign ++ "0"
  else if x.isInfinite then sign ++ "inf"
  else
    let (d, k) := x.shortest
    sign ++ writeOut d k

end Binary64

end Ferric
