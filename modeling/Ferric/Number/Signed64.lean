/-!
# Whole numbers of 64 bits

Reading signed whole numbers in a given base, and the range they must stay in.

## Main definitions

* `Signed64.holds`: the numbers that fit.
* `Signed64.read?`: one optional sign, then digits, refused when the value does not fit.
-/

namespace Ferric

/-- The value of a digit in a base of at most thirty-six; letters of either case follow the nine. -/
def digitValue? (base : Nat) (c : Char) : Option Nat :=
  let value? :=
    if '0' ≤ c && c ≤ '9' then some (c.toNat - '0'.toNat)
    else if 'a' ≤ c && c ≤ 'z' then some (c.toNat - 'a'.toNat + 10)
    else if 'A' ≤ c && c ≤ 'Z' then some (c.toNat - 'A'.toNat + 10)
    else none
  value?.filter (· < base)

/-- The value of digits read after the value `n`. -/
def digitsValueFrom? (base : Nat) : Nat → List Char → Option Nat
  | n, [] => some n
  | n, c :: cs => (digitValue? base c).bind fun d => digitsValueFrom? base (n * base + d) cs

def digitsValue? (base : Nat) : List Char → Option Nat
  | [] => none
  | cs => digitsValueFrom? base 0 cs

namespace Signed64

/-- The least number of 64 bits. -/
def least : Int := -9223372036854775808

/-- The greatest number of 64 bits. -/
def greatest : Int := 9223372036854775807

/-- Whether a number fits into 64 bits. -/
def holds (i : Int) : Bool :=
  least ≤ i && i ≤ greatest

/-- The nearest number that fits. -/
def clamp (i : Int) : Int :=
  if i < least then least else if greatest < i then greatest else i

/-- Read one optional sign and at least one digit; a value that does not fit is refused. -/
def read? (base : Nat) (cs : List Char) : Option Int :=
  let value? : Option Int :=
    match cs with
    | '-' :: digits => (digitsValue? base digits).map fun n => -(n : Int)
    | '+' :: digits => (digitsValue? base digits).map fun n => (n : Int)
    | digits => (digitsValue? base digits).map fun n => (n : Int)
  value?.filter holds

example : read? 10 "+12".toList = some 12 ∧ read? 16 "-fF".toList = some (-255) ∧
    read? 10 "-".toList = none ∧ read? 10 "9223372036854775808".toList = none := by decide

end Signed64

/-- **Arithmetic out of range**: the two steps of a run that may leave 64 bits, each of which ends
the run. -/
inductive Overflow where
  /-- The value after the greatest number was asked for. -/
  | increment
  /-- The least number was negated. -/
  | negation
deriving DecidableEq, Repr

/-- What is said when a run ends for it. -/
def Overflow.message : Overflow → String
  | .increment => "attempt to add with overflow"
  | .negation => "attempt to negate with overflow"

namespace Signed64

def next (i : Int) : Except Overflow Int :=
  if i = greatest then .error .increment else .ok (i + 1)

/-- The number of opposite sign. -/
def negate (i : Int) : Except Overflow Int :=
  if i = least then .error .negation else .ok (-i)

end Signed64

end Ferric
