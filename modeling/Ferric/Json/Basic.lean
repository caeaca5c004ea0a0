import Ferric.Number.Binary64

/-!
# JSON values

The document form in which a front end leaves its answers.  A number keeps its sign, all its digits
and its exponent, so that nothing is lost before it is known what the number is for.
-/

namespace Ferric

/-- A decimal number `± digits · 10 ^ exponent` as it is written. -/
structure Decimal where
  negative : Bool
  digits : Nat
  exponent : Int
  /-- Whether it is written without a fraction and without an exponent. -/
  isWhole : Bool
deriving DecidableEq, Repr

namespace Decimal

/-- The number as a binary fraction. -/
def toBinary (d : Decimal) : Binary64 :=
  Binary64.ofDecimal d.negative d.digits d.exponent

/-- The whole part.  A number with a fraction or an exponent is read as a binary fraction first. -/
def truncate (d : Decimal) : Int :=
  if d.isWhole then (if d.negative then -(d.digits : Int) else d.digits)
  else d.toBinary.truncate

end Decimal

/-- A JSON value; the fields of an object keep their order. -/
inductive Json where
  | null
  | bool (b : Bool)
  | number (d : Decimal)
  | string (s : String)
  | array (items : List Json)
  | object (fields : List (String × Json))
deriving Inhabited

namespace Json

/-- The value of a field; a field that is missing is null. -/
def field (j : Json) (name : String) : Json :=
  match j with
  | .object fields => (fields.lookup name).getD .null
  | _ => .null

def isNull : Json → Bool
  | .null => true
  | _ => false

def hasField (j : Json) (name : String) : Bool :=
  match j with
  | .object fields => (fields.lookup name).isSome
  | _ => false

def string? : Json → Option String
  | .string s => some s
  | _ => none

/-- The value as a whole number. -/
def int? : Json → Option Int
  | .number d => some d.truncate
  | _ => none

/-- The value as a natural number. -/
def nat? (j : Json) : Option Nat :=
  j.int?.map Int.toNat

def isTrue : Json → Bool
  | .bool b => b
  | _ => false

/-- The items of a list; anything else has none. -/
def items : Json → List Json
  | .array items => items
  | _ => []

end Json

end Ferric
