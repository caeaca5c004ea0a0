/-!
# TOML values

The document form of settings: strings, whole numbers, fractions, truth values, points in time,
lists, and tables whose entries keep their order.  Fractions and points in time keep their spelling;
nothing in this library computes with them.
-/

namespace Ferric

/-- **A TOML value.** -/
inductive Toml where
  | string (s : String)
  | integer (i : Int)
  | fraction (spelling : String)
  | boolean (b : Bool)
  | moment (spelling : String)
  | array (items : List Toml)
  | table (entries : List (String × Toml))
deriving Inhabited

namespace Toml

def string? : Toml → Option String
  | .string s => some s
  | _ => none

/-- The value as a truth value. -/
def boolean? : Toml → Option Bool
  | .boolean b => some b
  | _ => none

/-- The value as a natural number; a negative number is none. -/
def natural? : Toml → Option Nat
  | .integer (.ofNat n) => some n
  | _ => none

/-- The value as a list in which `read` understands every item. -/
def list? {α : Type} (read : Toml → Option α) : Toml → Option (List α)
  | .array items => items.mapM read
  | _ => none

end Toml

end Ferric
