import Ferric.CType.Basic

/-!
# Types as a front end reports them

A front end reports a type with its spelling and with the types it is made of.  Sugar is still
there: names of typedefs, and the wrappers around tagged types.

## Main definitions

* `RawType`: a reported type.
* `RawType.lower`: the type without the sugar; a typedef of the standard headers keeps its name.
-/

namespace Ferric.FrontEnd

/-- **A reported type.** -/
inductive RawType where
  /-- A type without parts: void, a truth value or a number. -/
  | basic (t : CType)
  | pointer (pointee : RawType)
  /-- An array; without a size, or with a negative one, its size is not known. -/
  | array (element : RawType) (size : Option Int)
  | record (spelling : String)
  | enum (spelling : String)
  /-- A tagged type that is written with its keyword. -/
  | elaborated (named : RawType)
  /-- A typedef, and the type it stands for in the end. -/
  | alias (spelling : String) (canonical : RawType)
  | function (result : RawType) (params : List RawType) (variadic : Bool)
  /-- Any other type, by its spelling. -/
  | other (spelling : String)

/-- The tag in the spelling of a tagged type: without qualifiers and without the keyword. -/
def tagName (spelling : String) : String :=
  let name := stripQualifiers spelling
  Text.trim ((((Text.after? "struct " name).or (Text.after? "union " name)).or
    (Text.after? "enum " name)).getD name)

/-- A number that is not negative. -/
def natural? : Int → Option Nat
  | .ofNat n => some n
  | .negSucc _ => none

namespace RawType

mutual

/-- **The type without sugar.** -/
def lower : RawType → CType
  | .basic t => t
  | .pointer pointee => .pointer (lower pointee)
  | .array element size => .array (lower element) (size.bind natural?)
  | .record spelling => .record (tagName spelling)
  | .enum spelling => .enum (tagName spelling)
  | .elaborated named => lower named
  | .alias spelling canonical =>
    let name := stripQualifiers spelling
    if (knownTypedef? name).isSome then .named name else lower canonical
  | .function result params variadic => .function (lower result) (lowerAll params) variadic
  | .other spelling => .named spelling

/-- Each of some types without sugar. -/
def lowerAll : List RawType → List CType
  | [] => []
  | t :: ts => lower t :: lowerAll ts

end

end RawType

example : [tagName "struct point", tagName "const union value", tagName "enum color",
    tagName "Vec2"] = ["point", "value", "color", "Vec2"] := by decide

end Ferric.FrontEnd
