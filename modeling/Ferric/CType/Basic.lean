import Ferric.Text.Blank

/-!
# C types

The types of a C source as the front end resolves them.  Records and enumerations are
known by the front end's spelling of them; a typedef of the standard headers, and any type not
modelled here, stays a name.

## Main definitions

* `CType`: the types.
* `CType.isInteger`, `CType.isFloating`: the types whose truth value is a comparison with zero.
* `knownTypedef?`: the typedefs that stand for a fixed target type.
-/

namespace Ferric

/-- A C type. -/
inductive CType where
  | void
  | bool
  | char (signed : Bool)
  | short (signed : Bool)
  | int (signed : Bool)
  | long (signed : Bool)
  | longLong (signed : Bool)
  | float
  | double
  | longDouble
  | pointer (pointee : CType)
  /-- An array; without a size when the declaration leaves it open. -/
  | array (element : CType) (size : Option Nat)
  /-- A struct or union, by the spelling of its type. -/
  | record (key : String)
  | enum (name : String)
  | function (result : CType) (params : List CType) (variadic : Bool)
  /-- A typedef kept by name, or a type that is not modelled. -/
  | named (name : String)
deriving Inhabited

/-- Words that qualify a type and may stand in front of it. -/
def qualifiers : List String :=
  ["const ", "volatile ", "restrict "]

/-- What follows a leading qualifier, if there is one. -/
def afterQualifier? (cs : List Char) : Option (List Char) :=
  qualifiers.findSome? fun q => q.toList.isPrefixOf? cs

/-- Drop leading qualifiers, at most `bound` of them. -/
def dropQualifiers : Nat → List Char → List Char
  | 0, cs => cs
  | bound + 1, cs =>
    match afterQualifier? cs with
    | some rest => dropQualifiers bound (Chars.trimStart rest)
    | none => cs

/-- The spelling of a type without blanks around it and without the qualifiers in front. -/
def stripQualifiers (spelling : String) : String :=
  Text.onChars (fun cs => dropQualifiers cs.length (Chars.trim cs)) spelling

/-- The target type of a typedef of the standard headers. -/
def knownTypedef? : String → Option String
  | "size_t" => some "usize"
  | "ssize_t" => some "isize"
  | "ptrdiff_t" => some "isize"
  | "intptr_t" => some "isize"
  | "uintptr_t" => some "usize"
  | "int8_t" => some "i8"
  | "int16_t" => some "i16"
  | "int32_t" => some "i32"
  | "int64_t" => some "i64"
  | "uint8_t" => some "u8"
  | "uint16_t" => some "u16"
  | "uint32_t" => some "u32"
  | "uint64_t" => some "u64"
  | "wchar_t" => some "i32"
  | "char16_t" => some "u16"
  | "char32_t" => some "u32"
  | "va_list" => some "std::ffi::VaList"
  | "__builtin_va_list" => some "std::ffi::VaList"
  | "__va_list_tag" => some "std::ffi::VaList"
  | "FILE" => some "std::ffi::c_void"
  | _ => none

namespace CType

/-! ## Parts -/

/-- What a pointer points to. -/
def pointee? : CType → Option CType
  | .pointer pointee => some pointee
  | _ => none

def element? : CType → Option CType
  | .array element _ => some element
  | _ => none

def arraySize? : CType → Option Nat
  | .array _ size => size
  | _ => none

def result? : CType → Option CType
  | .function result _ _ => some result
  | _ => none

/-! ## Classes -/

def isVoid : CType → Bool
  | .void => true
  | _ => false

/-- Whether the type is the boolean type. -/
def isBool : CType → Bool
  | .bool => true
  | _ => false

def isPointer : CType → Bool
  | .pointer _ => true
  | _ => false

def isArray : CType → Bool
  | .array _ _ => true
  | _ => false

def isFunction : CType → Bool
  | .function _ _ _ => true
  | _ => false

/-- Whole-number types, with characters, enumerations and the typedefs that stand for one. -/
def isInteger : CType → Bool
  | .char _ | .short _ | .int _ | .long _ | .longLong _ | .enum _ => true
  | .named name =>
    match knownTypedef? (stripQualifiers name) with
    | some target => Text.startsWith target "i" || Text.startsWith target "u"
    | none => false
  | _ => false

def isFloating : CType → Bool
  | .float | .double | .longDouble => true
  | _ => false

/-- Types whose truth value is a comparison with zero.  The boolean type is not one of them: it is
a truth value already. -/
def isNumeric (t : CType) : Bool :=
  t.isInteger || t.isFloating

/-- The record a type refers to, through pointers and arrays. -/
def record? : CType → Option String
  | .record key => some key
  | .pointer pointee => pointee.record?
  | .array element _ => element.record?
  | _ => none

/-- The enumeration a type refers to, through pointers and arrays. -/
def enum? : CType → Option String
  | .enum name => some name
  | .pointer pointee => pointee.enum?
  | .array element _ => element.enum?
  | _ => none

def bitWidth? : CType → Option Nat
  | .bool | .char _ => some 8
  | .short _ => some 16
  | .int _ | .float | .enum _ => some 32
  | .long _ | .longLong _ | .double | .longDouble | .pointer _ => some 64
  | _ => none

end CType

end Ferric
