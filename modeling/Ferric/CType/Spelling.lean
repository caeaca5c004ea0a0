import Ferric.CType.Basic

/-!
# Reading C type names

A type name as it is written in a source, for the places where the front end hands over tokens
only: specifiers, then stars.

A trailing star makes a pointer of what stands before it.  What is left is a run of specifier
words, a tagged type, or a name.
-/

namespace Ferric.CType

/-- The arithmetic types by their specifiers, one blank between the words. -/
def ofSpecifiers? : String → Option CType
  | "void" => some .void
  | "_Bool" | "bool" => some .bool
  | "char" | "signed char" => some (.char true)
  | "unsigned char" => some (.char false)
  | "short" | "short int" | "signed short" | "signed short int" => some (.short true)
  | "unsigned short" | "unsigned short int" => some (.short false)
  | "int" | "signed" | "signed int" => some (.int true)
  | "unsigned" | "unsigned int" => some (.int false)
  | "long" | "long int" | "signed long" | "signed long int" => some (.long true)
  | "unsigned long" | "unsigned long int" => some (.long false)
  | "long long" | "long long int" | "signed long long" | "signed long long int" =>
    some (.longLong true)
  | "unsigned long long" | "unsigned long long int" => some (.longLong false)
  | "float" => some .float
  | "double" => some .double
  | "long double" => some .longDouble
  | _ => none

/-- The type named by words with one blank between them. -/
def ofWords (name : String) : CType :=
  match ofSpecifiers? name with
  | some t => t
  | none =>
    match (Text.after? "struct " name).or (Text.after? "union " name) with
    | some tag => .record (Text.trim tag)
    | none =>
      match Text.after? "enum " name with
      | some tag => .enum (Text.trim tag)
      | none => .named name

/-- The type named by characters without a star at the end. -/
def ofUnstarred (cs : List Char) : CType :=
  let plain := dropQualifiers cs.length (Chars.trim cs)
  ofWords (Text.joined " " ((Chars.words plain).map String.ofList))

/-- The type named by characters in reverse order: stars first, with blanks between them. -/
def ofReversed : List Char → CType
  | [] => ofUnstarred []
  | '*' :: cs => .pointer (ofReversed cs)
  | c :: cs => if Chars.isBlank c then ofReversed cs else ofUnstarred (c :: cs).reverse

/-- **The type of a type name** such as `unsigned int` or `struct foo *`. -/
def ofSpelling (spelling : String) : CType :=
  ofReversed spelling.toList.reverse

end Ferric.CType
