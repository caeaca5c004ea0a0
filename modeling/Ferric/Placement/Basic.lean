import Ferric.CType.Basic
import Ferric.Log
import Ferric.Text.Inspect

/-!
# Placement of declarations

Where the text of a declaration goes, and under which name.  A policy decides it for each
declaration that is emitted; it may also leave a declaration undecided.

## Main definitions

* `Placement`: a buffer and a new name, either of which may be empty.
* `Signature`: what a policy gets to see of a function.
* `Subject`: a declaration as a policy sees it.
* `Policy`: the decision.
-/

namespace Ferric

/-- **Where a declaration goes.**  With an empty buffer nothing is emitted; with an empty new name
the declaration keeps its C name. -/
structure Placement where
  buffer : String := ""
  rename : String := ""
deriving DecidableEq, Repr, Inhabited

namespace Placement

/-- Into a buffer, under its own name. -/
def into (buffer : String) : Placement :=
  ⟨buffer, ""⟩

/-- Nowhere; the name is still known. -/
def skip : Placement :=
  ⟨"", ""⟩

/-- Whether nothing is emitted. -/
def isSkipped (p : Placement) : Bool :=
  p.buffer == ""

/-- The name of a declaration that is called `name` in C. -/
def nameFor (p : Placement) (name : String) : String :=
  if p.rename == "" then name else p.rename

/-- The placement as messages show it. -/
def inspect (p : Placement) : String :=
  Text.inspectRecord "Placement"
    [("buffer", Text.quoted p.buffer), ("rename", Text.quoted p.rename)]

end Placement

/-- A parameter of a function definition. -/
structure Parameter where
  /-- The identifier as it is emitted. -/
  name : String
  type : CType
  rendered : String

/-- The parameter as it stands in a header. -/
def Parameter.fragment (p : Parameter) : String :=
  p.name ++ ": " ++ p.rendered

/-- The signature of a function definition. -/
structure Signature where
  name : String
  params : List Parameter
  result : CType
  variadic : Bool

namespace Signature

/-- The number of parameters. -/
def arity (s : Signature) : Nat :=
  s.params.length

/-- The parameters as they stand in a header. -/
def fragments (s : Signature) : List String :=
  s.params.map Parameter.fragment

/-- The parameter list of a header. -/
def rendered (s : Signature) : String :=
  Text.joined ", " s.fragments

end Signature

/-- A declaration as a policy sees it. -/
inductive Subject where
  | record (name : String)
  | enum (name : String)
  | global (name : String)
  | function (signature : Signature)

/-- The category of a declaration. -/
inductive Category where
  | record | enum | global | function
deriving DecidableEq, Repr

namespace Subject

def category : Subject → Category
  | .record _ => .record
  | .enum _ => .enum
  | .global _ => .global
  | .function _ => .function

/-- The C name of a declaration. -/
def name : Subject → String
  | .record name | .enum name | .global name => name
  | .function signature => signature.name

/-- The number of parameters, for functions only. -/
def arity? : Subject → Option Nat
  | .function signature => some signature.arity
  | _ => none

end Subject

def Category.word : Category → String
  | .record => "struct"
  | .enum => "enum"
  | .global => "global"
  | .function => "function"

/-- **A placement policy**: the placement of each declaration, or none when its category is not
configured. -/
abbrev Policy := Subject → Logged (Option Placement)

namespace Policy

/-- Nothing is configured. -/
def unconfigured : Policy :=
  fun _ => pure none

/-- Everything goes to one buffer under its own name. -/
def single (buffer : String) : Policy :=
  fun _ => pure (some (Placement.into buffer))

end Policy

end Ferric
