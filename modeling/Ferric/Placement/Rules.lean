import Ferric.Placement.Basic
import Ferric.Text.Replace

/-!
# Placement by rules

A table of rules decides by the name, the category and the number of parameters of a declaration.
The first rule that matches wins; a declaration that none matches goes to the default buffer, if
there is one.

## Main definitions

* `Rule`: one row of the table.
* `Rule.matchesSubject`: when a row applies.
* `RuleTable.policy`: the policy of a table.
-/

namespace Ferric

/-- A row of a placement table. -/
structure Rule where
  /-- The category it applies to; without one, to all. -/
  category : Option Category := none
  name : Option String := none
  /-- What the C name starts with. -/
  leading : Option String := none
  /-- The buffer; without one, the default buffer. -/
  buffer : Option String := none
  /-- The new name, in which `{name}` stands for the C name. -/
  rename : Option String := none
  /-- Emit nothing. -/
  skip : Bool := false
  minParams : Option Nat := none
  maxParams : Option Nat := none
deriving DecidableEq, Repr, Inhabited

namespace Rule

/-- Send declarations of an exact name into a buffer. -/
def named (category : Option Category) (name buffer : String) : Rule :=
  { category, name := some name, buffer := some buffer }

/-- Send declarations whose name starts with `leading` into a buffer. -/
def leadingWith (category : Option Category) (leading buffer : String) : Rule :=
  { category, leading := some leading, buffer := some buffer }

/-- A category of a rule as messages show it. -/
def inspectCategory : Option Category → String
  | some .record => "Struct"
  | some .enum => "Enum"
  | some .global => "Global"
  | some .function => "Function"
  | none => "Any"

/-- A rule as messages show it. -/
def inspect (r : Rule) : String :=
  Text.inspectRecord "PlacementRule"
    [("kind", inspectCategory r.category),
      ("name", Text.inspectOption Text.quoted r.name),
      ("prefix", Text.inspectOption Text.quoted r.leading),
      ("buffer", Text.inspectOption Text.quoted r.buffer),
      ("rename", Text.inspectOption Text.quoted r.rename),
      ("skip", Text.inspectBool r.skip),
      ("min_params", Text.inspectOption toString r.minParams),
      ("max_params", Text.inspectOption toString r.maxParams)]

def fitsCategory (r : Rule) (category : Category) : Bool :=
  match r.category with
  | none => true
  | some c => c == category

/-- Whether the name fits; an exact name goes before a leading part. -/
def fitsName (r : Rule) (name : String) : Bool :=
  match r.name, r.leading with
  | some whole, _ => whole == name
  | none, some leading => Text.startsWith name leading
  | none, none => false

/-- Whether the number of parameters fits; a rule with bounds fits functions only. -/
def fitsArity (r : Rule) (arity? : Option Nat) : Bool :=
  match r.minParams, r.maxParams with
  | none, none => true
  | least, greatest =>
    match arity? with
    | none => false
    | some n => least.all (· ≤ n) && greatest.all (n ≤ ·)

/-- Whether the rule applies to a declaration. -/
def matchesSubject (r : Rule) (subject : Subject) : Bool :=
  r.fitsCategory subject.category && r.fitsName subject.name && r.fitsArity subject.arity?

/-- The placement that a rule which applies gives to a declaration. -/
def placement (r : Rule) (fallback : Option String) (name : String) : Placement :=
  if r.skip then .skip
  else match r.buffer.or fallback with
    | none => .skip
    | some buffer =>
      match r.rename with
      | some template => ⟨buffer, Text.replace "\x7bname\x7d" name template⟩
      | none => .into buffer

end Rule

/-- A placement table: rows and the buffer of what no row matches. -/
structure RuleTable where
  fallback : Option String := none
  rules : List Rule := []

namespace RuleTable

/-- A table; an empty default buffer counts as none. -/
def make (fallback : Option String) (rules : List Rule) : RuleTable :=
  ⟨fallback.filter (· != ""), rules⟩

/-- **The policy of a table**: the first row that matches decides. -/
def policy (t : RuleTable) : Policy := fun subject => do
  match t.rules.find? (·.matchesSubject subject) with
  | none => pure (t.fallback.map Placement.into)
  | some rule =>
    Logged.trace (Rule.inspectCategory (some subject.category) ++ " " ++ subject.name ++
      " matched " ++ rule.inspect)
    pure (some (rule.placement t.fallback subject.name))

end RuleTable

end Ferric
