import Ferric.Text.Blank
import Ferric.Text.Quoted

/-!
# Values as they are shown in messages

One form for records, options and lists in log notes: `Name { field: value, … }`, `Some(value)` or
`None`, `[value, …]`.
-/

namespace Ferric.Text

/-- A value that may be absent. -/
def inspectOption {α : Type} (inspect : α → String) : Option α → String
  | none => "None"
  | some a => "Some(" ++ inspect a ++ ")"

def inspectList {α : Type} (inspect : α → String) (as : List α) : String :=
  "[" ++ joined ", " (as.map inspect) ++ "]"

/-- A truth value. -/
def inspectBool (b : Bool) : String :=
  if b then "true" else "false"

def inspectRecord (name : String) (fields : List (String × String)) : String :=
  name ++ " \x7b " ++ joined ", " (fields.map fun f => f.1 ++ ": " ++ f.2) ++ " \x7d"

end Ferric.Text
