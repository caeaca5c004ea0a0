import Ferric.CType.Render
import Ferric.Identifier
import Ferric.Placement.Basic

/-!
# The registry

The records and functions of a C source, known before any text is composed, so that a reference
resolves alike wherever it stands.

## Main definitions

* `RecordEntry`, `FunctionEntry`: what is known of a record or a function.
* `Registry`: the tables, in the order of first mention.
* `Registry.recordName`, `Registry.renderType`: the emitted name of a record, the target type.
* `Registry.resolveFunction?`: the function that a callee's name stands for.
-/

namespace Ferric

/-- The name of an anonymous tag that nothing refers to. -/
def placeholderName : String := "_"

/-- A field of a record, as it is emitted. -/
structure Field where
  name : String
  type : CType

/-- What is known of a struct or union. -/
structure RecordEntry where
  /-- The resolved C name. -/
  name : String
  placement : Placement
  isUnion : Bool
  /-- The fields; none as long as the record is only declared. -/
  fields : List Field

/-- The name under which a record is emitted and referred to. -/
def RecordEntry.targetName (e : RecordEntry) : String :=
  sanitize (e.placement.nameFor e.name)

/-- What is known of a function definition. -/
structure FunctionEntry where
  /-- The C name. -/
  name : String
  signature : Signature
  placement : Placement

/-- The name under which a function is emitted and called. -/
def FunctionEntry.targetName (e : FunctionEntry) : String :=
  sanitize (e.placement.nameFor e.name)

/-- Give a name a value in a table: an old one keeps its place, a new one comes last. -/
def insertArgument (table : List (String × CType)) (name : String) (type : CType) :
    List (String × CType) :=
  match table with
  | [] => [(name, type)]
  | (n, t) :: rest =>
    if n == name then (name, type) :: rest else (n, t) :: insertArgument rest name type

/-- The arguments of a function by name; of a name that is used twice, the last type counts. -/
def FunctionEntry.arguments (e : FunctionEntry) : List (String × CType) :=
  e.signature.params.foldl (fun table p => insertArgument table p.name p.type) []

/-- **The registry** of records and functions. -/
structure Registry where
  records : List RecordEntry := []
  /-- Type keys of records with the resolved name of each; the first entry of a key counts. -/
  recordNames : List (String × String) := []
  functions : List FunctionEntry := []

namespace Registry

def record? (r : Registry) (name : String) : Option RecordEntry :=
  r.records.find? fun e => e.name == name

def recordOfKey? (r : Registry) (key : String) : Option RecordEntry :=
  match r.recordNames.lookup key with
  | some name => r.record? name
  | none => r.record? key

/-- The emitted name of the record that a type key denotes.  A key that is not a name belongs to an
anonymous record. -/
def recordName (r : Registry) (key : String) : String :=
  match r.recordOfKey? key with
  | some entry => entry.targetName
  | none =>
    if key.toList.any (fun c => c == '(' || c == ' ') then placeholderName else sanitize key

/-- The target type, with records under their emitted names. -/
def renderType (r : Registry) (t : CType) : String :=
  t.render r.recordName

def function? (r : Registry) (name : String) : Option FunctionEntry :=
  r.functions.find? fun e => e.name == name

/-- The function that a callee stands for: by its C name, else by its emitted name. -/
def resolveFunction? (r : Registry) (name : String) : Option FunctionEntry :=
  (r.function? name).or (r.functions.find? fun e => e.targetName == name)

/-- Remember the resolved name of a type key, unless the key is known. -/
def nameKey (r : Registry) (key name : String) : Registry :=
  if (r.recordNames.lookup key).isSome then r
  else { r with recordNames := r.recordNames ++ [(key, name)] }

/-- Give a record its fields, if it has none yet. -/
def completeRecord (r : Registry) (name : String) (fields : List Field) : Registry :=
  { r with
    records := r.records.map fun e =>
      if e.name == name && e.fields.isEmpty then { e with fields } else e }

def addRecord (r : Registry) (entry : RecordEntry) : Registry :=
  { r with records := r.records ++ [entry] }

/-- Put a function into a list: in the place of one of the same name, else last. -/
def putFunction (entry : FunctionEntry) : List FunctionEntry → List FunctionEntry
  | [] => [entry]
  | e :: es => if e.name == entry.name then entry :: es else e :: putFunction entry es

/-- Add a function, in the place of an earlier one of the same name. -/
def addFunction (r : Registry) (entry : FunctionEntry) : Registry :=
  { r with functions := putFunction entry r.functions }

end Registry

end Ferric
