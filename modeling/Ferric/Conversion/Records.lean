import Ferric.Conversion.Enums

/-!
# Blocks of records

Every struct and union with fields is written once, under the name of its registry entry and with
the fields recorded there.
-/

namespace Ferric

namespace Record

def text (reg : Registry) (entry : RecordEntry) : String :=
  let keyword := if entry.isUnion then "union" else "struct"
  let fields := entry.fields.map fun f => f.name ++ ": " ++ reg.renderType f.type ++ ","
  "#[derive(Clone, Copy)]\n#[repr(C)]\n" ++
    Text.indented 0 (keyword ++ " " ++ entry.targetName ++ " \x7b") ++
    String.join (fields.map (Text.indented 1)) ++ "\x7d\n\n"

/-- The names of the records with fields, each once, in the order of their first definition. -/
def names (root : Node) : List String :=
  let definitions := root.visits.filter fun v =>
    v.subject.node.kind.isRecord && (v.subject.node.findChild? .fieldDecl).isSome
  firstBy id (definitions.map Visit.tagName)

/-- The block of a record, if it is emitted. -/
def block? (reg : Registry) (name : String) : Logged (Option Block) := do
  match reg.record? name with
  | none => pure none
  | some entry =>
    if entry.placement.isSkipped then
      Logged.debug ("struct " ++ name ++ " has no buffer, not emitted")
      pure none
    else pure (some ⟨entry.placement.buffer, text reg entry⟩)

/-- **The blocks of the records of a source.** -/
def blocks (reg : Registry) (root : Node) : Logged (List Block) :=
  Logged.flatMapList (fun name => Option.toList <$> block? reg name) (names root)

end Record

end Ferric
