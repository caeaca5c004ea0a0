import Ferric.Conversion.Hooks
import Ferric.Draft.Compose

/-!
# Blocks of functions

Every function that is defined at file scope is written with the signature of its registry entry
and the statements of its body.
-/

namespace Ferric

namespace Function

def header (reg : Registry) (entry : FunctionEntry) : String :=
  let result := entry.signature.result
  "unsafe fn " ++ entry.targetName ++ "(" ++ entry.signature.rendered ++ ")" ++
    (if result.isVoid then "" else " -> " ++ reg.renderType result) ++ " \x7b"

def text (header : String) (statements : List String) : String :=
  Text.indented 0 header ++ String.join (statements.map (Text.indented 1)) ++ "\x7d\n\n"

def statements (reg : Registry) (entry : FunctionEntry) (body : Node) : Logged (List String) :=
  Logged.flatMapList
    (fun n => n.emitStatements reg (Context.ofFunction entry.signature.result)) body.children

/-- The entry and the body of a node that defines a function which is registered. -/
def definition? (reg : Registry) (n : Node) : Option (FunctionEntry × Node) := do
  let body ← n.functionBody?
  let entry ← reg.function? n.spelling
  pure (entry, body)

variable {σ : Type}

/-- The block of a node at file scope, if it defines a function that is emitted. -/
def block? (hooks : Hooks σ) (reg : Registry) (state : σ) (n : Node) :
    Logged (σ × Option Block) := do
  match definition? reg n with
  | none => pure (state, none)
  | some (entry, body) =>
    if entry.placement.isSkipped then
      Logged.debug ("function " ++ entry.name ++ " has no buffer, not emitted")
      pure (state, none)
    else
      if entry.signature.variadic then
        Logged.warn ("variadic function " ++ entry.name ++
          " is emitted with its named parameters only")
      let state := hooks.onFunction entry.targetName entry.signature.fragments state
      let statements ← statements reg entry body
      pure (state, some ⟨entry.placement.buffer, text (header reg entry) statements⟩)

/-- The blocks of some nodes at file scope. -/
def blocksOf (hooks : Hooks σ) (reg : Registry) : σ → List Node → Logged (σ × List Block)
  | state, [] => pure (state, [])
  | state, n :: rest => do
    let (state, b) ← block? hooks reg state n
    let (state, bs) ← blocksOf hooks reg state rest
    pure (state, b.toList ++ bs)

/-- **The blocks of the functions of a source.** -/
def blocks (hooks : Hooks σ) (reg : Registry) (root : Node) (state : σ) :
    Logged (σ × List Block) :=
  blocksOf hooks reg state (root.children.filter fun c => !c.inSystemHeader)

end Function

end Ferric
