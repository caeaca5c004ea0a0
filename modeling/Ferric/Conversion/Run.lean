import Ferric.Conversion.Functions
import Ferric.Conversion.Globals
import Ferric.Conversion.Records
import Ferric.Registry.Collect

/-!
# Conversion of a source

The declarations of a source are collected first; then four passes write enumerations, global
variables, records and functions, in this order whatever the order of the source.

## Main definitions

* `Conversion.blocks`: the blocks of a source, in the order in which they are written.
* `Conversion.run`: the buffers of a source.
-/

namespace Ferric

namespace Conversion

variable {σ : Type}

/-- What a conversion leaves behind. -/
structure Result (σ : Type) where
  registry : Registry
  output : Output
  state : σ

/-- The registry of a source, with a note on its size. -/
def collect (policy : Policy) (root : Node) : Logged Registry := do
  let reg ← Registry.ofUnit policy root
  Logged.info ("collected " ++ toString reg.records.length ++ " structs and " ++
    toString reg.functions.length ++ " functions")
  pure reg

/-- The blocks after those of the enumerations. -/
def laterBlocks (policy : Policy) (hooks : Hooks σ) (reg : Registry) (root : Node) (state : σ) :
    Logged (σ × List Block) := do
  let (state, globals) ← Global.blocks policy hooks reg root state
  let records ← Record.blocks reg root
  let (state, functions) ← Function.blocks hooks reg root state
  pure (state, globals ++ records ++ functions)

/-- **The blocks of a source**, in the order in which they are written. -/
def blocks (policy : Policy) (hooks : Hooks σ) (reg : Registry) (root : Node) (state : σ) :
    Except Overflow (Logged (σ × List Block)) := do
  let enums ← Enumeration.blocks policy reg root
  .ok (do
    let first ← enums
    let (state, rest) ← laterBlocks policy hooks reg root state
    pure (state, first ++ rest))

/-- **The conversion of a source** into buffers, at their level of indentation.  It ends early only
when an enumerator leaves the range of 64 bits. -/
def run (policy : Policy) (hooks : Hooks σ) (output : Output) (root : Node) (state : σ) :
    Except Overflow (Logged (Result σ)) := do
  let registry := collect policy root
  let written ← blocks policy hooks registry.value root state
  .ok (do
    let reg ← registry
    let (state, bs) ← written
    let bs := bs.map (·.raised output.level)
    let (output, state) := hooks.beforeClose (output.writeBlocks bs) state
    pure ⟨reg, output, state⟩)

end Conversion

end Ferric
