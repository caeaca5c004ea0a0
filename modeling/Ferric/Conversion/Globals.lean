import Ferric.Conversion.Enums
import Ferric.Conversion.Hooks

/-!
# Blocks of global variables

A variable may be declared several times at file scope; of these declarations the last one with an
initializer counts, else the first.  A declaration that only announces a variable of another source
does not count at all.

## Main definitions

* `Global.mention`: one declaration after the others.
* `Global.declarations`: the declaration that counts, for each variable.
* `Global.blocks`: the blocks of all global variables.
-/

namespace Ferric

namespace Global

/-- The declaration that counts for each name, in the order of first mention. -/
abbrev Table := List (String × Node)

/-- Mention a declaration: it comes last if its name is new, and takes the place of the earlier one
if it has an initializer. -/
def mention (n : Node) : Table → Table
  | [] => [(n.spelling, n)]
  | (name, old) :: rest =>
    if name == n.spelling then
      (name, if n.initializer?.isSome then n else old) :: rest
    else (name, old) :: mention n rest

/-- Whether a declaration only announces a variable of another source. -/
def isAnnouncement (n : Node) : Bool :=
  match n.kind with
  | .varDecl _ isExtern => isExtern && n.initializer?.isNone
  | _ => false

def isVariable (n : Node) : Bool :=
  match n.kind with
  | .varDecl _ _ => true
  | _ => false

/-- The table after one more node at file scope. -/
def step (table : Table) (n : Node) : Logged Table := do
  if !isVariable n then pure table
  else if isAnnouncement n then
    Logged.debug ("skipping extern declaration " ++ n.spelling)
    pure table
  else pure (mention n table)

/-- The declaration that counts, for each variable of a source. -/
def declarations (root : Node) : Logged Table :=
  Logged.foldList step [] (root.children.filter fun c => !c.inSystemHeader)

/-- The storage class of a variable. -/
def storage (n : Node) : String :=
  match n.kind with
  | .varDecl true _ => "const"
  | _ => "static mut"

/-- The text of a global variable. -/
def text (n : Node) (declaration : String) : String :=
  Text.indented 0 (storage n ++ " " ++ Text.trim declaration) ++ "\n"

variable {σ : Type}

/-- The block of a variable, if it is emitted. -/
def block? (policy : Policy) (hooks : Hooks σ) (reg : Registry) (state : σ)
    (entry : String × Node) : Logged (σ × Option Block) := do
  let (name, n) := entry
  match ← placed? policy (.global name) with
  | none => pure (state, none)
  | some placement =>
    if placement.rename != "" then
      Logged.warn ("global " ++ name ++ " cannot be renamed to " ++ placement.rename ++
        "; keeping its C name")
    let declaration ← n.emit reg (Context.ofPhase .globals)
    let (declaration, state) := hooks.onGlobal n declaration state
    if Text.isBlankText declaration then pure (state, none)
    else pure (state, some ⟨placement.buffer, text n declaration⟩)

/-- The blocks of some variables. -/
def blocksOf (policy : Policy) (hooks : Hooks σ) (reg : Registry) :
    σ → Table → Logged (σ × List Block)
  | state, [] => pure (state, [])
  | state, entry :: rest => do
    let (state, b) ← block? policy hooks reg state entry
    let (state, bs) ← blocksOf policy hooks reg state rest
    pure (state, b.toList ++ bs)

/-- **The blocks of the global variables of a source.** -/
def blocks (policy : Policy) (hooks : Hooks σ) (reg : Registry) (root : Node) (state : σ) :
    Logged (σ × List Block) := do
  let table ← declarations root
  blocksOf policy hooks reg state table

end Global

end Ferric
