import Ferric.Draft.Compose
import Ferric.Output.Buffers
import Ferric.Registry.TagName

/-!
# Blocks of enumerations

An enumeration becomes one constant for each of its enumerators.  An enumerator with an explicit
value is written with that value; the others count on from the one before, starting at zero.

An enumeration that the front end lists several times is written once.

## Main definitions

* `placed?`: ask the policy whether a declaration is emitted at all.
* `Enumeration.lines`: the constants.
* `Enumeration.blocks`: the blocks of all enumerations of a source.
-/

namespace Ferric

/-- Ask the policy about a declaration; nothing is left to emit when it is skipped or not
configured. -/
def placed? (policy : Policy) (subject : Subject) : Logged (Option Placement) := do
  let category := subject.category.word
  match ← policy subject with
  | some placement =>
    if placement.isSkipped then
      Logged.debug (category ++ " " ++ subject.name ++ " has no buffer, not emitted")
      pure none
    else pure (some placement)
  | none =>
    Logged.warn ("no " ++ category ++ " placement configured, skipping " ++ subject.name)
    pure none

/-- What tells one declared entity from another: the front end's key, or the position in the tree
when there is none. -/
inductive EntityKey where
  | usr (key : String)
  | position (position : Position)
deriving DecidableEq, Repr

def Located.entityKey (l : Located) : EntityKey :=
  if l.node.usr == "" then .position l.position else .usr l.node.usr

/-- The elements whose key is met for the first time, given the keys met before. -/
def firstByFrom {α κ : Type} [DecidableEq κ] (key : α → κ) (met : List κ) : List α → List α
  | [] => []
  | a :: as =>
    if key a ∈ met then firstByFrom key met as else a :: firstByFrom key (key a :: met) as

def firstBy {α κ : Type} [DecidableEq κ] (key : α → κ) (as : List α) : List α :=
  firstByFrom key [] as

namespace Enumeration

/-- The number that an enumerator has: what the front end computed, else the value of its explicit
text if that is a constant, else the one that is due. -/
def number (constant : Node) (explicit : String) (due : Int) : Except Overflow Int :=
  match constant.value with
  | some v => .ok v
  | none => (·.getD due) <$> Literal.integerValue explicit

def line (constant : Node) (explicit : String) (number : Int) : String :=
  "const " ++ sanitize constant.spelling ++ ": i32 = " ++
    (if explicit == "" then toString number else explicit) ++ ";"

/-- The constants of some enumerators, of which the first is due to have the number `due`. -/
def lines (reg : Registry) : Int → List Node → Except Overflow (Logged (List String))
  | _, [] => .ok (pure [])
  | due, constant :: rest => do
    let explicit := constant.emitExpression reg (Context.ofPhase .enums)
    let number ← number constant explicit.value due
    let next ← Signed64.next number
    let others ← lines reg next rest
    .ok (do
      let text ← explicit
      let texts ← others
      pure (line constant text number :: texts))

/-- The enumerators of an enumeration. -/
def constants (n : Node) : List Node :=
  n.children.filter (·.kind == .enumConstantDecl)

def text (lines : List String) : String :=
  String.join (lines.map (Text.indented 0)) ++ "\n"

/-- The block of an enumeration, if it is emitted. -/
def block? (policy : Policy) (reg : Registry) (v : Visit) :
    Except Overflow (Logged (Option Block)) := do
  let placement := placed? policy (.enum v.tagName)
  match placement.value with
  | none => .ok (do
    let _ ← placement
    pure none)
  | some p =>
    let constants ← lines reg 0 (constants v.subject.node)
    .ok (do
      let _ ← placement
      let texts ← constants
      pure (some ⟨p.buffer, text texts⟩))

/-- The blocks of some enumerations. -/
def blocksOf (policy : Policy) (reg : Registry) :
    List Visit → Except Overflow (Logged (List Block))
  | [] => .ok (pure [])
  | v :: vs => do
    let first ← block? policy reg v
    let rest ← blocksOf policy reg vs
    .ok (do
      let b ← first
      let bs ← rest
      pure (b.toList ++ bs))

/-- The enumerations of a source, each once. -/
def visits (root : Node) : List Visit :=
  firstBy (·.subject.entityKey) (root.visits.filter (·.subject.node.kind == .enumDecl))

/-- **The blocks of the enumerations of a source.** -/
def blocks (policy : Policy) (reg : Registry) (root : Node) :
    Except Overflow (Logged (List Block)) :=
  blocksOf policy reg (visits root)

end Enumeration

end Ferric
