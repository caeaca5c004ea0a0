import Ferric.Syntax.Node

/-!
# Headers of `for` loops

A `for` header has three slots, any of which may be empty, and the front end lists only the clauses
that are written.  The tokens of the header show which slots are filled; without them the roles are
guessed from the clauses.

## Main definitions

* `ForSlots.ofTokens?`: the filled slots of a header.
* `ForClauses.assign?`: the clauses in the slots they were written in.
* `ForClauses.guess`: their roles when the header is not known.
-/

namespace Ferric

/-- Which slots of a header are filled. -/
structure ForSlots where
  init : Bool := false
  condition : Bool := false
  step : Bool := false
deriving DecidableEq, Repr

/-- A slot of a header. -/
inductive ForSlot where
  | init | condition | step
deriving DecidableEq, Repr

namespace ForSlots

/-- Note that a slot holds something. -/
def fill (s : ForSlots) : ForSlot → ForSlots
  | .init => { s with init := true }
  | .condition => { s with condition := true }
  | .step => { s with step := true }

/-- Read a header after its opening parenthesis: the slots filled so far, the present slot and the
depth of open brackets. -/
def readFrom (s : ForSlots) (slot : ForSlot) (depth : Nat) : List String → Option ForSlots
  | [] => none
  | token :: rest =>
    if token = ")" ∨ token = "]" ∨ token = "\x7d" then
      match depth with
      | 0 => if slot = .step then some s else none
      | depth + 1 => (s.fill slot).readFrom slot depth rest
    else if token = "(" ∨ token = "[" ∨ token = "\x7b" then
      (s.fill slot).readFrom slot (depth + 1) rest
    else if token = ";" ∧ depth = 0 then
      match slot with
      | .init => s.readFrom .condition depth rest
      | .condition => s.readFrom .step depth rest
      | .step => none
    else (s.fill slot).readFrom slot depth rest

/-- **The filled slots of a header** `for ( init ; condition ; step )`, or none when the tokens do
not have that form. -/
def ofTokens? : List String → Option ForSlots
  | "for" :: "(" :: rest => readFrom {} .init 0 rest
  | _ => none

/-- The number of filled slots. -/
def count (s : ForSlots) : Nat :=
  [s.init, s.condition, s.step].count true

end ForSlots

/-- The clauses of a header by their roles. -/
structure ForClauses (α : Type) where
  init : Option α := none
  condition : Option α := none
  step : Option α := none

namespace ForClauses

variable {α : Type}

def take (filled : Bool) (clauses : List α) : Option α × List α :=
  if filled then (clauses.head?, clauses.tail) else (none, clauses)

/-- The clauses in the slots that are filled; none when their numbers differ. -/
def assign? (s : ForSlots) (clauses : List α) : Option (ForClauses α) :=
  if s.count = clauses.length then
    let (init, rest) := take s.init clauses
    let (condition, rest) := take s.condition rest
    let (step, _) := take s.step rest
    some ⟨init, condition, step⟩
  else none

end ForClauses

/-! ## Guessing roles -/

/-- The unary operators that change their operand. -/
def UnaryOp.isStep : UnaryOp → Bool
  | .preInc | .preDec | .postInc | .postDec => true
  | _ => false

/-- Whether a node of this kind has an effect of its own. -/
def Kind.hasEffect : Kind → Bool
  | .binaryOperator op => op.isAssignment
  | .compoundAssignOperator _ | .callExpr | .declStmt => true
  | .unaryOperator op => op.isStep
  | _ => false

/-- Whether something in an expression has an effect. -/
def Node.hasEffect (n : Node) : Bool :=
  n.walk.any (·.kind.hasEffect)

def Node.readsAsCondition (n : Node) : Bool :=
  if n.kind = .declStmt then false
  else match n.core.kind with
    | .binaryOperator op => op.yieldsBool || !n.hasEffect
    | .unaryOperator .lnot => true
    | _ => !n.hasEffect

/-- Whether a clause reads like an initialisation. -/
def Node.readsAsInit (n : Node) : Bool :=
  match n.kind with
  | .declStmt | .binaryOperator (.assign none) | .binaryOperator .comma => true
  | _ => false

/-- The roles of the clauses, guessed from the clauses themselves; a lone assignment counts as the
initialisation. -/
def ForClauses.guess {α : Type} (node : α → Node) : List α → ForClauses α
  | [] => {}
  | [only] =>
    if (node only).readsAsCondition then { condition := some only }
    else if (node only).readsAsInit then { init := some only }
    else { step := some only }
  | [first, second] =>
    if (node first).readsAsCondition && !(node first).readsAsInit then
      { condition := some first, step := some second }
    else if (node second).readsAsCondition then
      { init := some first, condition := some second }
    else { init := some first, step := some second }
  | init :: condition :: step :: _ => ⟨some init, some condition, some step⟩

/-- **The clauses of a `for` loop by their roles**, from the tokens of its header where these
tell. -/
def ForClauses.ofHeader {α : Type} (node : α → Node) (tokens : List String) (clauses : List α) :
    ForClauses α :=
  match (ForSlots.ofTokens? tokens).bind (assign? · clauses) with
  | some assigned => assigned
  | none => guess node clauses

end Ferric
