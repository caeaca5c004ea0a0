import Ferric.Draft.ForHeader
import Ferric.Draft.SwitchArms
import Ferric.Registry.Basic
import Ferric.ZeroValue

/-!
# Texts of statements

Rust has neither C's `for` and `do` loops nor its `switch`.  They become:

```text
for (init; cond; step) body   →  init; while cond { body; step; }
do body while (cond);         →  loop { body; if !(cond) { break; } }
switch (x) { case a: … }      →  if x == a { … } else if x == b { … } else { … }
```

The step of a `for` and the check of a `do` have to run before a `continue` as well, so the context
of the body carries them.  A `break` below the top level of an arm leaves the switch, so the chain
then stands in a labelled block and the `break` names the label.

## Main definitions

* `Draft.varDeclaration`: declarations of variables.
* `Draft.ifStatement`, `Draft.whileLoop`, `Draft.doLoop`, `Draft.forLoop`: branches and loops.
* `Draft.switchStatement`: switches.
-/

namespace Ferric

/-- Whether a child of this kind of a variable belongs to its type and not to its value. -/
def Kind.belongsToType : Kind → Bool
  | .typeRef | .structDecl | .unionDecl | .enumDecl | .parmDecl => true
  | .unknown name => Text.endsWith name "Attr"
  | _ => false

/-- Whether the last child of a variable of type `type` is its initializer.  An array also holds
its size among its children, so that only a list or a string counts for it. -/
def Kind.isInitializer (k : Kind) (type : CType) : Bool :=
  if k.belongsToType then false
  else if type.isArray then k = .initListExpr || k = .stringLiteral
  else true

def Node.initializer? (n : Node) : Option Node :=
  n.children.getLast?.filter fun c => c.kind.isInitializer n.type

namespace Draft

/-! ## Variables and results -/

/-- The value of a local array, whose elements are not copied. -/
def uninitialized : String :=
  "unsafe \x7b std::mem::MaybeUninit::uninit().assume_init() \x7d"

/-- Whether a variable is a local array of a known size. -/
def isLocalArray (n : Node) (ctx : Context) : Bool :=
  ctx.phase = .functions && n.type.isArray && n.type.arraySize?.isSome

/-- The value of a variable: its initializer, else zero. -/
def initialValue (reg : Registry) (n : Node) (parts : List Draft) (ctx : Context) :
    Logged String := do
  let init? := parts.getLast?.filter fun d => d.node.kind.isInitializer n.type
  if isLocalArray n ctx then
    if init?.isSome then
      Logged.warn ("initializer of local array " ++ sanitize n.spelling ++
        " is not copied; the array starts uninitialized")
    pure uninitialized
  else
    let text ← match init? with
      | some init => init.expression ctx
      | none => pure ""
    pure (if text == "" then zeroValue reg.recordName n.type
      else Fragment.nullIfZero text n.type)

/-- The declaration of a variable; inside of a function it is a `let`. -/
def varDeclaration (reg : Registry) (n : Node) (parts : List Draft) (ctx : Context) :
    Logged String := do
  let value ← initialValue reg n parts ctx
  let declaration :=
    sanitize n.spelling ++ ": " ++ reg.renderType n.type ++ " = " ++ value ++ ";"
  pure (if ctx.phase = .functions then "let mut " ++ declaration else declaration)

/-- The declarations of a declaration statement, one below the other. -/
def declarations (parts : List Draft) (ctx : Context) : Logged String := do
  let texts ← Logged.flatMapList (fun d => asStatements <$> d.text ctx) parts
  pure (Text.stacked texts)

/-- A `return`.  In a function without a result the value is only evaluated. -/
def returnStatement (parts : List Draft) (ctx : Context) : Logged String := do
  let value ← firstExpression parts ctx
  pure (
    if value == "" then "return"
    else if ctx.result.isVoid then value ++ ";\nreturn"
    else "return " ++ Fragment.nullIfZero value ctx.result)

/-! ## Branches and loops -/

/-- An `if`, with further ones in its `else`. -/
def ifStatement (parts : List Draft) (ctx : Context) : Logged String :=
  match parts with
  | test :: yes :: rest => do
    let c ← test.condition ctx
    let body ← yes.branch ctx
    let opening := "if " ++ c ++ " " ++ body
    match rest with
    | [] => pure opening
    | no :: _ => do
      let other ← if no.node.kind = .ifStmt then no.text ctx else no.branch ctx
      pure (opening ++ " else " ++ other)
  | _ => lastText parts ctx

def whileLoop (parts : List Draft) (ctx : Context) : Logged String :=
  match parts with
  | test :: body :: _ => do
    let block ← body.branch (ctx.inLoop none)
    let c ← test.condition ctx
    pure ("while " ++ c ++ " " ++ block)
  | _ => lastText parts ctx

/-- The check at the end of a `do` loop. -/
def exitCheck (condition : String) : String :=
  "if !(" ++ Fragment.ungrouped condition ++ ") \x7b\n    break;\n\x7d"

/-- A `do`: the check is the last statement of an endless loop. -/
def doLoop (parts : List Draft) (ctx : Context) : Logged String :=
  match parts with
  | body :: test :: _ => do
    let c ← test.condition ctx
    let check := exitCheck c
    let statements ← body.bodyStatements (ctx.inLoop (some check))
    pure ("loop " ++ Fragment.block (statements ++ [check]))
  | _ => lastText parts ctx

def clauseStatements (clause? : Option Draft) (ctx : Context) : Logged (List String) :=
  match clause? with
  | some clause => clause.statements ctx
  | none => pure []

/-- The opening of a loop with a condition that may be absent. -/
def loopHead (condition? : Option Draft) (ctx : Context) : Logged String :=
  match condition? with
  | some test => do
    let c ← test.condition ctx
    pure ("while " ++ c ++ " ")
  | none => pure "loop "

/-- A `for`: its step is the last statement of the body. -/
def forLoop (n : Node) (parts : List Draft) (ctx : Context) : Logged String :=
  match parts.getLast? with
  | none => pure ""
  | some body => do
    let clauses := ForClauses.ofHeader Draft.node n.tokens parts.dropLast
    let init ← clauseStatements clauses.init ctx
    let step ← clauseStatements clauses.step ctx
    let stepText := if step.isEmpty then none else some (Text.stacked step)
    let statements ← body.bodyStatements (ctx.inLoop stepText)
    let head ← loopHead clauses.condition ctx
    pure (Text.stacked (init ++ [head ++ Fragment.block (statements ++ step)]))

def breakText (ctx : Context) : String :=
  match ctx.breakLabel with
  | some label => "break " ++ label
  | none => "break"

/-- A `continue`, after what has to run before it. -/
def continueText (ctx : Context) : String :=
  match ctx.loopStep with
  | some step => Fragment.asStatement step ++ "\ncontinue"
  | none => "continue"

/-! ## Switches -/

/-- Whether the value of a switch may be repeated in every comparison. -/
def isRepeatable (scrutinee : Node) : Bool :=
  match scrutinee.core.kind with
  | .declRefExpr | .integerLiteral | .characterLiteral => true
  | _ => false

/-- The statements of an arm, with a warning when it falls through. -/
def armStatements (arm : SwitchArm) (isLast : Bool) (ctx : Context) : Logged (List String) := do
  let statements ← statementsOf arm.run ctx
  if !arm.isTerminated && !isLast then
    let place := (arm.body.head?.map fun d => d.node.location.render).getD ""
    Logged.warn ("switch case falls through at " ++ place ++ "; the generated branch does not")
  pure statements

/-- The comparisons that choose an arm. -/
def armTest (arm : SwitchArm) (scrutinee : String) (ctx : Context) : Logged String := do
  let tests ← Logged.mapList
    (fun label => (scrutinee ++ " == " ++ ·) <$> label.expression ctx) arm.labels
  pure (Text.joined " || " tests)

/-- The branches of a chain: those with a test, in order, and the last default. -/
structure Branches where
  tested : List String := []
  default? : Option String := none

def armBranches (scrutinee : String) (ctx : Context) : List SwitchArm → Logged Branches
  | [] => pure {}
  | arm :: arms => do
    let statements ← armStatements arm arms.isEmpty ctx
    if arm.isDefault then
      let rest ← armBranches scrutinee ctx arms
      pure { rest with default? := rest.default?.or (some (Fragment.block statements)) }
    else
      let test ← armTest arm scrutinee ctx
      let rest ← armBranches scrutinee ctx arms
      pure { rest with
        tested := ("if " ++ test ++ " " ++ Fragment.block statements) :: rest.tested }

def Branches.chain (b : Branches) : String :=
  Text.joined " else " (b.tested ++ b.default?.toList)

/-- The chain of a switch with the binding of its value before it, in a block of its own when there
is a binding or a label. -/
def enclose (label? : Option String) (binding : List String) (chain : String) : String :=
  if chain == "" then Text.stacked binding
  else match label? with
    | some label => label ++ ": " ++ Fragment.block (binding ++ [chain])
    | none => if binding.isEmpty then chain else Fragment.block (binding ++ [chain])

/-- A `switch`: its value is evaluated once, and an arm is chosen by comparisons. -/
def switchStatement (parts : List Draft) (ctx : Context) : Logged String :=
  match parts with
  | test :: body :: _ => do
    let value ← test.expression ctx
    let name := "switch_value" ++ ctx.switchSuffix
    let (scrutinee, binding) :=
      if isRepeatable test.node then (value, [])
      else (name, ["let " ++ name ++ " = " ++ value ++ ";"])
    let (dropped, arms) := SwitchArm.ofBody body
    let _ ← Logged.mapList
      (fun _ => Logged.debug "dropping unreachable statement before the first case") dropped
    let label? :=
      if arms.any SwitchArm.breaksEarly then some ("'switch" ++ ctx.switchSuffix) else none
    let branches ← armBranches scrutinee (ctx.inSwitch label?) arms
    pure (enclose label? binding branches.chain)
  | _ => lastText parts ctx

/-- A label of a switch that stands outside of one: only its statement is left. -/
def strayLabel (n : Node) (parts : List Draft) (ctx : Context) : Logged String := do
  Logged.warn ("case label outside a switch body at " ++ n.location.render)
  match parts.getLast? with
  | some d => Text.stacked <$> d.statements ctx
  | none => pure ""

/-! ## Jumps -/

/-- A `goto`, which has no counterpart. -/
def gotoStatement (n : Node) : Logged String := do
  let label := (n.children.head?.map (·.spelling)).getD n.spelling
  Logged.warn ("goto " ++ label ++ " has no Rust equivalent, emitted verbatim")
  pure ("goto " ++ label)

/-- A label for a `goto`, which has no counterpart either. -/
def labelStatement (n : Node) (parts : List Draft) (ctx : Context) : Logged String := do
  Logged.warn ("label " ++ n.spelling ++ " has no Rust equivalent, emitted verbatim")
  let statements ← statementsOf parts ctx
  pure (Text.stacked ((n.spelling ++ ":;") :: statements))

end Draft

end Ferric
