import Ferric.Draft.Basic

/-!
# Arms of a switch

The body of a switch is a run of statements with labels among them.  It is grouped into arms: the
labels that stand right before a statement, and the statements up to the next label.

## Main definitions

* `SwitchArm`: labels and statements.
* `SwitchArm.group`: the arms of a body, and what stands before the first label.
* `SwitchArm.statements`: the statements of an arm without one level of braces.
* `SwitchArm.breaksEarly`: whether a `break` below the top level of an arm leaves the switch.
-/

namespace Ferric

structure SwitchArm where
  labels : List Draft
  isDefault : Bool
  body : List Draft

mutual

/-- The arm that a labelled statement opens, after the labels read so far. -/
def Draft.openArm (labels : List Draft) (isDefault : Bool) : Draft → SwitchArm
  | d@⟨node, _, parts⟩ =>
    if node.kind = .caseStmt then
      if 1 < parts.length then
        Draft.openArmOfLast (labels ++ parts.head?.toList) isDefault parts
      else ⟨labels ++ parts.head?.toList, isDefault, []⟩
    else if node.kind = .defaultStmt then Draft.openArmOfLast labels true parts
    else ⟨labels, isDefault, [d]⟩

/-- The arm that the last of some parts opens; an empty one when there are none. -/
def Draft.openArmOfLast (labels : List Draft) (isDefault : Bool) : List Draft → SwitchArm
  | [] => ⟨labels, isDefault, []⟩
  | [d] => d.openArm labels isDefault
  | _ :: d :: ds => Draft.openArmOfLast labels isDefault (d :: ds)

end

/-- Whether a node of this kind labels the statement inside it. -/
def Kind.isCaseLabel : Kind → Bool
  | .caseStmt | .defaultStmt => true
  | _ => false

mutual

/-- Whether a `break` in this node leaves the switch around it, and not a loop or switch inside. -/
def Node.leavesSwitch : Node → Bool
  | ⟨kind, _, _, children, _, _, _, _, _⟩ =>
    match kind with
    | .breakStmt => true
    | .whileStmt | .doStmt | .forStmt | .switchStmt => false
    | _ => Node.anyLeavesSwitch children

/-- Whether a `break` in one of some nodes leaves the switch around them. -/
def Node.anyLeavesSwitch : List Node → Bool
  | [] => false
  | c :: cs => c.leavesSwitch || Node.anyLeavesSwitch cs

end

/-- The statements that end an arm without a `break`. -/
def Kind.endsArm : Kind → Bool
  | .returnStmt | .continueStmt | .gotoStmt => true
  | _ => false

namespace SwitchArm

/-- **The arms of a run of statements**, after the statements that stand before the first label. -/
def group (statements : List Draft) : List Draft × List SwitchArm :=
  statements.foldr
    (fun d (pending, arms) =>
      if d.node.kind.isCaseLabel then
        let arm := d.openArm [] false
        ([], { arm with body := arm.body ++ pending } :: arms)
      else (d :: pending, arms))
    ([], [])

/-- The arms of the body of a switch, after the statements that stand before the first label. -/
def ofBody (body : Draft) : List Draft × List SwitchArm :=
  group (if body.node.kind = .compoundStmt then body.parts else [body])

/-- The statements of an arm, without one level of braces. -/
def statements (arm : SwitchArm) : List Draft :=
  arm.body.flatMap fun d => if d.node.kind = .compoundStmt then d.parts else [d]

/-- The statements of an arm up to its first `break`. -/
def run (arm : SwitchArm) : List Draft :=
  arm.statements.takeWhile fun d => d.node.kind != .breakStmt

/-- Whether the arm ends before the next one begins. -/
def isTerminated (arm : SwitchArm) : Bool :=
  arm.run.length < arm.statements.length ||
    arm.run.getLast?.any fun d => d.node.kind.endsArm

/-- Whether a `break` below the top level of the arm leaves the switch. -/
def breaksEarly (arm : SwitchArm) : Bool :=
  arm.run.any fun d => d.node.leavesSwitch

end SwitchArm

end Ferric
