import Ferric.Proofs.Expression.Tokens
import Ferric.Proofs.Expression.Truth

/-!
# Texts of conditions with literals

The text of a condition of names and literals is the one of the expression that is really written.
Comparisons and logical operators are written between the texts of their operands, and what the
composition does with these texts, by counting characters, is what grouping does with the
expressions.

Operands are converted before they are compared: small integers become larger ones, and strings
become pointers.  This does not change their texts, unless a zero becomes a pointer.

## Main definitions

* `Node.Tests`: the nodes of a tree that stand for a condition of names and literals.

## Main results

* `Node.Tests.emit_eq`: a node is written as the expression says.
* `Node.Tests.materialize_eq`: used as a condition, it is tested.
-/

namespace Ferric

open Chars CType

/-- Names, numbers and literals. -/
def CExpr.isLeaf : CExpr → Bool
  | .atom _ _ | .number _ _ => true
  | _ => false

/-- Numbers and pointers have a type with values. -/
theorem CType.isVoid_eq_false {t : CType}
    (h : (t.isInteger = true ∨ t.isFloating = true) ∨ t.isPointer = true) : t.isVoid = false := by
  cases t with
  | void => rcases h with (h | h) | h <;> cases h
  | _ => rfl

namespace Node

/-- **The nodes that stand for a condition of names and literals**: variables, integers, characters
and strings, parentheses, wrappers that keep the type, conversions of operands, comparisons and
logical operators. -/
inductive Tests : Node → CExpr → Prop
  | reference {n : Node} (kind : n.kind = .declRefExpr) (object : n.type.isFunction = false)
      (named : isIdentifier n.spelling.toList = true) : Tests n (.atom (sanitize n.spelling) n.type)
  | integer {n : Node} (kind : n.kind = .integerLiteral) (type : n.type.isInteger = true)
      (constant : isIntegerConstant n.firstToken.toList = true) :
      Tests n (.number (Literal.integer n.firstToken) n.type)
  | character {n : Node} (kind : n.kind = .characterLiteral)
      (constant : IsQuoted characterMarks '\'' n.firstToken.toList) :
      Tests n (.atom (Literal.character n.firstToken) n.type)
  | string {n : Node} (kind : n.kind = .stringLiteral)
      (constant : IsQuoted ([] :: stringMarks) '"' n.spelling.toList) :
      Tests n (.atom (Literal.string n.spelling) n.type)
  | paren {n c : Node} {e : CExpr} (kind : n.kind = .parenExpr) (child : n.children = [c])
      (type : n.type = c.type) (inner : Tests c e) : Tests n (.paren e)
  | wrapper {n c : Node} {e : CExpr} (kind : n.kind = .unexposedExpr)
      (last : n.children.getLast? = some c) (type : n.type = c.type) (inner : Tests c e) :
      Tests n e
  /-- The conversion of a variable, a character or a string that is no truth value. -/
  | converted {n c : Node} {t : String} {type : CType} (kind : n.kind = .unexposedExpr)
      (last : n.children.getLast? = some c) (inner : Tests c (.atom t type))
      (value : n.core.type.isBool = false) (proper : n.type.isVoid = false)
      (pointer : n.core.type.isPointer = true → n.type.isPointer = true) :
      Tests n (.atom t n.type)
  /-- A truth value that is promoted to an integer. -/
  | promoted {n c : Node} {t : String} {type : CType} (kind : n.kind = .unexposedExpr)
      (last : n.children.getLast? = some c) (inner : Tests c (.atom t type))
      (truth : n.core.type.isBool = true) (integer : n.type.isInteger = true) :
      Tests n (.atom t n.core.type)
  /-- The conversion of a number to another type of numbers. -/
  | widened {n c : Node} {t : String} {type : CType} (kind : n.kind = .unexposedExpr)
      (last : n.children.getLast? = some c) (inner : Tests c (.number t type))
      (number : n.type.isInteger = true ∨ n.type.isFloating = true) : Tests n (.number t n.type)
  /-- A zero that is converted to a pointer. -/
  | null {n c : Node} {type : CType} (kind : n.kind = .unexposedExpr)
      (last : n.children.getLast? = some c) (inner : Tests c (.number "0" type))
      (pointer : n.type.isPointer = true) : Tests n (.atom Fragment.nullPointer n.type)
  | lnot {n c : Node} {e : CExpr} (kind : n.kind = .unaryOperator .lnot)
      (child : n.children = [c]) (inner : Tests c e) : Tests n (.lnot n.type e)
  | comparison {n a b : Node} {l r : CExpr} (op : Comparison)
      (kind : n.kind = .binaryOperator (InfixOp.comparison op).toBinary)
      (operands : n.children = [a, b]) (left : Tests a l) (right : Tests b r) :
      Tests n (.binary (.comparison op) n.type l r)
  | logical {n a b : Node} {l r : CExpr} (op : Connective)
      (kind : n.kind = .binaryOperator (InfixOp.logical op).toBinary)
      (operands : n.children = [a, b]) (left : Tests a l) (right : Tests b r) :
      Tests n (.binary (.logical op) n.type l r)

namespace Tests

variable {n : Node} {e : CExpr}

/-! ## Operands -/

/-- All operands are words or literals, and names, literals and the null pointer do not start like
numbers. -/
theorem tokenized_apart (h : n.Tests e) : e.Tokenized ∧ e.Apart := by
  have quoted : ∀ {cs : List Char}, isLiteral cs = true →
      IsToken cs ∧ cs.head?.any Char.isDigit = false := by
    intro cs literal
    refine ⟨.inr literal, ?_⟩
    rcases head?_of_isLiteral literal with head | head <;> rw [head] <;> rfl
  induction h with
  | @reference n kind object named =>
    have word := isIdentifier_sanitize named
    exact ⟨.inl (plainOperand_of_isWordChar (operand_of_isIdentifier word)
      (List.all_eq_true.1 (Bool.and_eq_true_iff.1 word).2)), head?_of_isIdentifier word⟩
  | @integer n kind type constant =>
    refine ⟨?_, isPointer_eq_false (.inl type)⟩
    show IsToken (Literal.integer n.firstToken).toList
    rw [Literal.integer, Text.toList_onChars]
    obtain ⟨operand, word⟩ := operand_integerLiteral constant
    exact .inl (plainOperand_of_isWordChar operand word)
  | @character n kind constant =>
    show IsToken (Literal.character n.firstToken).toList ∧ _
    rw [CExpr.Apart, Literal.character, Text.toList_onChars]
    exact quoted (isLiteral_characterLiteral constant)
  | @string n kind constant =>
    show IsToken (Literal.string n.spelling).toList ∧ _
    rw [CExpr.Apart, Literal.string, Text.toList_onChars]
    exact quoted (isLiteral_stringLiteral constant)
  | null =>
    have start : Fragment.nullPointer.toList.head?.any Char.isDigit = false := by decide
    exact ⟨.inl (by decide), start⟩
  | paren _ _ _ inner ih => exact ih
  | wrapper _ _ _ inner ih => exact ih
  | converted _ _ inner _ _ _ ih => exact ih
  | promoted _ _ inner _ _ ih => exact ih
  | widened _ _ inner number ih => exact ⟨ih.1, isPointer_eq_false number⟩
  | lnot _ _ inner ih => exact ih
  | comparison _ _ _ left right ihl ihr | logical _ _ _ left right ihl ihr =>
    exact ⟨⟨ihl.1, ihr.1⟩, ihl.2, ihr.2⟩

theorem tokenized (h : n.Tests e) : e.Tokenized :=
  h.tokenized_apart.1

theorem apart (h : n.Tests e) : e.Apart :=
  h.tokenized_apart.2

theorem intact (h : n.Tests e) : e.written.Intact :=
  h.tokenized.written.intact

theorem ne_zero {t : String} {type : CType} (h : n.Tests (.atom t type)) : t ≠ "0" := by
  rintro rfl
  cases h.apart

/-! ## Types -/

/-- What is inside of an operand is no operator, and inside of a number it is an integer. -/
theorem core_of_isLeaf (h : n.Tests e) (leaf : e.isLeaf = true) :
    (∀ m : Node, m.core = n.core → m.yieldsBool = (m.type.isBool || n.core.type.isBool)) ∧
      ((∃ t type, e = .number t type) → n.core.type.isInteger = true) := by
  have named : ∀ {t : String} {type : CType},
      ¬ ∃ t' type', CExpr.atom t type = .number t' type' := by
    rintro t type ⟨t', type', same⟩
    cases same
  induction h with
  | reference kind | character kind | string kind =>
    have core := core_of_not_isWrapper (by rw [kind]; rfl)
    refine ⟨fun m same => ?_, fun number => absurd number named⟩
    simp [Node.yieldsBool, same, core, kind]
  | integer kind type =>
    have core := core_of_not_isWrapper (by rw [kind]; rfl)
    refine ⟨fun m same => ?_, fun _ => by rw [core]; exact type⟩
    simp [Node.yieldsBool, same, core, kind]
  | wrapper kind last _ inner ih =>
    rw [core_of_isWrapper (by rw [kind]; rfl) last]
    exact ih leaf
  | converted kind last inner _ _ _ ih | promoted kind last inner _ _ ih =>
    rw [core_of_isWrapper (by rw [kind]; rfl) last]
    exact ⟨(ih rfl).1, fun number => absurd number named⟩
  | null kind last inner _ ih =>
    rw [core_of_isWrapper (by rw [kind]; rfl) last]
    exact ⟨(ih rfl).1, fun number => absurd number named⟩
  | widened kind last inner _ ih =>
    rw [core_of_isWrapper (by rw [kind]; rfl) last]
    exact ⟨(ih rfl).1, fun _ => (ih rfl).2 ⟨_, _, rfl⟩⟩
  | paren | lnot | comparison | logical => cases leaf

/-- **A node is tested and negated like its expression.** -/
theorem agrees (h : n.Tests e) : n.Agrees e := by
  induction h with
  | reference kind | integer kind | character kind | string kind | lnot kind
  | comparison _ kind | logical _ kind =>
    refine .of_not_isWrapper (by rw [kind]; rfl) rfl fun core => ?_
    simp [Node.yieldsBool, core, kind, CExpr.yieldsBool, CExpr.core, CExpr.type]
  | paren kind child type inner ih =>
    have same := ih.of_core_eq type (core_of_isWrapper (by rw [kind]; rfl) (by rw [child]; rfl))
    exact ⟨same.isPointer, same.core_isPointer, same.yieldsBool, same.type⟩
  | wrapper kind last type inner ih =>
    exact ih.of_core_eq type (core_of_isWrapper (by rw [kind]; rfl) last)
  | converted kind last inner value proper pointer =>
    have core := core_of_isWrapper (by rw [kind]; rfl) last
    refine ⟨rfl, pointer, ?_, fun _ => ⟨rfl, ?_⟩⟩
    · rw [(inner.core_of_isLeaf rfl).1 _ core, ← core, value, Bool.or_false]
      rfl
    · exact conditionType_of_not_void proper
  | promoted kind last inner truth integer =>
    -- the promoted type does not count, because the truth value is seen inside
    have core := core_of_isWrapper (by rw [kind]; rfl) last
    refine ⟨?_, id, ?_, fun value => ?_⟩
    · rw [isPointer_eq_false (.inl integer), CExpr.type, eq_bool_of_isBool truth]
      rfl
    · rw [(inner.core_of_isLeaf rfl).1 _ core, ← core, truth, Bool.or_true]
      exact truth.symm
    · cases truth.symm.trans value
  | widened kind last inner number =>
    have core := core_of_isWrapper (by rw [kind]; rfl) last
    obtain ⟨yields, integer⟩ := inner.core_of_isLeaf rfl
    have inside := integer ⟨_, _, rfl⟩
    rw [← core] at inside
    refine ⟨rfl, fun pointer => ?_, ?_, fun _ => ⟨rfl, ?_⟩⟩
    · cases (isPointer_eq_false (.inl inside)).symm.trans pointer
    · rw [yields _ core, ← core, isBool_eq_false (.inl inside), Bool.or_false]
      rfl
    · exact conditionType_of_not_void (isVoid_eq_false (.inl number))
  | null kind last inner pointer =>
    have core := core_of_isWrapper (by rw [kind]; rfl) last
    obtain ⟨yields, integer⟩ := inner.core_of_isLeaf rfl
    have inside := integer ⟨_, _, rfl⟩
    rw [← core] at inside
    refine ⟨rfl, fun _ => pointer, ?_, fun _ => ⟨rfl, ?_⟩⟩
    · rw [yields _ core, ← core, isBool_eq_false (.inl inside), Bool.or_false]
      rfl
    · exact conditionType_of_not_void (isVoid_eq_false (.inr pointer))

/-! ## Texts -/

/-- **Used as a condition, an expression is tested.** -/
theorem materialize_eq (h : n.Tests e) : n.materialize e.written.text = e.condition.text :=
  h.agrees.materialize_eq h.intact

section Emission

variable {reg : Registry} {ctx : Context}

/-- **A node is written as the expression says.** -/
theorem emit_eq (h : n.Tests e) : (n.emit reg ctx).value = e.written.text := by
  -- wrappers keep what is no zero or does not become a pointer
  induction h with
  | reference kind object named => exact emit_variable kind object
  | integer kind | character kind | string kind =>
    rw [emit, Draft.text_ofNode, Draft.compose, kind]
    rfl
  | paren kind child type inner ih => exact emit_paren kind child inner.intact ih
  | wrapper kind last type inner ih =>
    rw [emit_wrapper kind last inner.intact ih, type, comparand_of_ne_zero]
    rw [inner.agrees.isPointer]
    exact fun pointer => inner.apart.core_loweredBy_ne_zero pointer _
  | converted kind last inner value proper pointer ih =>
    rw [emit_wrapper kind last inner.intact ih, comparand_of_ne_zero]
    · rfl
    · exact fun _ zero => inner.ne_zero (by simpa [CExpr.loweredBy, RustExpr.core] using zero)
  | promoted kind last inner truth integer ih =>
    rw [emit_wrapper kind last inner.intact ih, comparand_of_ne_zero]
    · rfl
    · exact fun _ zero => inner.ne_zero (by simpa [CExpr.loweredBy, RustExpr.core] using zero)
  | widened kind last inner number ih =>
    rw [emit_wrapper kind last inner.intact ih, comparand_of_ne_zero]
    · rfl
    · rw [isPointer_eq_false number]
      exact fun pointer => absurd pointer Bool.false_ne_true
  | null kind last inner pointer ih =>
    rw [emit_wrapper kind last inner.intact ih, RustExpr.comparand, pointer]
    rfl
  | lnot kind child inner ih =>
    exact emit_negation kind child inner.agrees inner.intact ih
  | comparison op kind operands left right ihl ihr =>
    rw [emit_infixOp _ kind operands left.intact right.intact ihl ihr]
    exact binaryText_comparison left.agrees right.agrees left.intact right.intact op
  | logical op kind operands left right ihl ihr =>
    rw [emit_infixOp _ kind operands left.intact right.intact ihl ihr]
    exact binaryText_logical left.agrees right.agrees left.intact right.intact op

end Emission

/-- **The condition that is written.** -/
theorem condition_eq (h : n.Tests e) (reg : Registry) (ctx : Context) :
    n.materialize (n.emitExpression reg ctx).value = e.condition.text := by
  rw [emitExpression, expression_eq h.intact h.emit_eq, h.materialize_eq]

end Tests

end Node

end Ferric
