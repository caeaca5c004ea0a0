import Ferric.Proofs.Flow.Statement
import Ferric.Proofs.Parameters

/-!
# Zeros where a pointer is expected

A literal zero that stands for a pointer is emitted as the null pointer.  The texts are rewritten
where a pointer is expected, and also in every cast to a pointer below; so each of these places
meets a zero or a null pointer, in some parentheses, and makes a null pointer of either.

## Main definitions

* `Node.IsZeroConstant`: a literal zero in parentheses and conversions.
* `PointerContext`: the places where a pointer is expected, with what is written around the operand.

## Main results

* `zero_constants_are_null`: a zero is the null pointer at each of these places.
-/

namespace Ferric

open Chars Draft Fragment

theorem CType.eq_pointer_of_isPointer {type : CType} (h : type.isPointer = true) :
    ∃ pointee, type = .pointer pointee := by
  cases type with
  | pointer pointee => exact ⟨pointee, rfl⟩
  | _ => cases h

/-! ## Zeros -/

/-- **A literal zero in parentheses and conversions**, whatever the types of these are. -/
def Node.IsZeroConstant (n : Node) : Prop :=
  n.IsZeroUnder fun _ => True

/-- **Where a pointer is expected there is a null pointer.** -/
theorem IsZeroText.ungrouped_nullIfZero {allowed : CType → Prop} {text : String}
    (h : IsZeroText allowed text) {expected : CType} (pointer : expected.isPointer = true) :
    ungrouped (Fragment.nullIfZero text expected) = nullPointer := by
  obtain ⟨k, core, zero, rfl⟩ := h
  have stripped := (isCompact zero).ungrouped_parens k
  rcases zero with rfl | ⟨rfl, -⟩
  · rw [Fragment.nullIfZero, pointer, stripped]
    exact isCompact_nullPointer.ungrouped_parens 0
  · rw [Fragment.nullIfZero, if_neg, stripped]
    rw [stripped]
    simp [nullPointer]

theorem Node.IsZeroConstant.isInitializer {n : Node} (h : n.IsZeroConstant) {type : CType}
    (pointer : type.isPointer = true) : n.kind.isInitializer type = true := by
  obtain ⟨pointee, rfl⟩ := CType.eq_pointer_of_isPointer pointer
  have expression : n.kind.belongsToType = false := by
    cases h with
    | literal zero => rw [zero.kind]; rfl
    | paren kind => rw [kind]; rfl
    | conversion kind => rcases kind with kind | kind <;> rw [kind] <;> rfl
  simp [Kind.isInitializer, expression, CType.isArray]

/-! ## Places where a pointer is expected -/

/-- The fields of a record that an initializer list gives values to. -/
def RecordEntry.initialized (entry : RecordEntry) : List Field :=
  if entry.isUnion then entry.fields.take 1 else entry.fields

/-- **A node that expects a pointer of its operand**, and how the text of the node is written around
a text of the operand. -/
inductive PointerContext (reg : Registry) (ctx : Context) (outer operand : Node) :
    (String → String → Prop) → Prop
  | initializer {isConst isExtern : Bool} (kind : outer.kind = .varDecl isConst isExtern)
    (last : outer.children.getLast? = some operand) (pointer : outer.type.isPointer = true) :
    PointerContext reg ctx outer operand fun text value =>
      text = (if ctx.phase = .functions then "let mut " else "") ++ sanitize outer.spelling ++
        ": " ++ reg.renderType outer.type ++ " = " ++ value ++ ";"
  | assigned {lhs : Node} {rest : List Node} (kind : outer.kind = .binaryOperator (.assign none))
    (children : outer.children = lhs :: operand :: rest) (pointer : lhs.type.isPointer = true) :
    PointerContext reg ctx outer operand fun text value =>
      text = (lhs.emitExpression reg ctx).value ++ " = " ++ value ++ ";"
  | comparedLeft {op : Comparison} {rhs : Node} {rest : List Node}
    (kind : outer.kind = .binaryOperator (.comparison op))
    (children : outer.children = operand :: rhs :: rest) (pointer : rhs.type.isPointer = true) :
    PointerContext reg ctx outer operand fun text value =>
      text = value ++ " " ++ op.spelling ++ " " ++
        Fragment.nullIfZero (rhs.emitExpression reg ctx).value operand.type
  | comparedRight {op : Comparison} {lhs : Node} {rest : List Node}
    (kind : outer.kind = .binaryOperator (.comparison op))
    (children : outer.children = lhs :: operand :: rest) (pointer : lhs.type.isPointer = true) :
    PointerContext reg ctx outer operand fun text value =>
      text = Fragment.nullIfZero (lhs.emitExpression reg ctx).value operand.type ++ " " ++
        op.spelling ++ " " ++ value
  | returned {rest : List Node} (kind : outer.kind = .returnStmt)
    (children : outer.children = operand :: rest) (pointer : ctx.result.isPointer = true) :
    PointerContext reg ctx outer operand fun text value => text = "return " ++ value
  | field {entry : RecordEntry} {field : Field} {i : Nat} (kind : outer.kind = .initListExpr)
    (record : Draft.definedRecord? reg outer.type = some entry)
    (at_field : entry.initialized[i]? = some field) (at_child : outer.children[i]? = some operand)
    (pointer : field.type.isPointer = true) :
    PointerContext reg ctx outer operand fun text value =>
      ∃ texts, text = entry.targetName ++ " \x7b " ++ Text.joined ", " texts ++ " \x7d" ∧
        texts = (Draft.fieldTexts reg ctx entry.initialized
          (outer.children.map (Draft.ofNode reg))).value ∧
        texts[i]? = some (sanitize field.name ++ ": " ++ value)
  | element {element : CType} {size : Option Nat} {i : Nat} (kind : outer.kind = .initListExpr)
    (array : outer.type = .array element size) (at_child : outer.children[i]? = some operand)
    (pointer : element.isPointer = true) :
    PointerContext reg ctx outer operand fun text value =>
      ∃ texts zeros, text = "[" ++ Text.joined ", " (texts ++ zeros) ++ "]" ∧
        texts = outer.children.map (fun child =>
          Fragment.nullIfZero (child.emitExpression reg ctx).value element) ∧
        zeros = Draft.fillers reg outer.type texts.length ∧ texts[i]? = some value

section Contexts

variable {reg : Registry} {ctx : Context} {n : Node}

/-- The text of an operator between two operands. -/
theorem emit_binaryOperator {op : BinaryOp} {lhs rhs : Node} {rest : List Node}
    (kind : n.kind = .binaryOperator op) (single : op ≠ .comma)
    (children : n.children = lhs :: rhs :: rest) :
    (n.emit reg ctx).value = binaryText op lhs rhs (lhs.emitExpression reg ctx).value
      (rhs.emitExpression reg ctx).value := by
  have text : n.emit reg ctx = binary op (n.children.map (ofNode reg)) ctx := by
    rw [Node.emit, text_ofNode, compose, kind]
  rw [text, children, List.map_cons, List.map_cons]
  cases op with
  | comma => exact absurd rfl single
  | _ => simp [binary, Node.emitExpression]

/-- The text of a variable. -/
theorem emit_varDecl {isConst isExtern : Bool} (kind : n.kind = .varDecl isConst isExtern) :
    (n.emit reg ctx).value = (if ctx.phase = .functions then "let mut " else "") ++
      sanitize n.spelling ++ ": " ++ reg.renderType n.type ++ " = " ++
      (initialValue reg n (n.children.map (ofNode reg)) ctx).value ++ ";" := by
  have text : n.emit reg ctx =
      varDeclaration reg n (n.children.map (ofNode reg)) ctx := by
    rw [Node.emit, text_ofNode, compose, kind]
  rw [text, varDeclaration, Logged.value_bind, Logged.value_pure]
  split <;> simp [String.append_assoc]

theorem initialValue_of_pointer {init : Node} (pointer : n.type.isPointer = true)
    (given : n.initializer? = some init) (ne : (init.emitExpression reg ctx).value ≠ "") :
    (initialValue reg n (n.children.map (ofNode reg)) ctx).value =
      nullIfZero (init.emitExpression reg ctx).value n.type := by
  obtain ⟨pointee, type⟩ := CType.eq_pointer_of_isPointer pointer
  have stays : isLocalArray n ctx = false := by simp [isLocalArray, type, CType.isArray]
  have some : ((ofNode reg init).expression ctx).value ≠ "" := ne
  simp only [initialValue_value, stays, given, Bool.false_eq_true, if_false, beq_iff_eq, some]
  rfl

theorem getElem?_fieldTexts {fields : List Field} {parts : List Draft} {i : Nat} {field : Field}
    {d : Draft} (hf : fields[i]? = some field) (hd : parts[i]? = some d) :
    (fieldTexts reg ctx fields parts).value[i]? =
      some (sanitize field.name ++ ": " ++
        nullIfZero (d.expression ctx).value field.type) := by
  induction i generalizing fields parts with
  | zero =>
    cases fields with
    | nil => cases hf
    | cons f fields =>
      cases parts with
      | nil => cases hd
      | cons p parts =>
        cases hf
        cases hd
        rfl
  | succ i ih =>
    cases fields with
    | nil => cases hf
    | cons f fields =>
      cases parts with
      | nil => cases hd
      | cons p parts => exact ih hf hd

theorem emit_initListExpr (kind : n.kind = .initListExpr) :
    n.emit reg ctx = initList reg n (n.children.map (ofNode reg)) ctx := by
  rw [Node.emit, text_ofNode, compose, kind]

theorem emit_array {element : CType} {size : Option Nat} (kind : n.kind = .initListExpr)
    (array : n.type = .array element size) :
    let texts := n.children.map fun child =>
      nullIfZero (child.emitExpression reg ctx).value element
    (n.emit reg ctx).value =
      "[" ++ Text.joined ", " (texts ++ fillers reg n.type texts.length) ++ "]" := by
  have value : n.emit reg ctx =
      arrayValue reg n.type (n.children.map (ofNode reg)) ctx := by
    rw [emit_initListExpr kind, initList, array]
    rfl
  rw [value, arrayValue, array]
  simp only [Logged.value_bind, Logged.value_pure, Logged.value_mapList, List.map_map]
  rfl

/-- **Where a pointer is expected of an operand, its text is that of a pointer.** -/
theorem PointerContext.emit {operand : Node} {written : String → String → Prop}
    (h : PointerContext reg ctx n operand written) (zero : operand.IsZeroConstant) :
    ∃ expected : CType, expected.isPointer = true ∧
      written (n.emit reg ctx).value
        (nullIfZero (operand.emitExpression reg ctx).value expected) := by
  have ne := (zero.emitExpression reg ctx).ne_empty
  cases h with
  | initializer kind last pointer =>
    have given : n.initializer? = some operand := by
      rw [Node.initializer?, last]
      simp [zero.isInitializer pointer]
    exact ⟨n.type, pointer, by rw [emit_varDecl kind, initialValue_of_pointer pointer given ne]⟩
  | assigned kind children pointer =>
    refine ⟨_, pointer, ?_⟩
    rw [emit_binaryOperator kind (by simp) children, binaryText]
    apply String.toList_inj.1
    simp [BinaryOp.spelling]
  | comparedLeft kind children pointer | comparedRight kind children pointer =>
    refine ⟨_, pointer, ?_⟩
    rw [emit_binaryOperator kind (by simp) children, binaryText]
    rfl
  | returned kind children pointer =>
    have text : n.emit reg ctx = returnStatement (n.children.map (ofNode reg)) ctx := by
      rw [Node.emit, text_ofNode, compose, kind]
    obtain ⟨pointee, result⟩ := CType.eq_pointer_of_isPointer pointer
    have ne : ((ofNode reg operand).expression ctx).value ≠ "" := ne
    refine ⟨_, pointer, ?_⟩
    rw [text, children]
    simp [returnStatement, firstExpression, ne, result, CType.isVoid,
      Node.emitExpression]
  | @field entry field i kind record at_field at_child pointer =>
    have part : (n.children.map (ofNode reg))[i]? = some (ofNode reg operand) := by
      rw [List.getElem?_map, at_child, Option.map_some]
    refine ⟨_, pointer, _, ?_, rfl, getElem?_fieldTexts at_field part⟩
    rw [emit_initListExpr kind, initList, record]
    rfl
  | element kind array at_child pointer =>
    refine ⟨_, pointer, _, _, emit_array kind array, rfl, rfl, ?_⟩
    rw [List.getElem?_map, at_child, Option.map_some]

end Contexts

/-- **A zero is the null pointer wherever a pointer is expected.**  Whichever node expects a pointer
of its operand, a literal zero in any parentheses and conversions is written there as the null
pointer, up to parentheses around it. -/
theorem zero_constants_are_null {reg : Registry} {ctx : Context} {outer operand : Node}
    {written : String → String → Prop} (context : PointerContext reg ctx outer operand written)
    (zero : operand.IsZeroConstant) :
    ∃ value, written (outer.emit reg ctx).value value ∧
      Fragment.ungrouped value = Fragment.nullPointer := by
  obtain ⟨expected, pointer, text⟩ := context.emit zero
  exact ⟨_, text, (zero.emitExpression reg ctx).ungrouped_nullIfZero pointer⟩

/-- A zero with suffixes in a cast, with parentheses inside and outside of it, on the left of a
comparison. -/
theorem zero_constants_are_null_compared :
    let literal : Node := { kind := .integerLiteral, tokens := ["0UL"] }
    let cast : Node :=
      { kind := .cStyleCastExpr, type := .pointer .void, children :=
        [{ kind := .typeRef }, { kind := .parenExpr, children := [literal] }] }
    let operand : Node := { kind := .parenExpr, children := [cast] }
    let pointer : Node := { kind := .declRefExpr, spelling := "p", type := .pointer .void }
    let outer : Node :=
      { kind := .binaryOperator (.comparison .ne), children := [operand, pointer] }
    operand.IsZeroConstant ∧ pointer.type.isPointer = true ∧
      ∃ value, (outer.emit {} {}).value = value ++ " " ++ "!=" ++ " " ++ "p" ∧
        Fragment.ungrouped value = Fragment.nullPointer := by
  intro literal cast operand pointer outer
  have zero : operand.IsZeroConstant :=
    .paren rfl rfl <| .conversion (.inr rfl) trivial rfl <| .paren rfl rfl <|
      .literal ⟨rfl, ['0'], by decide, ['U', 'L'], by decide, by decide⟩
  have context := @PointerContext.comparedLeft {} {} outer operand .ne pointer [] rfl rfl rfl
  have other : Fragment.nullIfZero (pointer.emitExpression {} {}).value operand.type = "p" := by
    decide +kernel
  obtain ⟨value, text, null⟩ := zero_constants_are_null context zero
  rw [other, Comparison.spelling] at text
  exact ⟨zero, rfl, value, text, null⟩

end Ferric
