import Ferric.Proofs.Expression.Truth

/-!
# Conditions

The target has conditions of one type only.  So a number or a pointer is compared with its zero
where it is used as a condition or under a logical operator, and a logical negation compares for
equality.  What is written is a truth value, the one that the source has, whatever names, numbers
and operators stand for.

There are two exceptions.  A pointer to a function is an optional function in the target, which is
not compared with the null pointer, and an unsigned number has no minus there.

## Main results

* `CExpr.IsValue.exists_denote`: a value has the same value in the target.
* `CExpr.IsCondition.exists_denote_tested`: a condition has the same truth value in the target.
* `exists_denote_materialize`: conditions are written as truth values.
* `denote_materialize_callback`: a pointer to a function is not.
* `denote_materialize_minus`: neither is a minus before an unsigned variable.
-/

namespace Ferric

open RustExpr CType

section Denotations

variable {reg : Registry} {V : Type} (I : Valuation V) {names : String → Option String}

namespace CExpr

/-- The names of an expression have the types that they are rendered with. -/
def TypedIn (reg : Registry) (names : String → Option String) (e : CExpr) : Prop :=
  ∀ a ∈ e.atoms, operandType? names a.1 = some (.exact (reg.renderType a.2))

theorem TypedIn.binary {op : InfixOp} {type : CType} {l r : CExpr}
    (h : (CExpr.binary op type l r).TypedIn reg names) :
    l.TypedIn reg names ∧ r.TypedIn reg names :=
  ⟨fun a ha => h a (List.mem_append_left _ ha), fun a ha => h a (List.mem_append_right _ ha)⟩

/-! ## Values -/

variable {e : CExpr}

/-- **A value has the same value in the target**, and may have the type that its own is rendered
as. -/
theorem IsValue.exists_denote (h : IsValue reg e) (declared : e.TypedIn reg names) :
    ∃ kind, e.lower.denote I names = some (kind, (e.meaning I).1) ∧
      kind.admits (.exact (reg.renderType e.type)) = true := by
  induction h with
  | @atom t type scalar =>
    have typed := declared (t, type) (by simp [atoms])
    refine ⟨.exact (reg.renderType type), ?_, decide_eq_true rfl⟩
    rw [lower, loweredBy, denote, typed]
    rfl
  | @number t type kind numeric read typed =>
    refine ⟨kind, ?_, typed⟩
    rw [lower, loweredBy, denote, operandType?_of_number read]
    rfl
  | paren inner ih => exact ih declared
  | @minus type e typed signed inner ih =>
    subst typed
    obtain ⟨kind, value, admits⟩ := ih declared
    have number : reg.renderType e.type ∈ signedNames ∨ reg.renderType e.type ∈ floatingNames := by
      rcases Bool.or_eq_true_iff.1 signed with signed | floating
      · have mem := render_of_isInteger (isInteger_of_isSigned signed) reg.recordName
        rw [if_pos signed] at mem
        exact .inl mem
      · exact .inr (render_of_isFloating floating reg.recordName)
    obtain ⟨kind', negative, admits⟩ := RustType.exists_signed?_minus admits number
    exact ⟨kind', denote_unary value negative, admits⟩
  | complement typed integer inner ih =>
    subst typed
    obtain ⟨kind, value, admits⟩ := ih declared
    have family : kind.family? = some .integer := by
      rw [RustType.family?_eq_of_admits admits, family?_of_isInteger integer reg]
    -- truth values have the same operator, with another meaning
    have number : kind ≠ .bool := by
      rintro rfl
      cases family
    have signed : kind.signed? .not = some kind := if_pos (.inl family)
    refine ⟨kind, ?_, admits⟩
    rw [lower, loweredBy, denote_unary value signed, Valuation.signed]
    simp only [if_neg number]
    rfl
  | @shift op type l r shift typed left right shifted distance ihl ihr =>
    subst typed
    obtain ⟨kind, value, admits⟩ := ihl declared.binary.1
    obtain ⟨kind', value', admits'⟩ := ihr declared.binary.2
    have suits := RustType.suits_of_admits admits (suits_of_isInteger shifted op reg)
    have suits' := RustType.suits_of_admits admits' (suits_of_isInteger distance op reg)
    exact ⟨kind, denote_arithmetic value value'
      (RustType.arithmetic?_of_isShift shift suits suits'), admits⟩
  | arithmetic plain typed same left right suits ihl ihr =>
    subst typed
    obtain ⟨kind, value, admits⟩ := ihl declared.binary.1
    obtain ⟨kind', value', admits'⟩ := ihr declared.binary.2
    rw [same] at admits'
    obtain ⟨common, result, admits⟩ :=
      RustType.exists_arithmetic? plain admits admits' (suits_renderType suits reg)
    exact ⟨common, denote_arithmetic value value' result, admits⟩

/-! ## Comparisons -/

theorem IsValue.core_lower_ne_zero (h : IsValue reg e) (declared : e.TypedIn reg names)
    (pointer : e.type.isPointer = true) : e.lower.core ≠ .operand "0" := by
  have zero : operandType? names "0" = some (.any .integer) :=
    operandType?_of_number (by decide)
  induction h with
  | @atom t type scalar =>
    intro same
    obtain rfl : t = "0" := by simpa [loweredBy, RustExpr.core] using same
    have typed := declared ("0", type) (by simp [atoms])
    cases zero.symm.trans typed
  | number numeric =>
    have number := isPointer_eq_false (Bool.or_eq_true_iff.1 numeric)
    cases number.symm.trans pointer
  | paren inner ih => exact ih declared pointer
  | minus | complement | shift | arithmetic => simp [loweredBy, RustExpr.core]

/-- A value is compared as it is, unless it is a zero beside a pointer. -/
theorem IsValue.exists_denote_comparand (h : IsValue reg e) (declared : e.TypedIn reg names)
    (expected : CType) (same : expected.isPointer = true → e.type.isPointer = true) :
    ∃ kind, (comparand expected e.lower).denote I names =
        some (kind, I.comparand expected e.isZero (e.meaning I).1) ∧
      kind.admits (.exact (reg.renderType e.type)) = true := by
  have kept : comparand expected e.lower = e.lower := by
    rw [comparand, if_neg]
    intro zero
    obtain ⟨pointer, core⟩ := Bool.and_eq_true_iff.1 zero
    exact h.core_lower_ne_zero declared (same pointer) (of_decide_eq_true core)
  have value : I.comparand expected e.isZero (e.meaning I).1 = (e.meaning I).1 := by
    rw [Valuation.comparand, if_neg]
    intro zero
    obtain ⟨pointer, zero⟩ := Bool.and_eq_true_iff.1 zero
    cases (same pointer).symm.trans (h.isPointer_of_isZero zero)
  rw [kept, value]
  exact h.exists_denote I declared

theorem IsValue.exists_denote_pointer (h : IsValue reg e) (declared : e.TypedIn reg names)
    (pointer : e.type.isDataPointer = true) {expected : CType}
    (number : expected.isPointer = false) :
    ∃ kind, (comparand expected e.lower).denote I names =
        some (kind, I.comparand expected e.isZero (e.meaning I).1) ∧
      kind.family? = some .pointer := by
  obtain ⟨kind, value, admits⟩ := h.exists_denote_comparand I declared expected (by simp [number])
  refine ⟨kind, value, ?_⟩
  rw [RustType.family?_eq_of_admits admits, family?_of_isDataPointer pointer reg]

theorem core_lower_of_isZero (h : e.isZero = true) : e.lower.core = .operand "0" := by
  induction e with
  | number t type =>
    obtain rfl : t = "0" := of_decide_eq_true h
    rfl
  | paren e ih => exact ih h
  | _ => cases h

theorem denote_comparand_of_isZero (h : e.isZero = true) {expected : CType}
    (pointer : expected.isPointer = true) (fresh : names Fragment.nullPointer = none) :
    (comparand expected e.lower).denote I names =
      some (.any .pointer, I.comparand expected e.isZero (e.meaning I).1) := by
  rw [comparand, core_lower_of_isZero h, Valuation.comparand, pointer, h, ← I.leaf_null]
  simp only [decide_true, Bool.and_self, if_true, null, denote,
    operandType?_null fresh, Option.map_some]

/-! ## Tests for zero -/

section Tests

variable {e : CExpr} (wrap : RustExpr → RustExpr) (t : RustExpr)

theorem tested_of_yieldsBool (h : e.yieldsBool = true) : e.tested wrap t = t :=
  if_pos h

theorem negated_of_yieldsBool (h : e.yieldsBool = true) (plain : e.type.isPointer = false) :
    e.negated wrap t = .unary .not (wrap t) := by
  rw [negated, plain, h]
  rfl

/-- What has a zero is compared with it. -/
theorem tested_of_isTestable (h : e.yieldsBool = false) (testable : e.type.isTestable = true)
    (plain : e.type.isBool = false) :
    e.tested wrap t = .binary (.comparison .ne) (wrap t) (.operand e.type.zeroText) ∧
      e.negated wrap t = .binary (.comparison .eq) (wrap t) (.operand e.type.zeroText) := by
  rw [tested, negated, h, zeroText]
  generalize e.type = type at testable plain ⊢
  cases type with
  | pointer pointee => exact ⟨rfl, rfl⟩
  | float | double | longDouble => exact ⟨rfl, rfl⟩
  | char | short | int | long | longLong | enum => exact ⟨rfl, rfl⟩
  | named name =>
    have integer : (named name).isInteger = true := by
      simpa [isTestable, isNumeric, isFloating, isBool,
        isDataPointer] using testable
    refine ⟨?_, rfl⟩
    rw [integer]
    rfl
  | bool => cases plain
  | void | array | record | function => cases testable

end Tests

/-- A value in parentheses is tested like the value. -/
theorem denote_tested_paren (e : CExpr) (t : RustExpr) :
    ((CExpr.paren e).tested .group (.paren t)).denote I names =
      (e.tested .group t).denote I names := by
  have same : (CExpr.paren e).yieldsBool = e.yieldsBool := rfl
  have type : (CExpr.paren e).type = e.type := rfl
  have group : ∀ op z, (RustExpr.binary op (RustExpr.paren t).group z).denote I names =
      (RustExpr.binary op t.group z).denote I names := by
    intro op z
    rw [RustExpr.denote, RustExpr.denote, RustExpr.denote_group, RustExpr.denote_group]
    rfl
  rw [tested, tested, same, type]
  split
  · rfl
  · split
    · exact group _ _
    · split
      · exact group _ _
      · split
        · exact group _ _
        · rfl

/-- **The negation of what is tested.** -/
theorem IsCondition.exists_denote_negated (h : IsCondition reg e) {t : RustExpr} {v : V}
    (tested : (e.tested .group t).denote I names = some (.bool, v)) :
    ∃ w, (e.negated .group t).denote I names = some (.bool, w) ∧ I.isTrue w = !I.isTrue v := by
  rcases h.type_cases with ⟨truth, plain⟩ | ⟨value, testable, plain⟩
  · rw [tested_of_yieldsBool _ _ truth] at tested
    refine ⟨I.ofBool (!I.isTrue v), ?_, I.isTrue_ofBool _⟩
    rw [negated_of_yieldsBool _ _ truth plain, denote, denote_group, tested]
    rfl
  · -- both compare with the same zero, so that both have a value if one has
    obtain ⟨differs, equals⟩ := tested_of_isTestable group t value testable plain
    rw [differs, denote, Option.bind_eq_some_iff] at tested
    obtain ⟨a, ha, tested⟩ := tested
    obtain ⟨b, hb, tested⟩ := Option.bind_eq_some_iff.1 tested
    obtain ⟨c, common, same⟩ := Option.map_eq_some_iff.1 tested
    obtain rfl : I.ofBool (I.compare .ne a.2 b.2) = v := congrArg Prod.snd same
    refine ⟨I.ofBool (I.compare .eq a.2 b.2), ?_, ?_⟩
    · rw [equals]
      exact denote_comparison ha hb ⟨c, common⟩ .eq
    · rw [I.isTrue_ofBool, I.isTrue_ofBool, I.compare_ne, Bool.not_not]

/-! ## Conditions -/

/-- A value that is used as a condition. -/
theorem IsValue.exists_denote_tested (h : IsValue reg e) (testable : e.type.isTestable = true)
    (declared : e.TypedIn reg names) (fresh : names Fragment.nullPointer = none) :
    ∃ v, (e.tested .group e.lower).denote I names = some (.bool, v) ∧
      I.isTrue v = (e.meaning I).2 := by
  obtain ⟨kind, value, admits⟩ := h.exists_denote I declared
  rw [h.truth_eq I, Valuation.test]
  cases truth : e.type.isBool with
  | true =>
    -- no number has the type of truth values, so the type is known exactly
    have render : reg.renderType e.type = "bool" := by
      rw [eq_bool_of_isBool truth]
      rfl
    rw [render] at admits
    obtain rfl : kind = .bool := by
      have none := RustType.family?_eq_of_admits admits
      cases kind with
      | exact name => exact (of_decide_eq_true admits).symm
      | any | anySigned => cases none
    refine ⟨_, ?_, rfl⟩
    rw [tested_of_yieldsBool _ _ (h.yieldsBool_eq.trans truth), value]
  | false =>
    have zero : (operand e.type.zeroText).denote I names =
        some (.any e.type.zeroFamily, I.zeroOf e.type) := by
      rw [denote, operandType?_zeroText _ fresh, ← I.leaf_zeroText]
      rfl
    have family : kind.family? = some e.type.zeroFamily := by
      rw [RustType.family?_eq_of_admits admits, family?_of_isTestable testable truth reg]
    obtain ⟨differs, -⟩ := tested_of_isTestable group e.lower
      (h.yieldsBool_eq.trans truth) testable truth
    refine ⟨_, ?_, I.isTrue_ofBool _⟩
    rw [differs, denote_comparison ((denote_group ..).trans value) zero
      (RustType.exists_common?_any family).1, I.compare_ne]
    rfl

/-- **A condition has the same truth value in the target.** -/
theorem IsCondition.exists_denote_tested (h : IsCondition reg e) (declared : e.TypedIn reg names)
    (fresh : names Fragment.nullPointer = none) :
    ∃ v, (e.tested .group e.lower).denote I names = some (.bool, v) ∧
      I.isTrue v = (e.meaning I).2 := by
  -- on the conditions: below a comparison there are values only
  induction h with
  | value value testable => exact value.exists_denote_tested I testable declared fresh
  | @paren e inner ih =>
    obtain ⟨v, tested, truth⟩ := ih declared
    exact ⟨v, (denote_tested_paren I e e.lower).trans tested, truth⟩
  | @lnot type e plain inner ih =>
    obtain ⟨v, tested, truth⟩ := ih declared
    obtain ⟨w, negated, opposite⟩ := inner.exists_denote_negated I tested
    refine ⟨w, negated, ?_⟩
    rw [opposite, truth]
    rfl
  | @logical op type l r plain left right ihl ihr =>
    obtain ⟨v, testedl, truthl⟩ := ihl declared.binary.1
    obtain ⟨w, testedr, truthr⟩ := ihr declared.binary.2
    refine ⟨I.ofBool (op.apply (I.isTrue v) (I.isTrue w)), ?_, ?_⟩
    · rw [tested_of_yieldsBool _ _ rfl, lower, loweredBy, denote_binary testedl testedr]
      rfl
    · rw [I.isTrue_ofBool, truthl, truthr]
      rfl
  | @comparison op type l r plain left right same =>
    obtain ⟨declaredl, declaredr⟩ := declared.binary
    obtain ⟨kind, value, admits⟩ :=
      left.exists_denote_comparand I declaredl r.type (by rw [same]; exact id)
    obtain ⟨kind', value', admits'⟩ :=
      right.exists_denote_comparand I declaredr l.type (by rw [same]; exact id)
    rw [same] at admits'
    obtain ⟨c, common, -⟩ := RustType.exists_common? admits admits'
    exact ⟨_, denote_comparison value value' ⟨c, common⟩ _, I.isTrue_ofBool _⟩
  | nullRight plain left pointer right zero =>
    obtain ⟨kind, value, family⟩ :=
      left.exists_denote_pointer I declared.binary.1 pointer (right.isPointer_of_isZero zero)
    have null := denote_comparand_of_isZero I zero (isPointer_of_isDataPointer pointer) fresh
    exact ⟨_, denote_comparison value null (RustType.exists_common?_any family).1 _,
      I.isTrue_ofBool _⟩
  | nullLeft plain left zero right pointer =>
    obtain ⟨kind, value, family⟩ :=
      right.exists_denote_pointer I declared.binary.2 pointer (left.isPointer_of_isZero zero)
    have null := denote_comparand_of_isZero I zero (isPointer_of_isDataPointer pointer) fresh
    exact ⟨_, denote_comparison null value (RustType.exists_common?_any family).2 _,
      I.isTrue_ofBool _⟩

end CExpr

end Denotations

/-! ## Nodes -/

/-- **A condition is read as what its test is written as**, where no comparison clashes. -/
theorem Node.Expresses.read?_materialize {reg : Registry} {ctx : Context} {n : Node} {e : CExpr}
    (h : n.Expresses reg ctx e) (grammatical : e.isGrammatical = true)
    (unclashing : e.unclashing = true) :
    RustExpr.read? (n.materialize (n.emitExpression reg ctx).value) =
      some (e.tested .group e.lower) := by
  have solid := h.solid.lower
  have tested := (CExpr.each_tested (by decide) solid solid.group e).1
  have fits : (e.tested .group e.lower).fits = true := by
    rw [RustExpr.fits_eq, RustExpr.Solid.isWordy tested, CExpr.isTight_tested,
      CExpr.isTight_lower_eq grammatical, unclashing]
    rfl
  rw [h.emitExpression_eq, h.materialize_eq]
  exact RustExpr.read?_text_of_fits fits

/-- **Conditions are written as truth values.**  Take a well-typed condition, parenthesised as the
source language requires, in which no pointer to a function is tested or compared with a zero, and
no minus stands before an unsigned number.  Unless it is a truth value already, what is written
compares its text with the zero of its type.  It is read in the target as an expression of the type
of truth values, with each name of the type that it is rendered with, and the expression is true
just when the condition is true in the source, whatever its names and numbers and the operators on
them stand for. -/
theorem exists_denote_materialize {reg : Registry} {ctx : Context} {n : Node} {e : CExpr}
    (h : n.Expresses reg ctx e) (grammatical : e.isGrammatical = true) (typed : e.IsCondition reg)
    {names : String → Option String}
    (declared : ∀ a ∈ e.atoms, names a.1 = some (reg.renderType a.2))
    (fresh : names Fragment.nullPointer = none) {V : Type} (I : Valuation V) :
    let text := (n.emitExpression reg ctx).value
    n.materialize text =
        (if e.yieldsBool then text else Fragment.grouped text ++ " != " ++ e.type.zeroText) ∧
      ∃ t v, RustExpr.read? (n.materialize text) = some t ∧
        t.denote I names = some (.bool, v) ∧ I.isTrue v = (e.meaning I).2 := by
  intro text
  have solid := h.solid.lower
  have written : text = e.lower.text := h.emitExpression_eq
  have types : e.TypedIn reg names := fun a ha =>
    operandType?_of_name (h.apart.numberType?_eq_none a ha) (declared a ha)
  obtain ⟨v, denotes, truth⟩ := typed.exists_denote_tested I types fresh
  -- in a well-typed condition no comparison is an operand of another operator
  refine ⟨?_, _, v, h.read?_materialize grammatical typed.unclashing, denotes, truth⟩
  rw [written, h.materialize_eq]
  rcases typed.type_cases with ⟨yields, -⟩ | ⟨yields, testable, plain⟩
  · rw [CExpr.tested_of_yieldsBool _ _ yields, yields]
    rfl
  · have mark : " " ++ Comparison.ne.spelling ++ " " = " != " := rfl
    rw [(CExpr.tested_of_isTestable RustExpr.group e.lower yields testable plain).1,
      RustExpr.text_comparison, RustExpr.grouped_text solid, mark, yields]
    exact (String.append_assoc ..).symm

/-! ## A condition of several types -/

def variableNode (name : String) (type : CType) : Node :=
  { kind := .declRefExpr, spelling := name, type }

def numberNode (kind : Kind) (token : String) (type : CType) : Node :=
  { kind, type, tokens := [token] }

/-- An operator between two operands. -/
def operatorNode (op : InfixOp) (type : CType) (a b : Node) : Node :=
  { kind := .binaryOperator op.toBinary, type, children := [a, b] }

/-- The condition `p && a & 6 || !(x * 2.5f < y) && flag`. -/
def choiceNode : Node :=
  operatorNode (.logical .or) (.int true)
    (operatorNode (.logical .and) (.int true)
      (variableNode "p" (.pointer (.int true)))
      (operatorNode (.arithmetic .and) (.int true) (variableNode "a" (.int true))
        (numberNode .integerLiteral "6" (.int true))))
    (operatorNode (.logical .and) (.int true)
      { kind := .unaryOperator .lnot, type := .int true, children :=
        [{ kind := .parenExpr, type := .int true, children :=
          [operatorNode (.comparison .lt) (.int true)
            (operatorNode (.arithmetic .mul) .float (variableNode "x" .float)
              (numberNode .floatingLiteral "2.5f" .float))
            (variableNode "y" .float)] }] }
      (variableNode "flag" .bool))

/-- The condition as an expression. -/
def choiceExpr : CExpr :=
  .binary (.logical .or) (.int true)
    (.binary (.logical .and) (.int true)
      (.atom "p" (.pointer (.int true)))
      (.binary (.arithmetic .and) (.int true) (.atom "a" (.int true)) (.number "6" (.int true))))
    (.binary (.logical .and) (.int true)
      (.lnot (.int true) (.paren
        (.binary (.comparison .lt) (.int true)
          (.binary (.arithmetic .mul) .float (.atom "x" .float) (.number "2.5f32" .float))
          (.atom "y" .float))))
      (.atom "flag" .bool))

def choiceNames (text : String) : Option String :=
  [("p", "*mut i32"), ("a", "i32"), ("x", "f32"), ("y", "f32"), ("flag", "bool")].lookup text

/-- Integers as values, in the place of truth values too. -/
def Valuation.ofIntegers (leaf : String → Int) : Valuation Int where
  leaf
  arithmetic
    | .add, a, b => a + b
    | .sub, a, b => a - b
    | .mul, a, b => a * b
    | .div, a, b => a.tdiv b
    | .rem, a, b => a.tmod b
    | .and, a, b => (a.toNat &&& b.toNat : Nat)
    | .or, a, b => (a.toNat ||| b.toNat : Nat)
    | .xor, a, b => (a.toNat ^^^ b.toNat : Nat)
    | .shl, a, b => a * (Nat.shiftLeft 1 b.toNat : Nat)
    | .shr, a, b => a >>> b.toNat
  negate a := -a
  complement a := -a - 1
  compare
    | .eq, a, b => a = b
    | .ne, a, b => a ≠ b
    | .lt, a, b => a < b
    | .le, a, b => a ≤ b
    | .gt, a, b => b < a
    | .ge, a, b => b ≤ a
  ofBool b := if b then 1 else 0
  isTrue a := a ≠ 0
  zero := leaf "0"
  floatingZero := leaf "0.0"
  null := leaf Fragment.nullPointer
  isTrue_ofBool b := by cases b <;> rfl
  compare_ne a b := by simp
  leaf_zero := rfl
  leaf_floatingZero := rfl
  leaf_null := rfl

/-- Some values of the names and numbers. -/
def choiceValues (text : String) : Int :=
  let values := [("p", 7), ("a", 5), ("6", 6), ("x", 2), ("2.5f32", 3), ("y", 4), ("flag", 1)]
  (values.lookup text).getD 0

theorem expresses_choiceNode : choiceNode.Expresses {} {} choiceExpr := by
  have plain : ∀ {op : InfixOp}, op ≠ .arithmetic .add → ∀ {a b : Node},
      op = .arithmetic .add → a.type.isPointer = false ∧ b.type.isPointer = false :=
    fun h _ _ same => absurd same h
  have mask : (operatorNode (.arithmetic .and) (.int true) (variableNode "a" (.int true))
      (numberNode .integerLiteral "6" (.int true))).Expresses {} {} _ :=
    .binary (.arithmetic .and) rfl rfl (plain (by decide)) (.reference rfl rfl (by decide))
      (.integer rfl rfl (by decide))
  have product : (operatorNode (.arithmetic .mul) .float (variableNode "x" .float)
      (numberNode .floatingLiteral "2.5f" .float)).Expresses {} {} _ :=
    .binary (.arithmetic .mul) rfl rfl (plain (by decide)) (.reference rfl rfl (by decide))
      (.floating rfl rfl (by decide))
  have compared := Node.Expresses.binary (n := operatorNode (.comparison .lt) (.int true) _ _)
    (.comparison .lt) rfl rfl (plain (by decide)) product
    (.reference (n := variableNode "y" .float) rfl rfl (by decide))
  exact .binary (.logical .or) rfl rfl (plain (by decide))
    (.binary (.logical .and) rfl rfl (plain (by decide)) (.reference rfl rfl (by decide)) mask)
    (.binary (.logical .and) rfl rfl (plain (by decide))
      (.lnot rfl rfl (.paren rfl rfl rfl compared)) (.reference rfl rfl (by decide)))

theorem isCondition_choiceExpr : choiceExpr.IsCondition {} := by
  have mask : CExpr.IsValue {} (.binary (.arithmetic .and) (.int true) (.atom "a" (.int true))
      (.number "6" (.int true))) :=
    .arithmetic rfl rfl rfl (.atom rfl) (.number rfl rfl rfl) rfl
  have product : CExpr.IsValue {} (.binary (.arithmetic .mul) .float (.atom "x" .float)
      (.number "2.5f32" .float)) :=
    .arithmetic rfl rfl rfl (.atom rfl) (.number rfl rfl rfl) rfl
  exact .logical rfl (.logical rfl (.value (.atom rfl) rfl) (.value mask rfl))
    (.logical rfl (.lnot rfl (.paren (.comparison rfl product (.atom rfl) rfl)))
      (.value (.atom rfl) rfl))

theorem exists_denote_materialize_choice :
    choiceNode.Expresses {} {} choiceExpr ∧ choiceExpr.isGrammatical = true ∧
      choiceExpr.IsCondition {} ∧
      (choiceNode.emitExpression {} {}).value =
        "p != std::ptr::null_mut() && (a & 6) != 0 || !(x * 2.5f32 < y) && flag" ∧
      (choiceExpr.meaning (.ofIntegers choiceValues)).2 = true ∧
      ∃ t v, RustExpr.read? (choiceNode.materialize (choiceNode.emitExpression {} {}).value) =
          some t ∧
        t.denote (.ofIntegers choiceValues) choiceNames = some (.bool, v) ∧
        (Valuation.ofIntegers choiceValues).isTrue v = true := by
  have expresses := expresses_choiceNode
  have text : (choiceNode.emitExpression {} {}).value =
      "p != std::ptr::null_mut() && (a & 6) != 0 || !(x * 2.5f32 < y) && flag" := by
    rw [expresses.emitExpression_eq]
    decide
  have declared : ∀ a ∈ choiceExpr.atoms,
      choiceNames a.1 = some (Registry.renderType {} a.2) := by decide
  obtain ⟨-, t, v, read, denotes, truth⟩ := exists_denote_materialize expresses rfl
    isCondition_choiceExpr declared rfl (.ofIntegers choiceValues)
  exact ⟨expresses, rfl, isCondition_choiceExpr, text, rfl, t, v, read, denotes, truth⟩

/-! ## Pointers to functions -/

/-- A variable that points to a function. -/
def callbackNode : Node :=
  variableNode "callback" (.pointer (.function .void [] false))

/-- **A pointer to a function is not written as a truth value**: it is compared with the null
pointer, and an optional function has no such comparison. -/
theorem denote_materialize_callback :
    callbackNode.Expresses {} {} (.atom "callback" callbackNode.type) ∧
      Registry.renderType {} callbackNode.type = "Option<unsafe fn()>" ∧
      callbackNode.materialize (callbackNode.emitExpression {} {}).value =
        "callback != std::ptr::null_mut()" ∧
      RustExpr.read? "callback != std::ptr::null_mut()" =
        some (.binary (.comparison .ne) (.operand "callback") .null) ∧
      ∀ (V : Type) (I : Valuation V) (names : String → Option String),
        names "callback" = some "Option<unsafe fn()>" → names Fragment.nullPointer = none →
        (RustExpr.binary (.comparison .ne) (.operand "callback") .null).denote I names = none := by
  have expresses : callbackNode.Expresses {} {} (.atom "callback" callbackNode.type) :=
    .reference rfl rfl (by decide)
  refine ⟨expresses, rfl, ?_, by decide, ?_⟩
  · rw [expresses.emitExpression_eq, expresses.materialize_eq]
    decide
  · intro V I names named fresh
    have other : numberType? "callback" = none := by decide
    rw [RustExpr.denote, RustExpr.denote, operandType?_of_name other named, RustExpr.null,
      RustExpr.denote, operandType?_null fresh]
    rfl

/-! ## Unsigned numbers -/

/-- **A minus before an unsigned variable is not written as a truth value**: it is compared with a
zero as it stands, and the target has no such minus. -/
theorem denote_materialize_minus {reg : Registry} {ctx : Context} {n : Node} {name : String}
    {type : CType} (h : n.Expresses reg ctx (.unary .minus type (.atom name type)))
    (integer : type.isInteger = true) (unsigned : type.isSigned = false) :
    RustExpr.read? (n.materialize (n.emitExpression reg ctx).value) =
        some (.binary (.comparison .ne) (.paren (.unary .minus (.operand name))) (.operand "0")) ∧
      ∀ {V : Type} (I : Valuation V) {names : String → Option String},
        names name = some (reg.renderType type) →
        (RustExpr.binary (.comparison .ne) (.paren (.unary .minus (.operand name)))
          (.operand "0")).denote I names = none := by
  constructor
  · have plain := isBool_eq_false (.inl integer)
    have testable : type.isTestable = true := by simp [isTestable, isNumeric, integer]
    have zero : type.zeroText = "0" := by
      rw [zeroText, isPointer_eq_false (.inl integer), isFloating_of_isInteger integer]
      rfl
    have tested := (CExpr.tested_of_isTestable (e := .unary .minus type (.atom name type))
      RustExpr.group (.unary .minus (.operand name)) plain testable plain).1
    rw [h.read?_materialize rfl rfl]
    exact congrArg some (tested.trans (by rw [CExpr.type, zero]; rfl))
  · intro V I names named
    have other : numberType? name = none :=
      h.apart.numberType?_eq_none (name, type) (by simp [CExpr.atoms])
    have value : (RustExpr.operand name).denote I names =
        some (.exact (reg.renderType type), I.leaf name) := by
      rw [RustExpr.denote, operandType?_of_name other named]
      rfl
    have unnamed : ∀ u ∈ unsignedNames, (RustType.exact u).signed? .minus = none := by decide
    have mem := render_of_isInteger integer reg.recordName
    rw [unsigned] at mem
    have negative : (RustExpr.paren (.unary .minus (.operand name))).denote I names = none := by
      rw [RustExpr.denote, RustExpr.denote, value, Option.bind_some]
      exact congrArg (Option.map _) (unnamed _ mem)
    rw [RustExpr.denote, negative]
    rfl

end Ferric
