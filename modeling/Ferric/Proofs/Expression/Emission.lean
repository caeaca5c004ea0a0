import Ferric.Proofs.Expression.Texts

/-!
# Texts of expressions with operators

The text of a tree of operators is the one of its lowered expression: each operator is written
between the texts of its operands, and what the composition does with these texts is what the
lowering does with the expressions.

## Main definitions

* `Node.Expresses`: the nodes of a tree that stand for an expression.
* `Node.Agrees`: a node is tested and negated like an expression.

## Main results

* `Node.Expresses.emit_eq`: a node is written as the lowered expression.
* `Node.Expresses.materialize_eq`: used as a condition, it is tested.
-/

namespace Ferric

open Chars Draft Scan List

/-! ## Names and numbers -/

namespace Chars

/-- Names of the source language. -/
def isIdentifier (cs : List Char) : Bool :=
  cs.head?.any (fun c => !c.isDigit) && cs.all isWordChar

/-- The digits of base sixteen. -/
def isHexDigit (c : Char) : Bool :=
  c.isDigit || c ∈ ['a', 'b', 'c', 'd', 'e', 'f', 'A', 'B', 'C', 'D', 'E', 'F']

/-- Integer constants of the source language: decimal, octal or hexadecimal, with suffixes. -/
def isIntegerConstant (token : List Char) : Bool :=
  match dropEndWhile isIntegerSuffix token with
  | [] => false
  | '0' :: x :: digits =>
    if x = 'x' || x = 'X' then !digits.isEmpty && digits.all isHexDigit
    else (x :: digits).all Char.isDigit
  | digits => digits.all Char.isDigit

theorem isWordChar_of_isDigit {c : Char} (h : c.isDigit = true) : isWordChar c = true := by
  simp [isWordChar, Char.isAlphanum, h]

theorem isWordChar_of_isHexDigit {c : Char} (h : isHexDigit c = true) : isWordChar c = true := by
  rcases Bool.or_eq_true_iff.1 h with h | h
  · exact isWordChar_of_isDigit h
  · have letters : ∀ c ∈ ['a', 'b', 'c', 'd', 'e', 'f', 'A', 'B', 'C', 'D', 'E', 'F'],
        isWordChar c = true := by decide
    exact letters c (of_decide_eq_true h)

variable {cs : List Char}

theorem foldlM_of_step? {scan : Scan} (h : ∀ c ∈ cs, step? scan c = some scan) :
    cs.foldlM step? scan = some scan := by
  induction cs with
  | nil => rfl
  | cons c cs ih =>
    rw [foldlM_cons, h c mem_cons_self]
    exact ih fun d hd => h d (mem_cons_of_mem c hd)

theorem foldlM_name (h : ∀ c ∈ cs, isWordChar c = true) : cs.foldlM step? .name = some .name :=
  foldlM_of_step? fun c hc => by simp [step?, h c hc]

theorem foldlM_number (h : ∀ c ∈ cs, c.isDigit = true) :
    cs.foldlM step? .number = some .number :=
  foldlM_of_step? fun c hc => by simp [step?, h c hc]

/-- A word without brackets is the text of an operand. -/
theorem operand_of_isWordChar (word : isOperandWord cs = true) (h : ∀ c ∈ cs, isWordChar c = true) :
    Operand cs where
  word := word
  nested := nested_of_not_bracket fun c hc => isBracket_of_isWordChar (h c hc)
  unwrapped := by
    have head : cs.head? ≠ some '(' := fun hc => by
      cases h '(' (mem_of_head? hc)
    simp [isWrapped, head]

theorem operand_of_isIdentifier (h : isIdentifier cs = true) : Operand cs := by
  obtain ⟨head, word⟩ := Bool.and_eq_true_iff.1 h
  have word : ∀ c ∈ cs, isWordChar c = true := all_eq_true.1 word
  refine operand_of_isWordChar ?_ word
  cases cs with
  | nil => cases head
  | cons c cs =>
    have letter : c.isDigit = false := by simpa using head
    have start : startAt? c cs = some .name := by
      have other : c ≠ '(' := by
        rintro rfl
        cases word '(' mem_cons_self
      rw [startAt?_of_ne other]
      simp [start?, letter, word c mem_cons_self]
    have rest := foldlM_name fun d hd => word d (mem_cons_of_mem c hd)
    simp [isOperandWord, ofWord?, start, rest, isOperand]

theorem head?_of_isIdentifier (h : isIdentifier cs = true) : cs.head?.any Char.isDigit = false := by
  obtain ⟨head, -⟩ := Bool.and_eq_true_iff.1 h
  obtain ⟨c, start, letter⟩ := (Option.any_eq_true _ _).1 head
  rw [start]
  simpa using letter

theorem operand_of_isDigit (nonempty : cs ≠ []) (digits : ∀ c ∈ cs, c.isDigit = true) :
    Operand cs := by
  refine operand_of_isWordChar ?_ fun c hc => isWordChar_of_isDigit (digits c hc)
  obtain ⟨c, cs, rfl⟩ := exists_cons_of_ne_nil nonempty
  have digit := digits c mem_cons_self
  have start : startAt? c cs = some .number := by
    have other : c ≠ '(' := by
      rintro rfl
      cases digit
    rw [startAt?_of_ne other]
    simp [start?, digit]
  have rest := foldlM_number fun d hd => digits d (mem_cons_of_mem c hd)
  simp [isOperandWord, ofWord?, start, rest, isOperand]

/-- A number of another base than ten. -/
theorem operand_of_mark {x : Char} (mark : x ∈ ['o', 'x', 'X']) {digits : List Char}
    (h : ∀ c ∈ digits, isWordChar c = true) :
    Operand ('0' :: x :: digits) ∧ ∀ c ∈ '0' :: x :: digits, isWordChar c = true := by
  have letters : ∀ x ∈ ['o', 'x', 'X'], isWordChar x = true ∧
      step? .number x = some .name := by decide
  obtain ⟨letter, step⟩ := letters x mark
  have word : ∀ c ∈ '0' :: x :: digits, isWordChar c = true := by
    intro c hc
    simp only [mem_cons] at hc
    rcases hc with rfl | rfl | hc
    · rfl
    · exact letter
    · exact h c hc
  refine ⟨operand_of_isWordChar ?_ word, word⟩
  have start : startAt? '0' (x :: digits) = some .number := rfl
  simp [isOperandWord, ofWord?, start, step, foldlM_name h, isOperand]

/-- **An integer constant is written as an operand of letters and digits.** -/
theorem operand_integerLiteral {token : List Char} (h : isIntegerConstant token = true) :
    Operand (integerLiteral token) ∧ ∀ c ∈ integerLiteral token, isWordChar c = true := by
  unfold isIntegerConstant at h
  unfold integerLiteral
  generalize dropEndWhile isIntegerSuffix token = digits at h ⊢
  split
  · cases h
  · exact ⟨by decide, by decide⟩
  · -- a leading zero: what follows decides between base sixteen and base eight
    rename_i digits single
    obtain ⟨x, digits, rfl⟩ : ∃ x xs, digits = x :: xs :=
      exists_cons_of_ne_nil fun h => single (by rw [h])
    simp only at h
    split at h
    · rename_i mark
      obtain ⟨-, hex⟩ := Bool.and_eq_true_iff.1 h
      have hex : ∀ c ∈ digits, isHexDigit c = true := all_eq_true.1 hex
      have letter : x.isDigit = false := by
        rcases Bool.or_eq_true_iff.1 mark with h | h <;> rw [of_decide_eq_true h] <;> rfl
      have mark : x ∈ ['o', 'x', 'X'] := by
        rcases Bool.or_eq_true_iff.1 mark with h | h <;> simp [of_decide_eq_true h]
      rw [if_neg (by simp [letter])]
      exact operand_of_mark mark fun c hc => isWordChar_of_isHexDigit (hex c hc)
    · have octal : ∀ c ∈ x :: digits, c.isDigit = true := all_eq_true.1 h
      rw [if_pos h]
      exact operand_of_mark (by simp) fun c hc => isWordChar_of_isDigit (octal c hc)
  · rename_i nonempty _ other
    have decimal : ∀ c ∈ digits, c.isDigit = true := by
      split at h
      · cases h
      · exact absurd rfl (other _)
      · exact all_eq_true.1 h
    exact ⟨operand_of_isDigit nonempty decimal, fun c hc => isWordChar_of_isDigit (decimal c hc)⟩

end Chars

/-- A name is still one when it is kept apart from the reserved words. -/
theorem isIdentifier_sanitize {name : String} (h : isIdentifier name.toList = true) :
    isIdentifier (sanitize name).toList = true := by
  obtain ⟨head, word⟩ := Bool.and_eq_true_iff.1 h
  rw [sanitize]
  split
  · have shape : (name ++ "_").toList = name.toList ++ ['_'] := by simp
    rw [shape, isIdentifier, all_append, word]
    cases start : name.toList with
    | nil => rw [start] at head; cases head
    | cons c cs =>
      rw [start] at head
      have letter : c.isDigit = false := by simpa using head
      have mark : isWordChar '_' = true := rfl
      simp [letter, mark]
  · split
    · have shape : ("r#" ++ name).toList = 'r' :: '#' :: name.toList := by simp
      rw [shape, isIdentifier, all_cons, all_cons, word]
      rfl
    · exact h

theorem CType.isPointer_eq_false {t : CType} (h : t.isInteger = true ∨ t.isFloating = true) :
    t.isPointer = false := by
  cases t with
  | pointer pointee => rcases h with h | h <;> cases h
  | _ => rfl

/-- **Names and numbers are told apart**: names do not start with a digit, and numbers are no
pointers. -/
def CExpr.Apart : CExpr → Prop
  | .atom t _ => t.toList.head?.any Char.isDigit = false
  | .number _ type => type.isPointer = false
  | .paren e | .unary _ _ e | .lnot _ e => e.Apart
  | .binary _ _ l r => l.Apart ∧ r.Apart

/-- A pointer is not written as a zero. -/
theorem CExpr.Apart.core_loweredBy_ne_zero {e : CExpr} (h : e.Apart)
    (pointer : e.type.isPointer = true) (wrap : RustExpr → RustExpr) :
    (e.loweredBy wrap).core ≠ .operand "0" := by
  induction e with
  | atom t type =>
    intro zero
    obtain rfl : t = "0" := by simpa [CExpr.loweredBy, RustExpr.core] using zero
    cases h
  | number t type => cases h.symm.trans pointer
  | paren e ih => exact ih h pointer
  | unary => simp [CExpr.loweredBy, RustExpr.core]
  | lnot type e =>
    rw [CExpr.loweredBy, CExpr.negated]
    repeat' split
    all_goals simp [RustExpr.core]
  | binary op => rcases op with op | op | op <;> simp [CExpr.loweredBy, RustExpr.core]

/-! ## Nodes -/

/-- The operator of a node. -/
def PrefixOp.toUnary : PrefixOp → UnaryOp
  | .minus => .minus
  | .not => .not

namespace Node

/-- **The nodes that stand for an expression**, with the texts of the operands: variables, members,
elements and calls, numbers, parentheses, wrappers that keep the type, and operators.  Pointers are
not added to. -/
inductive Expresses (reg : Registry) (ctx : Context) : Node → CExpr → Prop
  | reference {n : Node} (kind : n.kind = .declRefExpr) (object : n.type.isFunction = false)
      (named : isIdentifier n.spelling.toList = true) :
      Expresses reg ctx n (.atom (sanitize n.spelling) n.type)
  | compound {n : Node}
      (kind : n.kind ∈ [Kind.memberRefExpr, Kind.arraySubscriptExpr, Kind.callExpr])
      (operand : Chars.Operand (n.emit reg ctx).value.toList)
      (named : (n.emit reg ctx).value.toList.head?.any Char.isDigit = false) :
      Expresses reg ctx n (.atom (n.emit reg ctx).value n.type)
  | integer {n : Node} (kind : n.kind = .integerLiteral) (type : n.type.isInteger = true)
      (constant : isIntegerConstant n.firstToken.toList = true) :
      Expresses reg ctx n (.number (Literal.integer n.firstToken) n.type)
  | floating {n : Node} (kind : n.kind = .floatingLiteral) (type : n.type.isFloating = true)
      (operand : Chars.Operand (Literal.floating n.firstToken).toList) :
      Expresses reg ctx n (.number (Literal.floating n.firstToken) n.type)
  | paren {n c : Node} {e : CExpr} (kind : n.kind = .parenExpr) (child : n.children = [c])
      (type : n.type = c.type) (inner : Expresses reg ctx c e) : Expresses reg ctx n (.paren e)
  | wrapper {n c : Node} {e : CExpr} (kind : n.kind = .unexposedExpr)
      (last : n.children.getLast? = some c) (type : n.type = c.type)
      (inner : Expresses reg ctx c e) : Expresses reg ctx n e
  | unary {n c : Node} {e : CExpr} (op : PrefixOp) (kind : n.kind = .unaryOperator op.toUnary)
      (child : n.children = [c]) (inner : Expresses reg ctx c e) :
      Expresses reg ctx n (.unary op n.type e)
  | lnot {n c : Node} {e : CExpr} (kind : n.kind = .unaryOperator .lnot)
      (child : n.children = [c]) (inner : Expresses reg ctx c e) :
      Expresses reg ctx n (.lnot n.type e)
  | binary {n a b : Node} {l r : CExpr} (op : InfixOp) (kind : n.kind = .binaryOperator op.toBinary)
      (operands : n.children = [a, b])
      (plain : op = .arithmetic .add → a.type.isPointer = false ∧ b.type.isPointer = false)
      (left : Expresses reg ctx a l) (right : Expresses reg ctx b r) :
      Expresses reg ctx n (.binary op n.type l r)

/-! ### What is inside of wrappers -/

theorem core_of_not_isWrapper {n : Node} (h : n.kind.isWrapper = false) : n.core = n := by
  cases n
  simp only at h
  rw [core, if_neg (by simp [h])]

theorem coreOfLast_eq {outer c : Node} {children : List Node}
    (last : children.getLast? = some c) : coreOfLast outer children = c.core := by
  induction children with
  | nil => cases last
  | cons d ds ih =>
    cases ds with
    | nil =>
      obtain rfl : d = c := by simpa using last
      rw [coreOfLast]
    | cons e ds =>
      rw [coreOfLast]
      exact ih (by simpa [getLast?_cons_cons] using last)

theorem core_of_isWrapper {n c : Node} (h : n.kind.isWrapper = true)
    (last : n.children.getLast? = some c) : n.core = c.core := by
  cases n
  simp only at h last
  rw [core, if_pos h, coreOfLast_eq last]

/-! ### Tests and negations -/

/-- **A node is tested and negated like an expression**: both are pointers or none is, both are
truth values or none is, and what is no truth value has the type of the expression. -/
structure Agrees (n : Node) (e : CExpr) : Prop where
  isPointer : n.type.isPointer = e.type.isPointer
  core_isPointer : n.core.type.isPointer = true → e.type.isPointer = true
  yieldsBool : n.yieldsBool = e.yieldsBool
  type : e.yieldsBool = false → n.type = e.type ∧ n.conditionType = e.type

namespace Agrees

variable {n c : Node} {e : CExpr}

theorem of_not_isWrapper (plain : n.kind.isWrapper = false) (type : n.type = e.type)
    (yields : n.core = n → n.yieldsBool = e.yieldsBool) : n.Agrees e where
  isPointer := by rw [type]
  core_isPointer := by
    rw [core_of_not_isWrapper plain, type]
    exact id
  yieldsBool := yields (core_of_not_isWrapper plain)
  type _ := ⟨type, by rw [conditionType, core_of_not_isWrapper plain, ite_self, type]⟩

/-- Only the type and what is inside of wrappers count. -/
theorem of_core_eq (h : c.Agrees e) (type : n.type = c.type) (core : n.core = c.core) :
    n.Agrees e where
  isPointer := by rw [type, h.isPointer]
  core_isPointer := by
    rw [core]
    exact h.core_isPointer
  yieldsBool := by
    rw [← h.yieldsBool]
    simp only [Node.yieldsBool, type, core]
  type := by
    rw [Node.conditionType, type, core]
    exact h.type

variable (h : n.Agrees e) {t : RustExpr} (intact : t.Intact)

include h intact

/-- The text of the node as a condition. -/
theorem materialize_eq : n.materialize t.text = (e.tested .enclosed t).text := by
  have nonempty : (t.text == "") = false := by simpa using intact.text_ne_empty
  rw [materialize, nonempty, Bool.false_or, h.yieldsBool, intact.grouped_text, CExpr.tested]
  split
  · rfl
  · rename_i value
    rw [(h.type (by simpa using value)).2]
    dsimp only
    split
    · rw [RustExpr.null, RustExpr.text_comparison, String.append_assoc]
      rfl
    · split
      · rw [RustExpr.text_comparison]
        rfl
      · split
        · rw [RustExpr.text_comparison]
          rfl
        · rfl

theorem negationText_eq : negationText n t.text = (e.negated .enclosed t).text := by
  have pointer : (n.type.isPointer || n.core.type.isPointer) = e.type.isPointer := by
    rw [h.isPointer, Bool.or_eq_left_iff_imp]
    exact h.core_isPointer
  rw [negationText, pointer, h.yieldsBool, intact.grouped_text, CExpr.negated]
  split
  · rw [RustExpr.null, RustExpr.text_comparison, String.append_assoc]
    rfl
  · split
    · rfl
    · rename_i value
      rw [(h.type (by simpa using value)).1]
      split <;> rw [RustExpr.text_comparison] <;> rfl

end Agrees

/-! ### Texts of nodes -/

section Steps

variable {reg : Registry} {ctx : Context} {n c a b : Node} {e l r : CExpr} {s t : RustExpr}

theorem expression_eq {d : Draft} (intact : t.Intact) (text : (d.text ctx).value = t.text) :
    (d.expression ctx).value = t.text := by
  rw [expression, Logged.value_map, text, intact.asExpression_text]

theorem emit_variable (kind : n.kind = .declRefExpr) (object : n.type.isFunction = false) :
    (n.emit reg ctx).value = sanitize n.spelling := by
  rw [emit, text_ofNode, compose, kind]
  simp [reference, object]

theorem emit_paren (kind : n.kind = .parenExpr) (child : n.children = [c]) (intact : t.Intact)
    (text : (c.emit reg ctx).value = t.text) :
    (n.emit reg ctx).value = (RustExpr.paren t).text := by
  have value := expression_eq intact text
  rw [emit, text_ofNode, compose, kind, child]
  simp [parenthesized, firstExpression, value, intact.text_ne_empty, RustExpr.text]

/-- A zero in a wrapper may become a null pointer. -/
theorem emit_wrapper (kind : n.kind = .unexposedExpr) (last : n.children.getLast? = some c)
    (intact : t.Intact) (text : (c.emit reg ctx).value = t.text) :
    (n.emit reg ctx).value = (RustExpr.comparand n.type t).text := by
  have text : ((ofNode reg c).text ctx).value = t.text := text
  rw [emit, text_ofNode, compose, kind]
  simp only [lastText, getLast?_map, last, Option.map_some, Logged.value_map, text]
  exact intact.nullIfZero_text n.type

theorem emit_negation (kind : n.kind = .unaryOperator .lnot) (child : n.children = [c])
    (agrees : c.Agrees e) (intact : t.Intact) (text : (c.emit reg ctx).value = t.text) :
    (n.emit reg ctx).value = (e.negated .enclosed t).text := by
  have value := expression_eq intact text
  rw [emit, text_ofNode, compose, kind, child]
  simp only [map_cons, unary, Logged.value_map, value, node_ofNode]
  exact agrees.negationText_eq intact

theorem emit_infixOp (op : InfixOp) (kind : n.kind = .binaryOperator op.toBinary)
    (operands : n.children = [a, b]) (ha : s.Intact) (hb : t.Intact)
    (left : (a.emit reg ctx).value = s.text) (right : (b.emit reg ctx).value = t.text) :
    (n.emit reg ctx).value = binaryText op.toBinary a b s.text t.text := by
  have first := expression_eq ha left
  have second := expression_eq hb right
  rw [emit, text_ofNode, compose, kind, operands]
  rcases op with op | op | op <;> simp [binary, InfixOp.toBinary, first, second]

/-- What is compared with depends only on whether a pointer is expected. -/
theorem comparand_congr {type type' : CType} (h : type.isPointer = type'.isPointer) :
    RustExpr.comparand type t = RustExpr.comparand type' t := by
  rw [RustExpr.comparand, RustExpr.comparand, h]

theorem comparand_of_ne_zero {type : CType}
    (other : type.isPointer = true → t.core ≠ .operand "0") : RustExpr.comparand type t = t := by
  rw [RustExpr.comparand, if_neg]
  intro zero
  obtain ⟨pointer, core⟩ := Bool.and_eq_true_iff.1 zero
  exact other pointer (of_decide_eq_true core)

variable (left : a.Agrees l) (right : b.Agrees r) (hs : s.Intact) (ht : t.Intact)

include left right hs ht

/-- The text of a comparison: beside a pointer, a zero is the null pointer. -/
theorem binaryText_comparison (op : Comparison) :
    binaryText (InfixOp.comparison op).toBinary a b s.text t.text =
      (RustExpr.binary (.comparison op) (.comparand r.type s) (.comparand l.type t)).text := by
  simp only [InfixOp.toBinary, binaryText, hs.nullIfZero_text, ht.nullIfZero_text,
    comparand_congr left.isPointer, comparand_congr right.isPointer]
  rfl

theorem binaryText_logical (op : Connective) :
    binaryText (InfixOp.logical op).toBinary a b s.text t.text =
      (RustExpr.binary (.logical op) (l.tested .enclosed s) (r.tested .enclosed t)).text := by
  simp only [InfixOp.toBinary, binaryText, left.materialize_eq hs, right.materialize_eq ht]
  rfl

end Steps

namespace Expresses

variable {reg : Registry} {ctx : Context} {n : Node} {e : CExpr}

/-- **A node is tested and negated like its expression.** -/
theorem agrees (h : Expresses reg ctx n e) : n.Agrees e := by
  induction h with
  | reference kind | integer kind | floating kind =>
    refine .of_not_isWrapper (by rw [kind]; rfl) rfl fun plain => ?_
    simp [yieldsBool, plain, kind, CExpr.yieldsBool, CExpr.core, CExpr.type]
  | @compound n kind =>
    simp only [mem_cons, not_mem_nil, or_false] at kind
    rcases kind with kind | kind | kind
    all_goals
      refine .of_not_isWrapper (by rw [kind]; rfl) rfl fun plain => ?_
      simp [yieldsBool, plain, kind, CExpr.yieldsBool, CExpr.core, CExpr.type]
  | unary op kind =>
    refine .of_not_isWrapper (by rw [kind]; rfl) rfl fun plain => ?_
    cases op <;> simp [yieldsBool, plain, kind, CExpr.yieldsBool, CExpr.core, CExpr.type,
      PrefixOp.toUnary]
  | lnot kind | binary op kind =>
    refine .of_not_isWrapper (by rw [kind]; rfl) rfl fun plain => ?_
    simp [yieldsBool, plain, kind, CExpr.yieldsBool, CExpr.core]
  | paren kind child type inner ih =>
    have same := ih.of_core_eq type (core_of_isWrapper (by rw [kind]; rfl) (by rw [child]; rfl))
    exact ⟨same.isPointer, same.core_isPointer, same.yieldsBool, same.type⟩
  | wrapper kind last type inner ih =>
    exact ih.of_core_eq type (core_of_isWrapper (by rw [kind]; rfl) last)

theorem solid_apart (h : Expresses reg ctx n e) : e.Solid ∧ e.Apart := by
  induction h with
  | reference kind object named =>
    have name := isIdentifier_sanitize named
    exact ⟨operand_of_isIdentifier name, head?_of_isIdentifier name⟩
  | compound kind operand named => exact ⟨operand, named⟩
  | @integer n kind type constant =>
    refine ⟨?_, CType.isPointer_eq_false (.inl type)⟩
    show Chars.Operand (Literal.integer n.firstToken).toList
    rw [Literal.integer, Text.toList_onChars]
    exact (operand_integerLiteral constant).1
  | floating kind type operand => exact ⟨operand, CType.isPointer_eq_false (.inr type)⟩
  | paren _ _ _ inner ih => exact ih
  | wrapper _ _ _ inner ih => exact ih
  | unary _ _ _ inner ih => exact ih
  | lnot _ _ inner ih => exact ih
  | binary _ _ _ _ left right ihl ihr => exact ⟨⟨ihl.1, ihr.1⟩, ihl.2, ihr.2⟩

theorem solid (h : Expresses reg ctx n e) : e.Solid :=
  h.solid_apart.1

theorem apart (h : Expresses reg ctx n e) : e.Apart :=
  h.solid_apart.2

theorem intact (h : Expresses reg ctx n e) : e.lower.Intact :=
  h.solid.lower.intact

/-- Operands are tested and negated with the parentheses that they should get. -/
theorem tested_lower (h : Expresses reg ctx n e) :
    e.tested .enclosed e.lower = e.tested .group e.lower ∧
      e.negated .enclosed e.lower = e.negated .group e.lower :=
  CExpr.tested_enclosed h.solid.lower.enclosed_eq_group e

/-- **Used as a condition, an expression is tested.** -/
theorem materialize_eq (h : Expresses reg ctx n e) :
    n.materialize e.lower.text = (e.tested .group e.lower).text := by
  rw [h.agrees.materialize_eq h.intact, h.tested_lower.1]

/-- The text of an operator between two operands, neither of which is a pointer that is added to. -/
theorem binaryText_eq {a b : Node} {l r : CExpr} (left : Expresses reg ctx a l)
    (right : Expresses reg ctx b r) {op : InfixOp} {type : CType}
    (plain : op = .arithmetic .add → a.type.isPointer = false ∧ b.type.isPointer = false) :
    Draft.binaryText op.toBinary a b l.lower.text r.lower.text =
      (CExpr.binary op type l r).lower.text := by
  cases op with
  | arithmetic op =>
    by_cases sum : op = .add
    · subst sum
      obtain ⟨pointerl, pointerr⟩ := plain rfl
      simp only [InfixOp.toBinary, Draft.binaryText, pointerl, pointerr, Bool.false_eq_true,
        if_false]
      rfl
    · cases op <;> first | rfl | exact absurd rfl sum
  | comparison op =>
    exact binaryText_comparison left.agrees right.agrees left.intact right.intact op
  | logical op =>
    rw [binaryText_logical left.agrees right.agrees left.intact right.intact,
      left.tested_lower.1, right.tested_lower.1]
    rfl

/-- **A node is written as the lowered expression.** -/
theorem emit_eq (h : Expresses reg ctx n e) : (n.emit reg ctx).value = e.lower.text := by
  induction h with
  | reference kind object named => exact emit_variable kind object
  | compound => rfl
  | integer kind | floating kind =>
    rw [emit, Draft.text_ofNode, Draft.compose, kind]
    rfl
  | paren kind child type inner ih => exact emit_paren kind child inner.intact ih
  | wrapper kind last type inner ih =>
    rw [emit_wrapper kind last inner.intact ih, type, comparand_of_ne_zero]
    rw [inner.agrees.isPointer]
    exact fun pointer => inner.apart.core_loweredBy_ne_zero pointer _
  | unary op kind child inner ih =>
    have value := expression_eq inner.intact ih
    rw [emit, Draft.text_ofNode, Draft.compose, kind, child]
    simp only [map_cons, Draft.unary, Logged.value_map, value]
    cases op <;> rfl
  | lnot kind child inner ih =>
    rw [emit_negation kind child inner.agrees inner.intact ih, inner.tested_lower.2]
    rfl
  | binary op kind operands plain left right ihl ihr =>
    rw [emit_infixOp op kind operands left.intact right.intact ihl ihr]
    exact left.binaryText_eq right plain

theorem emitExpression_eq (h : Expresses reg ctx n e) :
    (n.emitExpression reg ctx).value = e.lower.text :=
  expression_eq h.intact h.emit_eq

end Expresses

end Node

end Ferric
