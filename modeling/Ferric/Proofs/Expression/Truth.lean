import Ferric.Proofs.Expression.Emission
import Ferric.Proofs.Literal.Floating

/-!
# Types and truth values of expressions

An expression of the target has a value if its operands have types that go together.  A number has
any type of its family, and so has the null pointer; what stands beside it decides.  Arithmetic,
bitwise and shift operators give back the type of their left operand, comparisons and logical
operators a truth value.  What names, numbers and operators stand for is left open.

Every number and every pointer has a truth value in the source: it is true unless it equals its
zero.  In a well-typed expression, operands have been converted to the type that an operator needs,
and the results of comparisons and of logical operators are used as conditions only.

## Main definitions

* `RustType`: types, as far as an expression determines them.
* `Valuation`: what operands and operators stand for.
* `RustExpr.denote`: type and value of an expression.
* `CExpr.meaning`: value and truth value of an expression of the source.
* `CExpr.IsValue`, `CExpr.IsCondition`: well-typed values and conditions.

## Main results

* `CType.family?_of_isTestable`: a zero is written in the family of its type.
* `CExpr.IsCondition.unclashing`: no comparison clashes in a well-typed condition.
-/

namespace Ferric

/-! ## Types -/

/-- The types that numbers and the null pointer may have. -/
inductive Family where
  | integer
  | floating
  | pointer
deriving DecidableEq, Repr

namespace Arithmetic

/-- Whether the operator shifts its left operand. -/
def isShift : Arithmetic → Bool
  | .shl | .shr => true
  | _ => false

/-- Whether the operator works on the digits of integers. -/
def isBitwise : Arithmetic → Bool
  | .and | .or | .xor | .shl | .shr => true
  | _ => false

end Arithmetic

/-- **A type, as far as an expression determines it.** -/
inductive RustType where
  | exact (name : String)
  /-- Any type of a family, as a number without a mark has it. -/
  | any (family : Family)
  /-- Any type of integers with a sign, as a number after a minus has it. -/
  | anySigned
deriving DecidableEq, Repr

namespace RustType

/-- The type of truth values. -/
def bool : RustType :=
  .exact "bool"

def family? : RustType → Option Family
  | .any family => some family
  | .anySigned => some .integer
  | .exact name =>
    if name ∈ integerNames then some .integer
    else if name ∈ floatingNames then some .floating
    else if Text.startsWith name "*mut " then some .pointer
    else none

/-- Whether the values are integers with a sign for sure. -/
def isSigned : RustType → Bool
  | .exact name => name ∈ signedNames
  | .any _ => false
  | .anySigned => true

/-- Whether an expression of the first type may have the second one. -/
def admits : RustType → RustType → Bool
  | .exact name, t => t = .exact name
  | .any family, t => t.family? = some family
  | .anySigned, t => t.isSigned

/-- The type that two operands have in common. -/
def common? (a b : RustType) : Option RustType :=
  if a.admits b then some b else if b.admits a then some a else none

/-- The type of an operator in front of its operand.  There is no minus before an integer without
a sign. -/
def signed? (op : PrefixOp) (t : RustType) : Option RustType :=
  match op with
  | .minus =>
    if t = .any .integer then some .anySigned
    else if t.isSigned || t.family? = some .floating then some t else none
  | .not => if t.family? = some .integer ∨ t = bool then some t else none

/-- Whether an operator works on the values of a type. -/
def suits (op : Arithmetic) (t : RustType) : Bool :=
  t.family? = some .integer || (t.family? = some .floating && !op.isBitwise)

/-- The type of an arithmetic, bitwise or shift operator.  What is shifted may have another type
than the distance. -/
def arithmetic? (op : Arithmetic) (a b : RustType) : Option RustType :=
  if op.isShift then if a.suits op && b.suits op then some a else none
  else (a.common? b).filter (suits op)

variable {a b : RustType} {name : String} {op : Arithmetic}

theorem family?_of_isSigned (h : a.isSigned = true) : a.family? = some .integer := by
  cases a with
  | exact name => exact if_pos (List.mem_append_left _ (of_decide_eq_true h))
  | any family => cases h
  | anySigned => rfl

theorem family?_eq_of_admits (h : a.admits b = true) : a.family? = b.family? := by
  cases a with
  | exact other => rw [of_decide_eq_true h]
  | any family => exact (of_decide_eq_true h).symm
  | anySigned => exact (family?_of_isSigned h).symm

/-- Of two types that one type may be, one may be the other. -/
theorem admits_or_admits (ha : a.admits (.exact name) = true) (hb : b.admits (.exact name) = true) :
    a.admits b = true ∨ b.admits a = true := by
  have same := (family?_eq_of_admits ha).trans (family?_eq_of_admits hb).symm
  cases a with
  | exact other =>
    obtain rfl : name = other := by simpa [admits] using ha
    exact .inr hb
  | any family => exact .inl (decide_eq_true same.symm)
  | anySigned =>
    cases b with
    | exact other =>
      obtain rfl : name = other := by simpa [admits] using hb
      exact .inl ha
    | any family => exact .inr (decide_eq_true same)
    | anySigned => exact .inl rfl

theorem common?_of_admits (h : a.admits b = true ∨ b.admits a = true) :
    a.common? b = some b ∨ a.common? b = some a := by
  rw [common?]
  split
  · exact .inl rfl
  · rename_i no
    exact .inr (if_pos (h.resolve_left no))

/-- Operands that may both have one type go together. -/
theorem exists_common? (ha : a.admits (.exact name) = true) (hb : b.admits (.exact name) = true) :
    ∃ c, a.common? b = some c ∧ c.admits (.exact name) = true := by
  rcases common?_of_admits (admits_or_admits ha hb) with common | common
  · exact ⟨b, common, hb⟩
  · exact ⟨a, common, ha⟩

/-- A number or the null pointer goes together with every type of its family. -/
theorem exists_common?_any {family : Family} (h : a.family? = some family) :
    (∃ c, a.common? (.any family) = some c) ∧ ∃ c, (any family).common? a = some c := by
  have admits : (any family).admits a = true := decide_eq_true h
  refine ⟨?_, a, if_pos admits⟩
  rcases common?_of_admits (.inr admits) with common | common
  · exact ⟨_, common⟩
  · exact ⟨_, common⟩

/-- What may be a number with a sign may be the same after a minus. -/
theorem exists_signed?_minus (h : a.admits (.exact name) = true)
    (number : name ∈ signedNames ∨ name ∈ floatingNames) :
    ∃ c, a.signed? .minus = some c ∧ c.admits (.exact name) = true := by
  have floating : ∀ name ∈ floatingNames, (exact name).family? = some .floating := by decide
  cases a with
  | exact other =>
    obtain rfl : name = other := by simpa [admits] using h
    have suited : ((exact name).isSigned || (exact name).family? = some .floating) = true := by
      rcases number with signed | float
      · simp [isSigned, signed]
      · simp [floating name float]
    exact ⟨.exact name, if_pos suited, h⟩
  | any family =>
    have same : (exact name).family? = some family := of_decide_eq_true h
    rcases number with signed | float
    · obtain rfl := Option.some.inj (same.symm.trans (family?_of_isSigned (decide_eq_true signed)))
      exact ⟨.anySigned, rfl, decide_eq_true signed⟩
    · obtain rfl := Option.some.inj (same.symm.trans (floating name float))
      exact ⟨.any .floating, rfl, h⟩
  | anySigned => exact ⟨.anySigned, rfl, h⟩

theorem suits_of_admits (h : a.admits (.exact name) = true)
    (suited : (exact name).suits op = true) : a.suits op = true := by
  rw [suits, family?_eq_of_admits h]
  exact suited

/-- What is shifted keeps its type. -/
theorem arithmetic?_of_isShift (shift : op.isShift = true) (ha : a.suits op = true)
    (hb : b.suits op = true) : a.arithmetic? op b = some a := by
  rw [arithmetic?, shift, ha, hb]
  rfl

/-- Operands of one type that suits an operator may be joined by it. -/
theorem exists_arithmetic? (plain : op.isShift = false) (ha : a.admits (.exact name) = true)
    (hb : b.admits (.exact name) = true) (suited : (exact name).suits op = true) :
    ∃ c, a.arithmetic? op b = some c ∧ c.admits (.exact name) = true := by
  obtain ⟨c, common, hc⟩ := exists_common? ha hb
  refine ⟨c, ?_, hc⟩
  rw [arithmetic?, plain, common]
  exact if_pos (suits_of_admits hc suited)

end RustType

/-! ## Numbers -/

/-- **The type of a number**, if the text is one. -/
def numberType? (text : String) : Option RustType :=
  if (Chars.wholeNumber? text.toList).isSome then some (.any .integer)
  else (Chars.floatingNumber? text.toList).map fun (_, mark) =>
    if mark = [] then .any .floating else .exact (String.ofList mark)

theorem numberType?_eq_none {text : String} (h : text.toList.head?.any Char.isDigit = false) :
    numberType? text = none := by
  have digit : ∀ {c : Char}, Chars.digit c < 10 → c.isDigit = true := fun small =>
    Chars.of_digit_lt (P := fun c => Chars.digit c < 10 → c.isDigit = true) (by decide)
      (small.trans (by decide)) small
  rw [numberType?]
  generalize text.toList = cs at h ⊢
  have start : Chars.startsWithDigit cs = false := by
    cases cs with
    | nil => rfl
    | cons c cs => exact decide_eq_false fun small => Bool.eq_false_iff.1 h (digit small)
  have whole : Chars.wholeNumber? cs = none := by
    unfold Chars.wholeNumber?
    split
    · cases h
    · cases h
    · exact if_neg (of_decide_eq_false start)
    · rfl
  rw [whole, Chars.floatingNumber?, start]
  rfl

/-! ## Values -/

/-- **What operands and operators stand for.** -/
structure Valuation (V : Type) where
  /-- Names and numbers, by their texts. -/
  leaf : String → V
  arithmetic : Arithmetic → V → V → V
  negate : V → V
  complement : V → V
  compare : Comparison → V → V → Bool
  /-- A truth value as a value. -/
  ofBool : Bool → V
  isTrue : V → Bool
  zero : V
  floatingZero : V
  null : V
  isTrue_ofBool : ∀ b, isTrue (ofBool b) = b
  compare_ne : ∀ a b, compare .ne a b = !compare .eq a b
  leaf_zero : leaf "0" = zero
  leaf_floatingZero : leaf "0.0" = floatingZero
  leaf_null : leaf Fragment.nullPointer = null

/-- A logical operator on truth values. -/
def Connective.apply : Connective → Bool → Bool → Bool
  | .and, a, b => a && b
  | .or, a, b => a || b

def operandType? (names : String → Option String) (text : String) : Option RustType :=
  match numberType? text, names text with
  | some type, _ => some type
  | none, some name => some (.exact name)
  | none, none => if text = Fragment.nullPointer then some (.any .pointer) else none

section Operands

variable {names : String → Option String}

theorem operandType?_of_number {text : String} {type : RustType}
    (h : numberType? text = some type) : operandType? names text = some type := by
  rw [operandType?, h]

theorem operandType?_of_name {text name : String} (other : numberType? text = none)
    (h : names text = some name) : operandType? names text = some (.exact name) := by
  rw [operandType?, other, h]

theorem operandType?_null (fresh : names Fragment.nullPointer = none) :
    operandType? names Fragment.nullPointer = some (.any .pointer) := by
  have other : numberType? Fragment.nullPointer = none := by decide
  rw [operandType?, other, fresh]
  exact if_pos rfl

end Operands

section Denotation

variable {V : Type} (I : Valuation V) (names : String → Option String)

/-- The value of an operator in front of an operand of a type. -/
def Valuation.signed (op : PrefixOp) (type : RustType) (v : V) : V :=
  match op with
  | .minus => I.negate v
  | .not => if type = .bool then I.ofBool (!I.isTrue v) else I.complement v

/-- Type and value of an operator between two operands. -/
def Valuation.infixed (op : InfixOp) (a b : RustType × V) : Option (RustType × V) :=
  match op with
  | .arithmetic op => (a.1.arithmetic? op b.1).map fun type => (type, I.arithmetic op a.2 b.2)
  | .comparison op => (a.1.common? b.1).map fun _ => (.bool, I.ofBool (I.compare op a.2 b.2))
  | .logical op =>
    if a.1 = .bool ∧ b.1 = .bool then
      some (.bool, I.ofBool (op.apply (I.isTrue a.2) (I.isTrue b.2)))
    else none

namespace RustExpr

/-- **Type and value of an expression**, if the types go together. -/
def denote : RustExpr → Option (RustType × V)
  | .operand t => (operandType? names t).map fun type => (type, I.leaf t)
  | .paren e => e.denote
  | .unary op e =>
    e.denote.bind fun a => (a.1.signed? op).map fun type => (type, I.signed op a.1 a.2)
  | .binary op l r => l.denote.bind fun a => r.denote.bind fun b => I.infixed op a b

@[simp] theorem denote_group (e : RustExpr) : e.group.denote I names = e.denote I names := by
  cases e with
  | operand t =>
    rw [group]
    split <;> rfl
  | _ => rfl

variable {I names}

variable {a b : RustType × V} {l r : RustExpr}

theorem denote_unary {e : RustExpr} (h : e.denote I names = some a) {op : PrefixOp}
    {type : RustType} (signed : a.1.signed? op = some type) :
    (unary op e).denote I names = some (type, I.signed op a.1 a.2) := by
  rw [denote, h, Option.bind_some, signed]
  rfl

theorem denote_binary (hl : l.denote I names = some a) (hr : r.denote I names = some b)
    (op : InfixOp) : (binary op l r).denote I names = I.infixed op a b := by
  rw [denote, hl, hr]
  rfl

theorem denote_arithmetic (hl : l.denote I names = some a) (hr : r.denote I names = some b)
    {op : Arithmetic} {type : RustType} (result : a.1.arithmetic? op b.1 = some type) :
    (binary (.arithmetic op) l r).denote I names = some (type, I.arithmetic op a.2 b.2) := by
  rw [denote_binary hl hr, Valuation.infixed]
  simp only [result, Option.map_some]

/-- A comparison of operands that go together is a truth value. -/
theorem denote_comparison (hl : l.denote I names = some a) (hr : r.denote I names = some b)
    (common : ∃ c, a.1.common? b.1 = some c) (op : Comparison) :
    (binary (.comparison op) l r).denote I names =
      some (.bool, I.ofBool (I.compare op a.2 b.2)) := by
  obtain ⟨c, common⟩ := common
  rw [denote_binary hl hr, Valuation.infixed]
  simp only [common, Option.map_some]

end RustExpr

end Denotation

/-! ## Types of the source -/

namespace CType

/-- Pointers to something else than functions. -/
def isDataPointer : CType → Bool
  | .pointer pointee => !pointee.isFunction
  | _ => false

variable {t : CType}

theorem isPointer_of_isDataPointer (h : t.isDataPointer = true) : t.isPointer = true := by
  cases t with
  | pointer pointee => rfl
  | _ => cases h

/-- The types of values. -/
def isScalar (t : CType) : Bool :=
  t.isNumeric || t.isBool || t.isPointer

/-- The types whose values are compared with a zero, unless they are truth values. -/
def isTestable (t : CType) : Bool :=
  t.isNumeric || t.isBool || t.isDataPointer

/-- Whether an operator works on the values of a type. -/
def suits (op : Arithmetic) (t : CType) : Bool :=
  t.isInteger || (t.isFloating && !op.isBitwise)

theorem eq_bool_of_isBool (h : t.isBool = true) : t = .bool := by
  cases t with
  | bool => rfl
  | _ => cases h

theorem isFloating_of_isInteger (h : t.isInteger = true) : t.isFloating = false := by
  cases t with
  | float | double | longDouble => cases h
  | _ => rfl

/-- Numbers are no truth values. -/
theorem isBool_eq_false (h : t.isInteger = true ∨ t.isFloating = true) : t.isBool = false := by
  cases t with
  | bool => rcases h with h | h <;> cases h
  | _ => rfl

theorem number_of_suits {op : Arithmetic} (h : t.suits op = true) :
    t.isInteger = true ∨ t.isFloating = true :=
  (Bool.or_eq_true_iff.1 h).imp_right fun h => (Bool.and_eq_true_iff.1 h).1

/-- The zero of a type, as it is written in the target. -/
def zeroText (t : CType) : String :=
  if t.isPointer then Fragment.nullPointer else if t.isFloating then "0.0" else "0"

def zeroFamily (t : CType) : Family :=
  if t.isPointer then .pointer else if t.isFloating then .floating else .integer

theorem family?_of_isInteger (h : t.isInteger = true) (reg : Registry) :
    (RustType.exact (reg.renderType t)).family? = some .integer :=
  if_pos (render_mem_integerNames h _)

theorem family?_of_isFloating (h : t.isFloating = true) (reg : Registry) :
    (RustType.exact (reg.renderType t)).family? = some .floating := by
  cases t with
  | float | double | longDouble => rfl
  | _ => cases h

theorem family?_of_isDataPointer (h : t.isDataPointer = true) (reg : Registry) :
    (RustType.exact (reg.renderType t)).family? = some .pointer := by
  obtain ⟨name, mark⟩ : ∃ name, reg.renderType t = "*mut " ++ name := by
    cases t with
    | pointer pointee =>
      cases pointee with
      | function => cases h
      | void => exact ⟨"std::ffi::c_void", rfl⟩
      | _ => exact ⟨_, rfl⟩
    | _ => cases h
  have shape : ("*mut " ++ name).toList = '*' :: ("mut ".toList ++ name.toList) := by simp
  -- no other family has a name that starts with an asterisk
  have other : ∀ s ∈ integerNames ++ floatingNames,
      s.toList.head? ≠ some '*' := by decide
  have unlisted : ∀ s ∈ integerNames ++ floatingNames, "*mut " ++ name ≠ s := by
    rintro s hs rfl
    apply other _ hs
    rw [shape]
    rfl
  have start : Text.startsWith ("*mut " ++ name) "*mut " = true := by
    rw [Text.startsWith, String.toList_append]
    exact List.isPrefixOf_iff_prefix.2 (List.prefix_append _ _)
  rw [mark, RustType.family?, if_neg, if_neg, if_pos start]
  · exact fun hm => unlisted _ (List.mem_append_right _ hm) rfl
  · exact fun hm => unlisted _ (List.mem_append_left _ hm) rfl

/-- An operator works on the values of a type as it does on those of the rendered type. -/
theorem suits_renderType {op : Arithmetic} (h : t.suits op = true) (reg : Registry) :
    (RustType.exact (reg.renderType t)).suits op = true := by
  simp only [suits, Bool.or_eq_true, Bool.and_eq_true] at h
  rcases h with integer | ⟨floating, plain⟩
  · simp [RustType.suits, family?_of_isInteger integer reg]
  · simp [RustType.suits, family?_of_isFloating floating reg, plain]

theorem suits_of_isInteger (h : t.isInteger = true) (op : Arithmetic) (reg : Registry) :
    (RustType.exact (reg.renderType t)).suits op = true :=
  suits_renderType (by simp [suits, h]) reg

/-- A zero is written as a number or as the null pointer, in the family of its type. -/
theorem operandType?_zeroText (t : CType) {names : String → Option String}
    (fresh : names Fragment.nullPointer = none) :
    operandType? names t.zeroText = some (.any t.zeroFamily) := by
  have floating : numberType? "0.0" = some (.any .floating) := by decide
  have integer : numberType? "0" = some (.any .integer) := by decide
  rw [zeroText, zeroFamily]
  split
  · exact operandType?_null fresh
  · split
    · exact operandType?_of_number floating
    · exact operandType?_of_number integer

theorem family?_of_isTestable (h : t.isTestable = true) (plain : t.isBool = false)
    (reg : Registry) : (RustType.exact (reg.renderType t)).family? = some t.zeroFamily := by
  rw [isTestable, isNumeric, plain, Bool.or_false, Bool.or_eq_true, Bool.or_eq_true] at h
  rcases h with (integer | floating) | pointer
  · rw [family?_of_isInteger integer, zeroFamily, isPointer_eq_false (.inl integer),
      isFloating_of_isInteger integer]
    rfl
  · rw [family?_of_isFloating floating, zeroFamily, isPointer_eq_false (.inr floating), floating]
    rfl
  · rw [family?_of_isDataPointer pointer, zeroFamily, isPointer_of_isDataPointer pointer]
    rfl

end CType

/-! ## Meaning -/

section Meaning

variable {V : Type} (I : Valuation V)

/-- An operand with a type of its own is tested by it. -/
theorem Node.conditionType_of_not_void {n : Node} (h : n.type.isVoid = false) :
    n.conditionType = n.type :=
  if_neg (by simp [h])

namespace Valuation

def zeroOf (type : CType) : V :=
  if type.isPointer then I.null else if type.isFloating then I.floatingZero else I.zero

/-- Whether a value of a type is true in the source: it is a truth value, or it differs from its
zero. -/
def test (type : CType) (v : V) : Bool :=
  if type.isBool then I.isTrue v else !I.compare .eq v (I.zeroOf type)

/-- What is compared with an operand of the expected type: beside a pointer, a zero is the null
pointer. -/
def comparand (expected : CType) (isZero : Bool) (v : V) : V :=
  if expected.isPointer && isZero then I.null else v

theorem leaf_zeroText (type : CType) : I.leaf type.zeroText = I.zeroOf type := by
  rw [CType.zeroText, zeroOf]
  split
  · exact I.leaf_null
  · split
    · exact I.leaf_floatingZero
    · exact I.leaf_zero

end Valuation

namespace CExpr

/-- Whether an expression is a literal zero, possibly in parentheses. -/
def isZero : CExpr → Bool
  | .number t _ => t = "0"
  | .paren e => e.isZero
  | _ => false

/-- **Value and truth value of an expression of the source.** -/
def meaning : CExpr → V × Bool
  | .atom t type | .number t type => (I.leaf t, I.test type (I.leaf t))
  | .paren e => e.meaning
  | .unary op type e =>
    let v := match op with
      | .minus => I.negate e.meaning.1
      | .not => I.complement e.meaning.1
    (v, I.test type v)
  | .lnot _ e => (I.ofBool (!e.meaning.2), !e.meaning.2)
  | .binary (.arithmetic op) type l r =>
    let v := I.arithmetic op l.meaning.1 r.meaning.1
    (v, I.test type v)
  | .binary (.comparison op) _ l r =>
    let b := I.compare op (I.comparand r.type l.isZero l.meaning.1)
      (I.comparand l.type r.isZero r.meaning.1)
    (I.ofBool b, b)
  | .binary (.logical op) _ l r =>
    let b := op.apply l.meaning.2 r.meaning.2
    (I.ofBool b, b)

end CExpr

end Meaning

/-! ## Well-typed expressions -/

namespace CExpr

/-- The variables, members, elements and calls of an expression, with their types. -/
def atoms : CExpr → List (String × CType)
  | .atom t type => [(t, type)]
  | .number _ _ => []
  | .paren e | .unary _ _ e | .lnot _ e => e.atoms
  | .binary _ _ l r => l.atoms ++ r.atoms

/-- Names do not start like numbers. -/
theorem Apart.numberType?_eq_none {e : CExpr} (h : e.Apart) :
    ∀ a ∈ e.atoms, numberType? a.1 = none := by
  intro a ha
  induction e with
  | atom t type =>
    obtain rfl := List.mem_singleton.1 ha
    exact Ferric.numberType?_eq_none h
  | number => cases ha
  | paren e ih => exact ih h ha
  | unary op type e ih => exact ih h ha
  | lnot type e ih => exact ih h ha
  | binary op type l r ihl ihr => exact (List.mem_append.1 ha).elim (ihl h.1) (ihr h.2)

/-- **Well-typed values**: numbers, truth values and pointers, and arithmetic on numbers.  Operands
have been converted already: they have the type of the result, except for the distance of a
shift. -/
inductive IsValue (reg : Registry) : CExpr → Prop
  | atom {t : String} {type : CType} (scalar : type.isScalar = true) : IsValue reg (.atom t type)
  | number {t : String} {type : CType} {kind : RustType} (numeric : type.isNumeric = true)
      (read : numberType? t = some kind)
      (typed : kind.admits (.exact (reg.renderType type)) = true) : IsValue reg (.number t type)
  | paren {e : CExpr} (inner : IsValue reg e) : IsValue reg (.paren e)
  | minus {type : CType} {e : CExpr} (typed : type = e.type)
      (signed : (e.type.isSigned || e.type.isFloating) = true) (inner : IsValue reg e) :
      IsValue reg (.unary .minus type e)
  | complement {type : CType} {e : CExpr} (typed : type = e.type)
      (integer : e.type.isInteger = true) (inner : IsValue reg e) :
      IsValue reg (.unary .not type e)
  | shift {op : Arithmetic} {type : CType} {l r : CExpr} (shift : op.isShift = true)
      (typed : type = l.type) (left : IsValue reg l) (right : IsValue reg r)
      (shifted : l.type.isInteger = true) (distance : r.type.isInteger = true) :
      IsValue reg (.binary (.arithmetic op) type l r)
  | arithmetic {op : Arithmetic} {type : CType} {l r : CExpr} (plain : op.isShift = false)
      (typed : type = l.type) (same : r.type = l.type) (left : IsValue reg l)
      (right : IsValue reg r) (suits : l.type.suits op = true) :
      IsValue reg (.binary (.arithmetic op) type l r)

/-- **Well-typed conditions**: values, comparisons of values of one type or of a pointer with a
literal zero, and what logical operators make of conditions. -/
inductive IsCondition (reg : Registry) : CExpr → Prop
  | value {e : CExpr} (value : IsValue reg e) (testable : e.type.isTestable = true) :
      IsCondition reg e
  | paren {e : CExpr} (inner : IsCondition reg e) : IsCondition reg (.paren e)
  | lnot {type : CType} {e : CExpr} (plain : type.isPointer = false) (inner : IsCondition reg e) :
      IsCondition reg (.lnot type e)
  | logical {op : Connective} {type : CType} {l r : CExpr} (plain : type.isPointer = false)
      (left : IsCondition reg l) (right : IsCondition reg r) :
      IsCondition reg (.binary (.logical op) type l r)
  | comparison {op : Comparison} {type : CType} {l r : CExpr} (plain : type.isPointer = false)
      (left : IsValue reg l) (right : IsValue reg r) (same : r.type = l.type) :
      IsCondition reg (.binary (.comparison op) type l r)
  | nullRight {op : Comparison} {type : CType} {l r : CExpr} (plain : type.isPointer = false)
      (left : IsValue reg l) (pointer : l.type.isDataPointer = true) (right : IsValue reg r)
      (zero : r.isZero = true) : IsCondition reg (.binary (.comparison op) type l r)
  | nullLeft {op : Comparison} {type : CType} {l r : CExpr} (plain : type.isPointer = false)
      (left : IsValue reg l) (zero : l.isZero = true) (right : IsValue reg r)
      (pointer : r.type.isDataPointer = true) : IsCondition reg (.binary (.comparison op) type l r)

section Values

variable {reg : Registry} {e : CExpr}

theorem IsValue.yieldsBool_eq (h : IsValue reg e) : e.yieldsBool = e.type.isBool := by
  induction h with
  | atom | number | minus | complement => rfl
  | paren inner ih => exact ih
  | shift _ typed _ _ shifted =>
    have number : CType.isBool _ = false := CType.isBool_eq_false (.inl shifted)
    rw [← typed] at number
    exact number.symm
  | arithmetic _ typed _ _ _ suits =>
    have number : CType.isBool _ = false := CType.isBool_eq_false (CType.number_of_suits suits)
    rw [← typed] at number
    exact number.symm

theorem IsValue.truth_eq {V : Type} (h : IsValue reg e) (I : Valuation V) :
    (e.meaning I).2 = I.test e.type (e.meaning I).1 := by
  induction h with
  | paren inner ih => exact ih
  | _ => rfl

theorem IsValue.isPointer_of_isZero (h : IsValue reg e) (zero : e.isZero = true) :
    e.type.isPointer = false := by
  induction h with
  | number numeric =>
    exact CType.isPointer_eq_false (Bool.or_eq_true_iff.1 numeric)
  | paren inner ih => exact ih zero
  | _ => cases zero

/-- No value is written as a comparison. -/
theorem IsValue.unclashing (h : IsValue reg e) : e.unclashing = true ∧ e.isCompared = false := by
  induction h with
  | atom | number => exact ⟨rfl, rfl⟩
  | paren inner ih => exact ⟨ih.1, rfl⟩
  | minus _ _ _ ih | complement _ _ _ ih => exact ⟨by simp [CExpr.unclashing, ih], rfl⟩
  | shift _ _ _ _ _ _ ihl ihr => exact ⟨by simp [CExpr.unclashing, ihl, ihr], rfl⟩
  | arithmetic _ _ _ _ _ _ ihl ihr => exact ⟨by simp [CExpr.unclashing, ihl, ihr], rfl⟩

end Values

section Conditions

variable {reg : Registry} {e : CExpr}

/-- **No comparison clashes in a well-typed condition.** -/
theorem IsCondition.unclashing (h : IsCondition reg e) : e.unclashing = true := by
  induction h with
  | value value => exact value.unclashing.1
  | paren _ ih => exact ih
  | lnot _ _ ih => exact ih
  | logical _ _ _ ihl ihr => simp [CExpr.unclashing, ihl, ihr]
  | comparison _ left right => simp [CExpr.unclashing, left.unclashing, right.unclashing]
  | nullRight _ left _ right => simp [CExpr.unclashing, left.unclashing, right.unclashing]
  | nullLeft _ left _ right => simp [CExpr.unclashing, left.unclashing, right.unclashing]

/-- What is no truth value yet has a type with a zero. -/
theorem IsCondition.type_cases (h : IsCondition reg e) :
    (e.yieldsBool = true ∧ e.type.isPointer = false) ∨
      (e.yieldsBool = false ∧ e.type.isTestable = true ∧ e.type.isBool = false) := by
  induction h with
  | @value e value testable =>
    rw [value.yieldsBool_eq]
    cases truth : e.type.isBool with
    | true =>
      rw [CType.eq_bool_of_isBool truth]
      exact .inl ⟨rfl, rfl⟩
    | false => exact .inr ⟨rfl, testable, rfl⟩
  | paren _ ih => exact ih
  | lnot plain | logical plain | comparison plain | nullRight plain | nullLeft plain =>
    exact .inl ⟨rfl, plain⟩

end Conditions

end CExpr

end Ferric
