import Ferric.Proofs.Expression.Truth
import Ferric.Registry.Collect

/-!
# Operands, parentheses and negations

An operator is written between the texts of its operands, with the parentheses of the source and no
others, except where a logical negation or a test for zero puts its operand in parentheses.  Both
languages read most such texts alike.  They differ about comparisons, and a logical negation becomes
one: `a & b == c` is a conjunction in the source and a comparison in the target.

A text is made a single operand by putting parentheses around it, and its enclosing parentheses are
taken away where it stands alone.  On nested texts the two undo each other.

A condition compares a number or a pointer with its zero, and its logical negation compares the same
text for equality.  A condition goes by the type of the whole operand; a negation takes a pointer
inside of parentheses and conversions for a pointer, and does not take an array for one.  So they
agree except where an array is negated and where a pointer is converted to a number.

## Main definitions

* `Chars.Enclosed`: the first and the last character are a pair of parentheses.
* `Chars.Surrounded`: a text with blanks and pairs of parentheses around it.
* `Text.equated?`: a text with its last `!=` turned into `==`.
* `Node.IsTestedAlike`: an operand that a condition and a negation take for the same.

## Main results

* `exists_read?_emit_iff`: which expressions are read with the operands that they have in the
  source.
* `read?_emit_regrouped`: a mask and a comparison change places.
* `grouping_undone`: putting parentheses around a text and taking them away.
* `negation_equates_condition_iff`: when a negation is its condition with `==`.
* `negation_differs_from_condition`: arrays and converted pointers are exceptions.
-/

namespace Ferric

/-- **Operators keep their operands just when no comparison clashes.**  The text of a tree of
operators over names, numbers and compound operands, parenthesised as the source language requires,
is read in the target up to parentheses as the tree with each logical negation replaced by a
comparison or by the negation of a truth value, and with each number or pointer under a logical
operator compared with its zero, if and only if no comparison, and no logical negation that becomes
one, stands without parentheses under an operator that is not logical. -/
theorem exists_read?_emit_iff {reg : Registry} {ctx : Context} {n : Node} {e : CExpr}
    (h : n.Expresses reg ctx e) (grammatical : e.isGrammatical = true) :
    (∃ t, RustExpr.read? (n.emit reg ctx).value = some t ∧ t.bare = e.replaced) ↔
      e.unclashing = true := by
  have wordy := h.solid.lower.isWordy
  rw [h.emit_eq, ← CExpr.bare_loweredBy RustExpr.bare_group e, RustExpr.read?_text_iff wordy,
    CExpr.fits_lower_eq grammatical wordy]

/-! ## A mask and a comparison -/

/-- A variable that holds an integer. -/
def integerNode (name : String) : Node :=
  { kind := .declRefExpr, spelling := name, type := .int true }

/-- An operator between two integers. -/
def integerOperation (op : InfixOp) (a b : Node) : Node :=
  { kind := .binaryOperator op.toBinary, type := .int true, children := [a, b] }

/-- An operator in front of an integer. -/
def integerSign (op : UnaryOp) (a : Node) : Node :=
  { kind := .unaryOperator op, type := .int true, children := [a] }

def integerGroup (a : Node) : Node :=
  { kind := .parenExpr, type := .int true, children := [a] }

def integerExpr (name : String) : CExpr :=
  .atom name (.int true)

/-- The condition `!(a & ~b) || (a & b) == -c << 2`. -/
def maskNode : Node :=
  integerOperation (.logical .or)
    (integerSign .lnot (integerGroup
      (integerOperation (.arithmetic .and) (integerNode "a") (integerSign .not (integerNode "b")))))
    (integerOperation (.comparison .eq)
      (integerGroup (integerOperation (.arithmetic .and) (integerNode "a") (integerNode "b")))
      (integerOperation (.arithmetic .shl) (integerSign .minus (integerNode "c"))
        { kind := .integerLiteral, type := .int true, tokens := ["2"] }))

/-- The condition as an expression. -/
def maskExpr : CExpr :=
  .binary (.logical .or) (.int true)
    (.lnot (.int true) (.paren
      (.binary (.arithmetic .and) (.int true) (integerExpr "a")
        (.unary .not (.int true) (integerExpr "b")))))
    (.binary (.comparison .eq) (.int true)
      (.paren (.binary (.arithmetic .and) (.int true) (integerExpr "a") (integerExpr "b")))
      (.binary (.arithmetic .shl) (.int true) (.unary .minus (.int true) (integerExpr "c"))
        (.number "2" (.int true))))

/-- Variables whose names are not reserved. -/
theorem expresses_integerNode {name : String} (h : name ∈ ["a", "b", "c"]) (reg : Registry)
    (ctx : Context) : (integerNode name).Expresses reg ctx (integerExpr name) := by
  simp only [List.mem_cons, List.not_mem_nil, or_false] at h
  rcases h with rfl | rfl | rfl <;> exact .reference rfl rfl (by decide)

theorem expresses_maskNode : maskNode.Expresses {} {} maskExpr := by
  have a : (integerNode "a").Expresses {} {} _ := expresses_integerNode (by decide) {} {}
  have b : (integerNode "b").Expresses {} {} _ := expresses_integerNode (by decide) {} {}
  have c : (integerNode "c").Expresses {} {} _ := expresses_integerNode (by decide) {} {}
  have two : Node.Expresses {} {} { kind := .integerLiteral, type := .int true, tokens := ["2"] }
      (.number "2" (.int true)) := .integer rfl rfl (by decide)
  have mask : (integerOperation (.arithmetic .and) (integerNode "a")
      (integerSign .not (integerNode "b"))).Expresses {} {} _ :=
    .binary (.arithmetic .and) rfl rfl (fun h => by cases h) a (.unary .not rfl rfl b)
  have both : (integerOperation (.arithmetic .and) (integerNode "a")
      (integerNode "b")).Expresses {} {} _ :=
    .binary (.arithmetic .and) rfl rfl (fun h => by cases h) a b
  have negative : (integerSign .minus (integerNode "c")).Expresses {} {} _ :=
    .unary .minus rfl rfl c
  exact .binary (.logical .or) rfl rfl (fun h => by cases h)
    (.lnot rfl rfl (.paren rfl rfl rfl mask))
    (.binary (.comparison .eq) rfl rfl (fun h => by cases h) (.paren rfl rfl rfl both)
      (.binary (.arithmetic .shl) rfl rfl (fun h => by cases h) negative two))

theorem exists_read?_emit_iff_mask :
    maskNode.Expresses {} {} maskExpr ∧ maskExpr.isGrammatical = true ∧
      (maskNode.emit {} {}).value = "(a & !b) == 0 || (a & b) == -c << 2" ∧
      ∃ t, RustExpr.read? (maskNode.emit {} {}).value = some t ∧ t.bare = maskExpr.replaced := by
  refine ⟨expresses_maskNode, rfl, ?_, (exists_read?_emit_iff expresses_maskNode rfl).2 rfl⟩
  rw [expresses_maskNode.emit_eq]
  decide

/-- The conjunction `a & b == c`. -/
def clashingNode : Node :=
  integerOperation (.arithmetic .and) (integerNode "a")
    (integerOperation (.comparison .eq) (integerNode "b") (integerNode "c"))

/-- The conjunction as an expression. -/
def clashingExpr : CExpr :=
  .binary (.arithmetic .and) (.int true) (integerExpr "a")
    (.binary (.comparison .eq) (.int true) (integerExpr "b") (integerExpr "c"))

/-- **A mask and a comparison change places**: what masks the result of a comparison in the source
is read as a comparison of the masked value. -/
theorem read?_emit_regrouped :
    clashingNode.Expresses {} {} clashingExpr ∧ clashingExpr.isGrammatical = true ∧
      (clashingNode.emit {} {}).value = "a & b == c" ∧
      RustExpr.read? "a & b == c" = some (.binary (.comparison .eq)
        (.binary (.arithmetic .and) (.operand "a") (.operand "b")) (.operand "c")) ∧
      ¬ ∃ t, RustExpr.read? (clashingNode.emit {} {}).value = some t ∧
        t.bare = clashingExpr.replaced := by
  have a : (integerNode "a").Expresses {} {} _ := expresses_integerNode (by decide) {} {}
  have b : (integerNode "b").Expresses {} {} _ := expresses_integerNode (by decide) {} {}
  have c : (integerNode "c").Expresses {} {} _ := expresses_integerNode (by decide) {} {}
  have compared : (integerOperation (.comparison .eq) (integerNode "b")
      (integerNode "c")).Expresses {} {} _ :=
    .binary (.comparison .eq) rfl rfl (fun h => by cases h) b c
  have expresses : clashingNode.Expresses {} {} clashingExpr :=
    .binary (.arithmetic .and) rfl rfl (fun h => by cases h) a compared
  have text : (clashingNode.emit {} {}).value = "a & b == c" := by
    rw [expresses.emit_eq]
    decide
  have read : RustExpr.read? "a & b == c" = some (.binary (.comparison .eq)
      (.binary (.arithmetic .and) (.operand "a") (.operand "b")) (.operand "c")) := by decide
  refine ⟨expresses, rfl, text, read, ?_⟩
  rintro ⟨t, same, bare⟩
  rw [text, read] at same
  obtain rfl := Option.some.inj same
  cases bare

section

open List

namespace Chars

variable {cs : List Char}

/-- **The first and the last character are a pair**: between the two parentheses all brackets
match. -/
def Enclosed (cs : List Char) : Prop :=
  ∃ mid, cs = '(' :: mid ++ [')'] ∧ Nested mid

/-- **A text with blanks and pairs of parentheses around it.** -/
inductive Surrounded (core : List Char) : List Char → Prop where
  | bare : Surrounded core core
  | blanks {cs : List Char} : Surrounded core (trim cs) → Surrounded core cs
  | parens {mid : List Char} : Nested mid → Surrounded core mid →
      Surrounded core ('(' :: mid ++ [')'])

/-- **One pair of parentheses encloses a nested text just when its ends match.** -/
theorem Nested.isWrapped_iff (h : Nested cs) : isWrapped cs = true ↔ Enclosed cs := by
  refine ⟨h.between, ?_⟩
  rintro ⟨mid, rfl, nested⟩
  exact isWrapped_parens nested

/-- A text that is no single operand is put in parentheses, unless it is in some. -/
theorem isWrapped_grouped (h : Nested cs) (other : isAtom (grouped cs) = false) :
    isWrapped (grouped cs) = true := by
  unfold grouped at other ⊢
  dsimp only at other ⊢
  split at other
  · rename_i single
    rw [if_pos single]
    simpa [other] using single
  · rename_i several
    rw [if_neg several]
    exact isWrapped_parens ((nested_trim cs).2 h)

/-- A group has no blanks around it. -/
theorem trim_grouped (cs : List Char) : trim (grouped cs) = grouped cs := by
  unfold grouped
  dsimp only
  split
  · exact trim_trim cs
  · exact trim_closed (by decide) _

/-- What is a single operand stays as it is. -/
theorem grouped_grouped (h : Nested cs) : grouped (grouped cs) = grouped cs := by
  have single : (isAtom (grouped cs) || isWrapped (grouped cs)) = true := by
    cases atom : isAtom (grouped cs) with
    | true => rfl
    | false => exact isWrapped_grouped h atom
  rw [grouped, trim_grouped, if_pos single]

/-- Taking parentheses away undoes putting them around a text. -/
theorem ungrouped_grouped (h : Nested cs) : ungrouped (grouped cs) = ungrouped cs := by
  have trimmed : ungrouped (trim cs) = ungrouped cs := by rw [ungrouped, trim_trim, ungrouped]
  unfold grouped
  dsimp only
  split
  · exact trimmed
  · rw [ungrouped_parens ((nested_trim cs).2 h), trimmed]

/-- **Only blanks and pairs of parentheses are taken away.** -/
theorem Nested.surrounded_ungrouped (h : Nested cs) : Surrounded (ungrouped cs) cs := by
  refine .blanks ?_
  have nested := (nested_trim cs).2 h
  unfold ungrouped
  generalize trim cs = ds at nested
  fun_induction ungroupedFrom ds with
  | case1 ds wrapped _ ih =>
    have inside := ih (nested.inner wrapped)
    obtain ⟨mid, rfl, between⟩ := nested.between wrapped
    rw [inner_parens] at inside ⊢
    exact .parens between (.blanks inside)
  | case2 ds wrapped => exact .bare

end Chars

open Chars Fragment

/-- **Putting parentheses around a text and taking them away undo each other.**  For every text
whose brackets match:

* with parentheses put where it needs them it is a single operand or in parentheses, and needs no
  further ones;
* taking parentheses away gives the same with or without them;
* what is left then has no blanks around it and no parentheses that enclose it, its brackets match,
  and nothing but blanks and pairs of parentheses has been taken away;
* parentheses enclose the text just when its first and its last character are a pair. -/
theorem grouping_undone (text : String) (nested : Nested text.toList) :
    (isAtom (grouped text).toList = true ∨ isWrapped (grouped text).toList = true) ∧
      grouped (grouped text) = grouped text ∧
      ungrouped (grouped text) = ungrouped text ∧
      Text.trim (ungrouped text) = ungrouped text ∧
      isWrapped (ungrouped text).toList = false ∧
      Nested (ungrouped text).toList ∧
      Surrounded (ungrouped text).toList text.toList ∧
      (isWrapped text.toList = true ↔ Enclosed text.toList) := by
  simp only [Fragment.grouped, Fragment.ungrouped, Text.trim, ← String.toList_inj,
    Text.toList_onChars]
  refine ⟨?_, grouped_grouped nested, ungrouped_grouped nested,
    trim_ungroupedFrom (trim_trim _), isWrapped_ungroupedFrom _, nested_ungrouped nested,
    nested.surrounded_ungrouped, nested.isWrapped_iff⟩
  cases atom : isAtom (Chars.grouped text.toList) with
  | true => exact .inl rfl
  | false => exact .inr (isWrapped_grouped nested atom)

theorem grouping_undone_twice :
    Nested " ( (a + b[1]) )".toList ∧ ungrouped " ( (a + b[1]) )" = "a + b[1]" ∧
      ungrouped (grouped " ( (a + b[1]) )") = ungrouped " ( (a + b[1]) )" ∧
      isWrapped (ungrouped " ( (a + b[1]) )").toList = false := by
  have nested : Nested " ( (a + b[1]) )".toList := by decide
  obtain ⟨-, -, same, -, bare, -⟩ := grouping_undone _ nested
  exact ⟨nested, by cbv, same, bare⟩

end

section

open CType

/-! ## Turning a comparison round -/

namespace Chars

/-- The text with its last `!=` turned into `==`, if it has one. -/
def equated? : List Char → Option (List Char)
  | [] => none
  | c :: cs =>
    ((equated? cs).map (c :: ·)).or
      (if c = '!' ∧ cs.head? = some '=' then some ('=' :: cs) else none)

theorem equated?_eq_none {cs : List Char} (none : '!' ∉ cs) : equated? cs = Option.none := by
  induction cs with
  | nil => rfl
  | cons c cs ih =>
    rw [List.mem_cons, not_or] at none
    rw [equated?, ih none.2, if_neg fun h => none.1 h.1.symm]
    rfl

/-- The comparison that is turned round is the last one. -/
theorem equated?_append (left : List Char) {right : List Char} (none : '!' ∉ right) :
    equated? (left ++ '!' :: '=' :: right) = some (left ++ '=' :: '=' :: right) := by
  induction left with
  | nil =>
    have rest : '!' ∉ '=' :: right := by simpa using none
    rw [List.nil_append, equated?, equated?_eq_none rest]
    rfl
  | cons c left ih =>
    rw [List.cons_append, equated?, ih]
    rfl

end Chars

/-- **The text with its last `!=` turned into `==`**, if it has one. -/
def Text.equated? (text : String) : Option String :=
  (Chars.equated? text.toList).map String.ofList

theorem Text.equated?_append (left : String) {right : String} (none : '!' ∉ right.toList) :
    Text.equated? (left ++ " != " ++ right) = some (left ++ " == " ++ right) := by
  have later : '!' ∉ ' ' :: right.toList := by simpa using none
  have shape : (left ++ " != " ++ right).toList =
      left.toList ++ [' '] ++ '!' :: '=' :: ' ' :: right.toList := by simp
  rw [Text.equated?, shape, Chars.equated?_append _ later, Option.map_some, Option.some.injEq,
    ← String.toList_inj]
  simp

/-! ## The zeros of conditions and negations -/

/-- **The types that a condition compares with a zero**: numbers, enumerations among them, pointers
and arrays. -/
def CType.hasZero (t : CType) : Bool :=
  t.isNumeric || t.isPointer || t.isArray

namespace CType

theorem isPointer_decayed (t : CType) : t.decayed.isPointer = (t.isPointer || t.isArray) := by
  cases t <;> rfl

theorem isFloating_decayed (t : CType) : t.decayed.isFloating = t.isFloating := by
  cases t <;> rfl

theorem isArray_of_isPointer {t : CType} (h : t.isPointer = true) : t.isArray = false := by
  cases t with
  | pointer pointee => rfl
  | _ => cases h

theorem isFloating_of_isPointer {t : CType} (h : t.isPointer = true) : t.isFloating = false := by
  cases t with
  | pointer pointee => rfl
  | _ => cases h

/-- A zero tells pointers, floating numbers and all else apart. -/
theorem zeroText_eq_zeroText_iff {s t : CType} :
    s.zeroText = t.zeroText ↔ s.isPointer = t.isPointer ∧ s.isFloating = t.isFloating := by
  have pointer : ∀ {t : CType}, t.isPointer = true → t.zeroText = Fragment.nullPointer :=
    fun h => if_pos h
  have number : ∀ {t : CType}, t.isPointer = false →
      t.zeroText = if t.isFloating then "0.0" else "0" := fun h => by
    rw [zeroText, h]
    rfl
  have apart : Fragment.nullPointer ≠ "0.0" ∧ Fragment.nullPointer ≠ "0" ∧ "0.0" ≠ "0" := by decide
  cases hs : s.isPointer <;> cases ht : t.isPointer
  · rw [number hs, number ht]
    cases s.isFloating <;> cases t.isFloating <;> simp
  · rw [number hs, pointer ht]
    cases s.isFloating <;> simp [apart.1.symm, apart.2.1.symm]
  · rw [pointer hs, number ht]
    cases t.isFloating <;> simp [apart.1, apart.2.1]
  · rw [pointer hs, pointer ht, isFloating_of_isPointer hs, isFloating_of_isPointer ht]
    simp

theorem not_mem_zeroText (t : CType) : '!' ∉ t.zeroText.toList := by
  unfold zeroText
  split
  · decide
  · split <;> decide

end CType

namespace Node

variable {n : Node}

/-- The type by which a negation compares with a zero: that of a pointer inside, else its own. -/
def negationType (n : Node) : CType :=
  if n.core.type.isPointer then n.core.type else n.type

/-- **An operand that is taken for the same as a condition and under a negation.** -/
structure IsTestedAlike (n : Node) : Prop where
  /-- A pointer inside of conversions is still one. -/
  pointer : n.core.type.isPointer = true → n.conditionType.decayed.isPointer = true
  /-- An array was a pointer inside. -/
  array : n.conditionType.isArray = true → n.core.type.isPointer = true
  /-- A floating number has a type of its own. -/
  floating : n.conditionType.isFloating = true → n.type.isFloating = true

/-- A condition compares with the zero of its type, an array as the pointer that it becomes. -/
theorem materialize_eq {text : String} (scalar : n.conditionType.hasZero = true)
    (value : n.yieldsBool = false) (some : text ≠ "") :
    n.materialize text =
      Fragment.grouped text ++ " != " ++ n.conditionType.decayed.zeroText := by
  have kept : (text == "" || n.yieldsBool) = false := by simp [some, value]
  have real : " != 0.0" = " != " ++ "0.0" := by decide
  have whole : " != 0" = " != " ++ "0" := by decide
  rw [materialize, kept, zeroText, isPointer_decayed, isFloating_decayed, real,
    whole]
  simp only [Bool.false_eq_true, if_false, ← String.append_assoc]
  split
  · rfl
  · rename_i pointer
    split
    · rfl
    · rename_i floating
      have integer : n.conditionType.isInteger = true := by
        simpa [hasZero, isNumeric, floating, Bool.or_assoc, pointer] using scalar
      rw [if_pos integer]

theorem negationType_of_pointer (h : n.core.type.isPointer = true) : n.negationType = n.core.type :=
  if_pos h

theorem negationType_of_not_pointer (h : n.core.type.isPointer = false) : n.negationType = n.type :=
  if_neg (by simp [h])

theorem isPointer_negationType :
    n.negationType.isPointer = (n.type.isPointer || n.core.type.isPointer) := by
  cases inside : n.core.type.isPointer with
  | true => rw [negationType_of_pointer inside, inside, Bool.or_true]
  | false => rw [negationType_of_not_pointer inside, Bool.or_false]

theorem negationText_eq (value : n.yieldsBool = false) (text : String) :
    Draft.negationText n text = Fragment.grouped text ++ " == " ++ n.negationType.zeroText := by
  have real : " == 0.0" = " == " ++ "0.0" := by decide
  have whole : " == 0" = " == " ++ "0" := by decide
  rw [Draft.negationText, value, zeroText, isPointer_negationType, real, whole]
  simp only [Bool.false_eq_true, if_false, ← String.append_assoc]
  split
  · rfl
  · rename_i pointer
    rw [Bool.or_eq_true, not_or, Bool.not_eq_true, Bool.not_eq_true] at pointer
    rw [negationType_of_not_pointer pointer.2]
    split <;> rfl

/-- **A condition and its negation compare with the same zero** just when both take the operand for
the same. -/
theorem zeroText_eq_iff :
    n.conditionType.decayed.zeroText = n.negationType.zeroText ↔ n.IsTestedAlike := by
  -- a condition looks inside only where there is no type outside
  have own : n.type.isPointer = true ∨ n.type.isFloating = true → n.conditionType = n.type := by
    intro h
    refine conditionType_of_not_void ?_
    revert h
    cases n.type <;> simp [isPointer, isFloating, isVoid]
  have either : n.conditionType = n.type ∨ n.conditionType = n.core.type := by
    unfold conditionType
    split
    · exact .inr rfl
    · exact .inl rfl
  rw [zeroText_eq_zeroText_iff, isPointer_negationType]
  constructor
  · rintro ⟨pointers, floats⟩
    refine ⟨fun inside => by rw [pointers, inside, Bool.or_true], fun array => ?_, fun real => ?_⟩
    · have tested : n.conditionType.decayed.isPointer = true := by
        rw [isPointer_decayed, array, Bool.or_true]
      rw [pointers, Bool.or_eq_true] at tested
      refine tested.resolve_left fun outside => ?_
      rw [own (.inl outside)] at array
      exact absurd array (by simp [isArray_of_isPointer outside])
    · rw [isFloating_decayed] at floats
      rw [floats] at real
      cases inside : n.core.type.isPointer with
      | true =>
        rw [negationType_of_pointer inside, isFloating_of_isPointer inside] at real
        cases real
      | false => rwa [negationType_of_not_pointer inside] at real
  · rintro ⟨pointer, array, floating⟩
    constructor
    · rw [Bool.eq_iff_iff, Bool.or_eq_true]
      constructor
      · rw [isPointer_decayed, Bool.or_eq_true]
        rintro (isPointer | isArray)
        · rcases either with same | same
          · exact .inl (same ▸ isPointer)
          · exact .inr (same ▸ isPointer)
        · exact .inr (array isArray)
      · rintro (outside | inside)
        · rw [own (.inl outside), isPointer_decayed, outside, Bool.true_or]
        · exact pointer inside
    · cases inside : n.core.type.isPointer with
      | true =>
        rw [negationType_of_pointer inside, isFloating_of_isPointer inside,
          isFloating_of_isPointer (pointer inside)]
      | false =>
        rw [negationType_of_not_pointer inside, isFloating_decayed, Bool.eq_iff_iff]
        exact ⟨floating, fun real => by rwa [own (.inr real)]⟩

end Node

variable {reg : Registry} {ctx : Context} {n operand : Node}

theorem emit_lnot (kind : n.kind = .unaryOperator .lnot) (first : n.children.head? = some operand) :
    (n.emit reg ctx).value = Draft.negationText operand (operand.emitExpression reg ctx).value := by
  obtain ⟨rest, children⟩ : ∃ rest, n.children = operand :: rest := by
    cases h : n.children with
    | nil => simp [h] at first
    | cons c rest => exact ⟨rest, by simpa [h] using first⟩
  rw [Node.emit, Draft.text_ofNode, Draft.compose, kind, children]
  simp [Draft.unary, Draft.unaryText, Node.emitExpression]

/-- **A logical negation is its condition with `==`.**  Let the operand have a type that is compared
with a zero, or stand in parentheses without a type around such a one, and be no truth value yet.
The text of its negation is the text of the operand as a condition with the last `!=` turned into
`==`, just when the operand has a text and both take it for the same: it is no array, no pointer is
converted to a number, and a floating number has its type outside too. -/
theorem negation_equates_condition_iff (kind : n.kind = .unaryOperator .lnot)
    (first : n.children.head? = some operand) (scalar : operand.conditionType.hasZero = true)
    (value : operand.yieldsBool = false) :
    Text.equated? (operand.materialize (operand.emitExpression reg ctx).value) =
        some (n.emit reg ctx).value ↔
      (operand.emitExpression reg ctx).value ≠ "" ∧ operand.IsTestedAlike := by
  rw [emit_lnot kind first, Node.negationText_eq value]
  by_cases some : (operand.emitExpression reg ctx).value = ""
  · rw [some, Node.materialize, if_pos (by simp)]
    constructor
    · intro h
      cases h
    · exact fun h => absurd rfl h.1
  · rw [Node.materialize_eq scalar value some, Text.equated?_append _ (CType.not_mem_zeroText _),
      ← Node.zeroText_eq_iff, Option.some.injEq, String.append_right_inj]
    exact (and_iff_right some).symm

/-- The logical negation of an operand. -/
def Node.negated (operand : Node) : Node :=
  { kind := .unaryOperator .lnot, type := .int true, children := [operand] }

/-- A pointer that is converted, in parentheses: `((int *) x)`. -/
def convertedVariable : Node :=
  { kind := .parenExpr, type := .pointer (.int true), children :=
    [{ kind := .cStyleCastExpr, type := .pointer (.int true), children :=
      [{ kind := .declRefExpr, spelling := "x", type := .pointer .float }] }] }

theorem negation_equates_condition_iff_converted :
    convertedVariable.conditionType.hasZero = true ∧ convertedVariable.yieldsBool = false ∧
      convertedVariable.IsTestedAlike ∧
      Text.equated? (convertedVariable.materialize
          (convertedVariable.emitExpression {} {}).value) =
        some (convertedVariable.negated.emit {} {}).value := by
  have alike : convertedVariable.IsTestedAlike :=
    ⟨fun _ => rfl, fun h => absurd h (by decide), fun h => absurd h (by decide)⟩
  refine ⟨rfl, rfl, alike, (negation_equates_condition_iff rfl rfl rfl rfl).2 ⟨?_, alike⟩⟩
  decide +kernel

/-- **The negation of an array is not its condition with `==`**, nor is that of a pointer which is
converted to a number: of the two comparisons, one is with the null pointer and one with zero. -/
theorem negation_differs_from_condition :
    let array : Node := { kind := .declRefExpr, spelling := "a", type := .array (.int true) none }
    let address : Node := { kind := .cStyleCastExpr, type := .int true, children :=
      [{ kind := .declRefExpr, spelling := "p", type := .pointer (.int true) }] }
    (array.conditionType.hasZero = true ∧ array.yieldsBool = false ∧
        array.materialize (array.emitExpression {} {}).value = "a != std::ptr::null_mut()" ∧
        (array.negated.emit {} {}).value = "a == 0" ∧
        Text.equated? (array.materialize (array.emitExpression {} {}).value) ≠
          some (array.negated.emit {} {}).value) ∧
      address.conditionType.hasZero = true ∧ address.yieldsBool = false ∧
        address.materialize (address.emitExpression {} {}).value = "p != 0" ∧
        (address.negated.emit {} {}).value = "p == std::ptr::null_mut()" ∧
        Text.equated? (address.materialize (address.emitExpression {} {}).value) ≠
          some (address.negated.emit {} {}).value := by
  decide +kernel

end

end Ferric
