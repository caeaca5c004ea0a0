import Ferric.Proofs.Expression.CExpr
import Ferric.Proofs.Meaning.Condition

/-!
# Fragments of written expressions

Texts are grouped, ungrouped and trimmed by looking at their characters.  On the text of an
expression these operations do what their names say of expressions: a text is put in parentheses
just when it is no single operand, and the text that is left without enclosing parentheses is the
one of the expression inside.  The operations do not know about quotes, so that an operand must have
matching brackets also where it is quoted.

## Main definitions

* `Chars.Operand`: the texts of operands.
* `Chars.Intact`: texts from which nothing is taken away.
* `RustExpr.Each`, `CExpr.Each`: the texts of all operands have a property.
* `RustExpr.Solid`, `RustExpr.Intact`, `CExpr.Solid`: all operands have the texts above.
* `RustExpr.enclosed`: what grouping makes of an expression.

## Main results

* `RustExpr.grouped_text`, `RustExpr.Intact.asExpression_text`: grouping and trimming.
* `RustExpr.Intact.nullIfZero_text`: the null pointer in the place of a zero.
-/

namespace Ferric

open RustExpr List

namespace Chars

/-- **The text of an operand**: a word whose brackets match, whether they are quoted or not, and
which no parentheses enclose. -/
structure Operand (cs : List Char) : Prop where
  word : isOperandWord cs = true
  nested : Nested cs
  unwrapped : isWrapped cs = false

instance (cs : List Char) : Decidable (Operand cs) :=
  decidable_of_iff (isOperandWord cs = true ∧ Nested cs ∧ isWrapped cs = false)
    ⟨fun h => ⟨h.1, h.2.1, h.2.2⟩, fun h => ⟨h.word, h.nested, h.unwrapped⟩⟩

/-! ## Single operands -/

/-- The brackets that count for a single operand. -/
def isCounted (c : Char) : Bool :=
  c == '(' || c == '['

variable {cs : List Char}

/-- A text whose brackets match is a single operand only if what follows it continues one. -/
theorem isAtomFrom_of_append {stack left : List Char} (h : openAfter stack cs = some left)
    {rest : List Char} (atom : isAtomFrom (stack.countP isCounted) (cs ++ rest) = true) :
    isAtomFrom (left.countP isCounted) rest = true := by
  induction cs generalizing stack with
  | nil =>
    obtain rfl : stack = left := by simpa [openAfter] using h
    exact atom
  | cons c cs ih =>
    rw [cons_append, isAtomFrom, ← isCounted] at atom
    rcases openAfter_cons h with ⟨next, hn, closing, hs⟩ | ⟨next, hn, closing, opening, rfl⟩
    · have notClosing : (c == ')' || c == ']') = false := by
        simp only [isClosing, Bool.or_eq_false_iff] at closing
        simp [closing]
      rcases hs with ⟨rfl, -⟩ | ⟨rfl, opening⟩
      · by_cases counted : isCounted c = true
        · rw [if_pos counted] at atom
          apply ih hn
          rw [countP_cons_of_pos counted]
          exact atom
        · -- a brace is open, which only goes unnoticed inside of brackets
          rw [if_neg counted, if_neg (by simp [notClosing])] at atom
          split at atom
          · cases atom
          · apply ih hn
            rw [countP_cons_of_neg counted]
            exact atom
      · have notCounted : isCounted c = false := by
          simp only [isOpening, Bool.or_eq_false_iff] at opening
          simp [isCounted, opening]
        rw [if_neg (by simp [notCounted]), if_neg (by simp [notClosing])] at atom
        split at atom
        · cases atom
        · exact ih hn atom
    · simp only [isClosing, Bool.or_eq_true, beq_iff_eq] at closing
      rcases closing with (rfl | rfl) | rfl
      · exact ih hn (by simpa [isCounted, partner] using atom)
      · exact ih hn (by simpa [isCounted, partner] using atom)
      · have skipped : countP isCounted (partner '\x7d' :: next) = next.countP isCounted := rfl
        rw [skipped] at atom
        rw [if_neg (by decide), if_neg (by decide)] at atom
        split at atom
        · cases atom
        · exact ih hn atom

/-- No single operand has a blank outside of its brackets. -/
theorem isAtom_append_blank (h : Nested cs) (rest : List Char) :
    isAtom (cs ++ ' ' :: rest) = false := by
  have blank : isAtomFrom 0 (' ' :: rest) = false := rfl
  cases atom : isAtom (cs ++ ' ' :: rest) with
  | false => rfl
  | true =>
    have rest := isAtomFrom_of_append h (Bool.and_eq_true_iff.1 atom).2
    rw [countP_nil, blank] at rest
    cases rest

/-- Texts that start and end with something else than a blank or a semicolon. -/
structure Trimmed (cs : List Char) : Prop where
  head : ∃ c, cs.head? = some c ∧ isBlank c = false
  last : ∃ c, cs.getLast? = some c ∧ isBlank c = false ∧ c ≠ ';'

namespace Trimmed

variable {cs : List Char} (h : Trimmed cs)

include h

theorem trim_eq : trim cs = cs := by
  obtain ⟨c, head, solid⟩ := h.head
  obtain ⟨d, last, solid', -⟩ := h.last
  apply trim_of_ends
  · rintro _ first
    obtain rfl := Option.some.inj (head.symm.trans first)
    exact solid
  · rintro _ final
    obtain rfl := Option.some.inj (last.symm.trans final)
    exact solid'

theorem asExpression_eq : asExpression cs = cs := by
  obtain ⟨d, last, solid, other⟩ := h.last
  have unterminated : dropEndWhile (· == ';') cs = cs := by
    apply dropEndWhile_of_getLast?
    rintro _ final
    obtain rfl := Option.some.inj (last.symm.trans final)
    simpa using other
  have ended : trimEnd cs = cs := by
    apply dropEndWhile_of_getLast?
    rintro _ final
    obtain rfl := Option.some.inj (last.symm.trans final)
    exact solid
  rw [asExpression, h.trim_eq, unterminated, ended]

theorem append {ds : List Char} (h' : Trimmed ds) (mid : List Char) :
    Trimmed (cs ++ (mid ++ ds)) := by
  obtain ⟨c, head, solid⟩ := h.head
  obtain ⟨d, last, solid'⟩ := h'.last
  exact ⟨⟨c, by simp [head], solid⟩, ⟨d, by simp [last], solid'⟩⟩

end Trimmed

/-- **A text from which nothing is taken away**: not at its ends, and no parentheses around it. -/
structure Intact (cs : List Char) : Prop extends Trimmed cs where
  unwrapped : isWrapped cs = false

theorem Operand.intact (h : Operand cs) : Intact cs := by
  obtain ⟨c, rest, first, -, rfl, start, -⟩ := exists_of_isOperandWord h.word
  have final := getLast?_eq_some_getLast (cons_ne_nil c rest)
  exact ⟨⟨⟨c, rfl, Scan.isBlank_of_startAt? start⟩, _, final,
    getLast?_of_isOperandWord h.word _ final⟩, h.unwrapped⟩

theorem mem_trim {c : Char} (solid : isBlank c = false) (h : c ∈ cs) : c ∈ trim cs := by
  have start : c ∈ trimStart cs := by
    rw [← takeWhile_append_dropWhile (p := isBlank) (l := cs), mem_append] at h
    refine h.resolve_left fun mem => ?_
    rw [mem_takeWhile_imp mem] at solid
    cases solid
  rw [← dropEndWhile_append isBlank (trimStart cs), mem_append] at start
  refine start.resolve_right fun mem => ?_
  rw [mem_takeWhile_imp (mem_reverse.1 mem)] at solid
  cases solid

/-- What is neither a bracket nor a blank is not taken away. -/
theorem mem_ungroupedFrom {c : Char} (other : isBracket c = false) (solid : isBlank c = false)
    (h : c ∈ cs) : c ∈ ungroupedFrom cs := by
  fun_induction ungroupedFrom cs with
  | case1 cs wrapped _ ih =>
    apply ih
    obtain ⟨mid, rfl, -⟩ := eq_parens_of_isWrapped wrapped
    have inside : c ∈ mid := by
      simp only [cons_append, mem_cons, mem_append, not_mem_nil, or_false] at h
      rcases h with rfl | h | rfl
      · cases other
      · exact h
      · cases other
    rw [inner_parens]
    exact mem_trim solid inside
  | case2 cs wrapped => exact h

end Chars

open Chars

namespace RustExpr

variable {e : RustExpr}

theorem toList_text_binary' (op : InfixOp) (l r : RustExpr) :
    (binary op l r).text.toList =
      l.text.toList ++ ((' ' :: op.spelling.toList ++ [' ']) ++ r.text.toList) := by
  rw [toList_text_binary]
  simp

theorem text_comparison (op : Comparison) (e : RustExpr) (t : String) :
    (binary (.comparison op) e (.operand t)).text =
      e.text ++ (" " ++ op.spelling ++ " " ++ t) := by
  simp only [text, String.append_assoc]
  rfl

/-! ## Operands -/

/-- **The texts of all operands have a property.** -/
def Each (P : List Char → Prop) : RustExpr → Prop
  | .operand t => P t.toList
  | .paren e | .unary _ e => e.Each P
  | .binary _ l r => l.Each P ∧ r.Each P

namespace Each

variable {P Q : List Char → Prop} (h : e.Each P)

include h

theorem mono (imp : ∀ {cs}, P cs → Q cs) : e.Each Q := by
  induction e with
  | operand t => exact imp h
  | paren e ih => exact ih h
  | unary op e ih => exact ih h
  | binary op l r ihl ihr => exact ⟨ihl h.1, ihr h.2⟩

theorem group : e.group.Each P := by
  cases e with
  | operand t =>
    rw [RustExpr.group]
    split <;> exact h
  | _ => exact h

theorem comparand (null : P Fragment.nullPointer.toList) (expected : CType) :
    (comparand expected e).Each P := by
  rw [RustExpr.comparand]
  split
  · exact null
  · exact h

end Each

/-- **All operands have the texts of operands.** -/
def Solid (e : RustExpr) : Prop :=
  e.Each Chars.Operand

/-- **Nothing is taken away from the operands.** -/
def Intact (e : RustExpr) : Prop :=
  e.Each Chars.Intact

theorem Solid.isWordy (h : e.Solid) : e.isWordy = true := by
  induction e with
  | operand t => exact Chars.Operand.word h
  | paren e ih => exact ih h
  | unary op e ih => exact ih h
  | binary op l r ihl ihr => exact Bool.and_eq_true_iff.2 ⟨ihl h.1, ihr h.2⟩

theorem Solid.intact (h : e.Solid) : e.Intact :=
  h.mono Chars.Operand.intact

/-- Where the brackets of all operands match, quoted or not, those of the expression do. -/
theorem Each.nested (h : e.Each Nested) : Nested e.text.toList := by
  induction e with
  | operand t => exact h
  | paren e ih =>
    rw [toList_text_paren]
    exact (ih h).parens
  | unary op e ih =>
    have sign : Nested [op.symbol] := by cases op <;> decide
    rw [toList_text_unary, ← singleton_append]
    exact sign.append (ih h)
  | binary op l r ihl ihr =>
    have token : Nested (' ' :: op.spelling.toList ++ [' ']) := by
      rcases op with op | op | op <;> cases op <;> decide
    rw [toList_text_binary']
    exact (ihl h.1).append (token.append (ihr h.2))

theorem Intact.trimmed (h : e.Intact) : Trimmed e.text.toList := by
  induction e with
  | operand t => exact Chars.Intact.toTrimmed h
  | paren e ih =>
    rw [toList_text_paren]
    exact ⟨⟨'(', rfl, rfl⟩, ⟨')', getLast?_concat .., rfl, by decide⟩⟩
  | unary op e ih =>
    have sign : Trimmed [op.symbol] := by
      cases op <;> exact ⟨⟨_, rfl, by decide⟩, ⟨_, rfl, by decide, by decide⟩⟩
    rw [toList_text_unary]
    exact sign.append (ih h) []
  | binary op l r ihl ihr =>
    rw [toList_text_binary']
    exact (ihl h.1).append (ihr h.2) _

theorem Intact.text_ne_empty (h : e.Intact) : e.text ≠ "" := by
  obtain ⟨c, head, -⟩ := h.trimmed.head
  intro empty
  rw [empty] at head
  cases head

/-- The text of an expression has nothing to be taken away at its ends. -/
theorem Intact.asExpression_text (h : e.Intact) : Fragment.asExpression e.text = e.text := by
  rw [Fragment.asExpression, Text.onChars, h.trimmed.asExpression_eq, String.ofList_toList]

/-! ## Grouping -/

/-- **What grouping makes of an expression**, by its text. -/
def enclosed (e : RustExpr) : RustExpr :=
  if isAtom e.text.toList || isWrapped e.text.toList then e else .paren e

theorem bare_enclosed (e : RustExpr) : e.enclosed.bare = e.bare := by
  rw [enclosed]
  split <;> rfl

theorem Intact.grouped_text (h : e.Intact) : Fragment.grouped e.text = e.enclosed.text := by
  apply String.toList_injective
  rw [Fragment.grouped, Text.toList_onChars, Chars.grouped]
  simp only [h.trimmed.trim_eq]
  rw [enclosed]
  split
  · rfl
  · rw [toList_text_paren]

/-- Where brackets match, no parentheses enclose what has an operator outside of them. -/
theorem Intact.isWrapped_text (h : e.Intact) (balanced : e.Each Nested)
    (other : ∀ e', e ≠ .paren e') : isWrapped e.text.toList = false := by
  cases e with
  | operand t => exact Chars.Intact.unwrapped h
  | paren e => exact absurd rfl (other e)
  | unary op e =>
    rw [toList_text_unary]
    cases op <;> rfl
  | binary op l r =>
    obtain ⟨c, head, -⟩ := (Intact.trimmed (e := l) h.1).head
    have nonempty : l.text.toList ≠ [] := by
      intro empty
      rw [empty] at head
      cases head
    rw [toList_text_binary]
    exact isWrapped_append balanced.1.nested nonempty (by simp)

/-- Where brackets match, grouping puts parentheses around operators and nothing else. -/
theorem Intact.enclosed_eq_group (h : e.Intact) (balanced : e.Each Nested) :
    e.enclosed = e.group := by
  rw [enclosed]
  cases e with
  | operand t =>
    rw [toList_text_operand, Chars.Intact.unwrapped h, Bool.or_false, group]
  | paren e =>
    have inside : Nested e.text.toList := Each.nested (e := e) balanced
    rw [toList_text_paren, isWrapped_parens inside, Bool.or_true, if_pos rfl, group]
  | unary op e =>
    have many : isAtom (unary op e).text.toList = false := by
      rw [toList_text_unary]
      cases op <;> rfl
    rw [many, h.isWrapped_text balanced (fun _ => by simp), Bool.or_false,
      if_neg Bool.false_ne_true, group]
  | binary op l r =>
    -- after the left operand there is a blank that no bracket encloses
    have many : isAtom (binary op l r).text.toList = false := by
      rw [toList_text_binary]
      exact isAtom_append_blank balanced.1.nested _
    rw [many, h.isWrapped_text balanced (fun _ => by simp), Bool.or_false,
      if_neg Bool.false_ne_true, group]

theorem Solid.enclosed_eq_group (h : e.Solid) : e.enclosed = e.group :=
  h.intact.enclosed_eq_group (h.mono Chars.Operand.nested)

/-- **A text is put in parentheses just when it is no single operand.** -/
theorem grouped_text (h : e.Solid) : Fragment.grouped e.text = e.group.text := by
  rw [h.intact.grouped_text, h.enclosed_eq_group]

/-! ## Zeros -/

theorem Intact.inner_text (h : e.Intact) :
    Chars.inner (paren e).text.toList = e.text.toList := by
  rw [toList_text_paren, inner_parens, h.trimmed.trim_eq]

/-- An expression is left as a zero only if it is one in parentheses. -/
theorem Intact.core_eq_of_ungrouped (h : e.Intact)
    (zero : ungroupedFrom e.text.toList = ['0']) : e.core = .operand "0" := by
  -- an operator would still be there
  have operator : ∀ {c : Char}, isBracket c = false → isBlank c = false → c ≠ '0' →
      c ∉ e.text.toList := by
    intro c other solid differs mem
    have left := mem_ungroupedFrom other solid mem
    rw [zero, mem_singleton] at left
    exact differs left
  induction e with
  | operand t =>
    have same : t.toList = ['0'] := by
      rwa [toList_text_operand, ungroupedFrom,
        dif_neg (by simp [Chars.Intact.unwrapped h])] at zero
    have zero : t = "0" := String.toList_injective (same.trans rfl)
    subst zero
    rfl
  | paren e ih =>
    rw [ungroupedFrom] at zero
    split at zero
    · dsimp only at zero
      rw [Intact.inner_text (e := e) h] at zero
      refine ih h zero fun other solid differs mem => ?_
      exact operator other solid differs (by rw [toList_text_paren]; simp [mem])
    · rw [toList_text_paren] at zero
      cases zero
  | unary op e ih =>
    exfalso
    have symbol : isBracket op.symbol = false ∧ isBlank op.symbol = false ∧ op.symbol ≠ '0' := by
      cases op <;> decide
    exact operator symbol.1 symbol.2.1 symbol.2.2 (by rw [toList_text_unary]; simp)
  | binary op l r ihl ihr =>
    exfalso
    have symbol : op.spelling.toList.any
        (fun c => !isBracket c && !isBlank c && decide (c ≠ '0')) = true := by
      rcases op with op | op | op <;> cases op <;> rfl
    obtain ⟨c, mem, plain⟩ := any_eq_true.1 symbol
    simp only [Bool.and_eq_true, Bool.not_eq_true', decide_eq_true_eq] at plain
    obtain ⟨⟨other, solid⟩, differs⟩ := plain
    exact operator other solid differs (by rw [toList_text_binary]; simp [mem])

/-- A zero in parentheses is left as one. -/
theorem ungrouped_of_core_eq (zero : e.core = .operand "0") :
    Nested e.text.toList ∧ ungrouped e.text.toList = ['0'] := by
  induction e with
  | operand t =>
    obtain rfl : t = "0" := by simpa [core] using zero
    have trimmed : trim "0".toList = ['0'] := by decide
    rw [toList_text_operand, ungrouped, trimmed, ungroupedFrom, dif_neg (by decide)]
    exact ⟨by decide, rfl⟩
  | paren e ih =>
    obtain ⟨nested, left⟩ := ih zero
    rw [toList_text_paren]
    exact ⟨nested.parens, (ungrouped_parens nested).trans left⟩
  | unary | binary => simp [core] at zero

/-- **The null pointer in the place of a zero.** -/
theorem Intact.nullIfZero_text (h : e.Intact) (expected : CType) :
    Fragment.nullIfZero e.text expected = (comparand expected e).text := by
  have zero : (Fragment.ungrouped e.text == "0") = decide (e.core = .operand "0") := by
    rw [Bool.eq_iff_iff, beq_iff_eq, decide_eq_true_iff, ← String.toList_inj, Fragment.ungrouped,
      Text.toList_onChars]
    refine ⟨fun left => h.core_eq_of_ungrouped ?_, fun core => (ungrouped_of_core_eq core).2⟩
    rwa [ungrouped, h.trimmed.trim_eq] at left
  rw [Fragment.nullIfZero, comparand, zero]
  split <;> rfl

end RustExpr

/-! ## Operands of lowered expressions -/

namespace CExpr

/-- The texts of all operands have a property. -/
def Each (P : List Char → Prop) : CExpr → Prop
  | .atom t _ | .number t _ => P t.toList
  | .paren e | .unary _ _ e | .lnot _ e => e.Each P
  | .binary _ _ l r => l.Each P ∧ r.Each P

/-- **All operands have the texts of operands.** -/
def Solid (e : CExpr) : Prop :=
  e.Each Chars.Operand

variable {t : RustExpr} {P : List Char → Prop}

/-- A property that zeros have holds of the operands of tests and negations. -/
theorem each_tested {wrap : RustExpr → RustExpr}
    (zeros : ∀ zero ∈ [Fragment.nullPointer, "0.0", "0"], P zero.toList) (h : t.Each P)
    (wrapped : (wrap t).Each P) (e : CExpr) :
    (e.tested wrap t).Each P ∧ (e.negated wrap t).Each P := by
  have null := zeros Fragment.nullPointer (by simp)
  have floating := zeros "0.0" (by simp)
  have integer := zeros "0" (by simp)
  rw [tested, negated]
  constructor
  · split
    · exact h
    · split
      · exact ⟨wrapped, null⟩
      · split
        · exact ⟨wrapped, floating⟩
        · split
          · exact ⟨wrapped, integer⟩
          · exact h
  · split
    · exact ⟨wrapped, null⟩
    · split
      · exact wrapped
      · split
        · exact ⟨wrapped, floating⟩
        · exact ⟨wrapped, integer⟩

/-- **A property that zeros have goes over to the operands of what is written.** -/
theorem Each.loweredBy {e : CExpr} (h : e.Each P)
    (zeros : ∀ zero ∈ [Fragment.nullPointer, "0.0", "0"], P zero.toList)
    {wrap : RustExpr → RustExpr} (wraps : ∀ t, t.Each P → (wrap t).Each P) :
    (e.loweredBy wrap).Each P := by
  have null := zeros Fragment.nullPointer (by simp)
  induction e with
  | atom t type => exact h
  | number t type => exact h
  | paren e ih => exact ih h
  | unary op type e ih => exact ih h
  | lnot type e ih => exact (each_tested zeros (ih h) (wraps _ (ih h)) e).2
  | binary op type l r ihl ihr =>
    have left := ihl h.1
    have right := ihr h.2
    cases op with
    | arithmetic op => exact ⟨left, right⟩
    | comparison op => exact ⟨left.comparand null r.type, right.comparand null l.type⟩
    | logical op =>
      exact ⟨(each_tested zeros left (wraps _ left) l).1,
        (each_tested zeros right (wraps _ right) r).1⟩

theorem Solid.lower {e : CExpr} (h : e.Solid) : e.lower.Solid :=
  h.loweredBy (by decide) fun _ => RustExpr.Each.group

/-- An operand that grouping treats as an expression is tested and negated as such. -/
theorem tested_enclosed (h : t.enclosed = t.group) (e : CExpr) :
    e.tested .enclosed t = e.tested .group t ∧ e.negated .enclosed t = e.negated .group t := by
  rw [tested, tested, negated, negated, h]
  exact ⟨rfl, rfl⟩

end CExpr

end Ferric
