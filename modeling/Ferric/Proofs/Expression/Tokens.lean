import Ferric.Proofs.Expression.Literals

/-!
# Expressions with literals

The operands of a condition are variables, numbers and literals.  What is done to the text of such
an expression is done by counting characters, also the quoted ones: whether it is put in
parentheses, and which of its parentheses are taken away.  So parentheses may be missing where they
are needed, and two parentheses may be taken for a pair that are none.

The expression that is really written says where the parentheses stand.  Where every literal has
matching brackets, they stand where they should.

## Main definitions

* `Chars.IsToken`: operands that are one word or one literal.
* `RustExpr.Tokenized`: expressions of such operands.
* `RustExpr.stripped`: what ungrouping makes of an expression.
* `RustExpr.named`: an expression with names in the place of its literals.
* `CExpr.written`: what an expression is really written as.

## Main results

* `RustExpr.Tokenized.untilClosed_ungrouped_iff`: when the parentheses that are taken away enclose
  the whole.
* `RustExpr.Tokenized.read?_text_iff`: when an expression with literals is read as it was written.
* `CExpr.Tokenized.written_eq_lower`: where parentheses stand if brackets match.
-/

namespace Ferric

open Chars RustExpr List

/-! ## Operands -/

namespace Chars

/-- An operand without quotes that does not start with a parenthesis. -/
structure PlainOperand (cs : List Char) : Prop extends Operand cs where
  unquoted : Unquoted cs
  head : cs.head? ≠ some '('

instance (cs : List Char) : Decidable (PlainOperand cs) :=
  decidable_of_iff (Operand cs ∧ Unquoted cs ∧ cs.head? ≠ some '(')
    ⟨fun h => ⟨h.1, h.2.1, h.2.2⟩, fun h => ⟨h.toOperand, h.unquoted, h.head⟩⟩

theorem plainOperand_of_isWordChar {cs : List Char} (operand : Operand cs)
    (h : ∀ c ∈ cs, isWordChar c = true) : PlainOperand cs where
  toOperand := operand
  unquoted c hc := by
    have word := h c hc
    constructor <;> rintro rfl <;> cases word
  head start := by cases h '(' (mem_of_head? start)

/-- **An operand that is one word or one literal.** -/
def IsToken (cs : List Char) : Prop :=
  PlainOperand cs ∨ isLiteral cs = true

theorem isLiteral_eq_false_of_unquoted {cs : List Char} (h : Unquoted cs) :
    isLiteral cs = false := by
  cases cs with
  | nil => rfl
  | cons c cs =>
    obtain ⟨text, char⟩ := h c mem_cons_self
    simp [isLiteral, Quote.next_none text char]

theorem head?_of_isLiteral {cs : List Char} (h : isLiteral cs = true) :
    cs.head? = some '"' ∨ cs.head? = some '\'' := by
  obtain ⟨c, body, -, rfl, quote, -⟩ := exists_of_isLiteral h
  simpa using quote

namespace IsToken

variable {cs : List Char} (h : IsToken cs)

include h

theorem head?_ne : cs.head? ≠ some '(' := by
  rcases h with plain | literal
  · exact plain.head
  · rcases head?_of_isLiteral literal with head | head <;> rw [head] <;> decide

theorem intact : Intact cs := by
  refine ⟨?_, by simp [isWrapped, h.head?_ne]⟩
  rcases h with plain | literal
  · exact plain.intact.toTrimmed
  · obtain ⟨c, body, -, rfl, quote, -, -, -, last⟩ := exists_of_isLiteral literal
    have solid : isBlank c = false ∧ c ≠ ';' := by
      simp only [mem_cons, not_mem_nil, or_false] at quote
      rcases quote with rfl | rfl <;> decide
    refine ⟨⟨c, rfl, solid.1⟩, ⟨c, ?_, solid⟩⟩
    rw [getLast?_cons, last]
    rfl

/-- No parenthesis is opened or closed in an operand. -/
theorem untilClosed_append (depth : Nat) (rest : List Char) :
    untilClosed depth .none (cs ++ rest) = (untilClosed depth .none rest).map (putBefore cs) := by
  rcases h with plain | literal
  · exact untilClosed_of_nested plain.nested plain.unquoted depth rest
  · exact untilClosed_of_isLiteral literal depth rest

end IsToken

end Chars

namespace RustExpr

/-- **All operands are words or literals.** -/
def Tokenized (e : RustExpr) : Prop :=
  e.Each IsToken

variable {e : RustExpr}

/-- The operator between two operands has no brackets and no quotes. -/
theorem plain_operator (op : InfixOp) :
    Nested (' ' :: op.spelling.toList ++ [' ']) ∧
      Unquoted (' ' :: op.spelling.toList ++ [' ']) := by
  rcases op with op | op | op <;> cases op <;> decide

theorem plain_sign (op : PrefixOp) : Nested [op.symbol] ∧ Unquoted [op.symbol] := by
  cases op <;> decide

theorem Tokenized.intact (h : e.Tokenized) : e.Intact :=
  h.mono IsToken.intact

/-- **The parentheses of an expression match**, as far as they are not quoted. -/
theorem Tokenized.untilClosed_text (h : e.Tokenized) (depth : Nat) (rest : List Char) :
    untilClosed depth .none (e.text.toList ++ rest) =
      (untilClosed depth .none rest).map (putBefore e.text.toList) := by
  -- parentheses of the expression are closed by their own partners
  induction e generalizing depth rest with
  | operand t => exact IsToken.untilClosed_append h depth rest
  | paren e ih =>
    have opened : depthAfter depth .none '(' = depth + 1 := rfl
    have closed : depthAfter (depth + 1) .none ')' = depth := rfl
    have quote : ∀ c ∈ ['(', ')'], Quote.next .none c = .none := by decide
    rw [toList_text_paren, append_assoc, cons_append,
      untilClosed_cons (fun h => absurd h.2.1 (by decide)), opened, quote '(' (by simp), ih h,
      singleton_append, untilClosed_cons (by omega), closed, quote ')' (by simp),
      map_putBefore, map_putBefore]
    simp
  | unary op e ih =>
    obtain ⟨nested, unquoted⟩ := plain_sign op
    rw [toList_text_unary, ← singleton_append, append_assoc,
      untilClosed_of_nested nested unquoted, ih h, map_putBefore]
  | binary op l r ihl ihr =>
    obtain ⟨nested, unquoted⟩ := plain_operator op
    rw [toList_text_binary', append_assoc, append_assoc, ihl h.1,
      untilClosed_of_nested nested unquoted, ihr h.2, map_putBefore, map_putBefore,
      append_assoc]

theorem Each.enclosed {P : List Char → Prop} (h : e.Each P) : e.enclosed.Each P := by
  rw [RustExpr.enclosed]
  split <;> exact h

/-! ## Ungrouping -/

/-- **An expression without the parentheses that count as enclosing.** -/
def stripped : RustExpr → RustExpr
  | .paren e => if isWrapped (paren e).text.toList then e.stripped else .paren e
  | e => e

theorem Tokenized.ungroupedFrom_text (h : e.Tokenized) :
    ungroupedFrom e.text.toList = ungroupedFrom e.stripped.text.toList := by
  induction e with
  | paren e ih =>
    rw [stripped]
    split
    · rename_i wrapped
      rw [ungroupedFrom, dif_pos wrapped]
      dsimp only
      rw [Intact.inner_text (e := e) (Tokenized.intact (e := e) h)]
      exact ih h
    · rfl
  | _ => rfl

theorem Each.stripped {P : List Char → Prop} (h : e.Each P) : e.stripped.Each P := by
  induction e with
  | paren e ih =>
    rw [RustExpr.stripped]
    split
    · exact ih h
    · exact h
  | _ => exact h

theorem Tokenized.stripped (h : e.Tokenized) : e.stripped.Tokenized :=
  Each.stripped h

theorem isTight_stripped (e : RustExpr) : e.stripped.isTight = e.isTight := by
  induction e with
  | paren e ih =>
    rw [stripped]
    split
    · exact ih
    · rfl
  | _ => rfl

theorem bare_stripped (e : RustExpr) : e.stripped.bare = e.bare := by
  induction e with
  | paren e ih =>
    rw [stripped]
    split
    · exact ih
    · rfl
  | _ => rfl

/-- What is left in parentheses does not count as enclosed. -/
theorem isWrapped_of_stripped_eq_paren {e' : RustExpr} (h : e.stripped = .paren e') :
    isWrapped e.stripped.text.toList = false := by
  induction e with
  | paren e ih =>
    rw [stripped] at h ⊢
    split at h
    · rename_i wrapped
      rw [if_pos wrapped]
      exact ih h
    · rename_i unwrapped
      rw [if_neg unwrapped]
      simpa using unwrapped
  | _ => cases h

/-- An expression that starts with a parenthesis is a group, with something after it unless it is
nothing else. -/
theorem Tokenized.exists_group (h : e.Tokenized) (head : e.text.toList.head? = some '(') :
    ∃ (e' : RustExpr) (rest : List Char), e'.Tokenized ∧
      e.text.toList = '(' :: (e'.text.toList ++ ')' :: rest) ∧
      (rest = [] → ∃ e'', e = .paren e'') := by
  induction e with
  | operand t => exact absurd head (IsToken.head?_ne h)
  | paren e ih =>
    refine ⟨e, [], h, ?_, fun _ => ⟨e, rfl⟩⟩
    rw [toList_text_paren, cons_append]
  | unary op e ih =>
    rw [toList_text_unary] at head
    cases op <;> cases head
  | binary op l r ihl ihr =>
    -- the group is the start of the left operand, and the operator follows it
    obtain ⟨c, first, -⟩ := (Tokenized.intact (e := l) h.1).trimmed.head
    rw [toList_text_binary, head?_append, first, Option.some_or] at head
    obtain ⟨e', rest, tokenized, shape, -⟩ := ihl h.1 (first.trans head)
    refine ⟨e', rest ++ (' ' :: (op.spelling.toList ++ ' ' :: r.text.toList)), tokenized, ?_,
      fun empty => ?_⟩
    · rw [toList_text_binary, shape]
      simp
    · simp at empty

/-- **Two parentheses that are no pair** leave one behind that nothing opens. -/
theorem Tokenized.overcloses_inner (h : e.Tokenized) (wrapped : isWrapped e.text.toList = true)
    (other : ∀ e', e ≠ .paren e') : Overcloses (Chars.inner e.text.toList) := by
  -- the first parenthesis is closed by its partner, which is not the last one
  obtain ⟨mid, shape, -⟩ := eq_parens_of_isWrapped wrapped
  obtain ⟨e', rest, tokenized, start, whole⟩ := h.exists_group (by rw [shape]; rfl)
  have nonempty : rest ≠ [] := fun empty => by
    obtain ⟨e'', same⟩ := whole empty
    exact other e'' same
  have middle : mid = e'.text.toList ++ ')' :: rest.dropLast := by
    have same : mid ++ [')'] = e'.text.toList ++ ')' :: rest := by
      rw [start, cons_append] at shape
      exact (cons.inj shape).2.symm
    have front := congrArg dropLast same
    rwa [dropLast_concat, dropLast_append_of_ne_nil (cons_ne_nil _ _),
      dropLast_cons_of_ne_nil nonempty] at front
  rw [shape, inner_parens]
  apply overcloses_trim
  rw [Overcloses, middle, tokenized.untilClosed_text, Option.isSome_map]
  rfl

/-- **What is left without enclosing parentheses stands between the parentheses around it**, just
when it does not start and end with two that count as enclosing and are no pair. -/
theorem Tokenized.untilClosed_ungrouped_iff (h : e.Tokenized) (rest : List Char) :
    untilClosed 0 .none (ungrouped e.text.toList ++ ')' :: rest) =
        some (ungrouped e.text.toList, rest) ↔
      isWrapped e.stripped.text.toList = false := by
  rw [ungrouped, h.intact.trimmed.trim_eq, h.ungroupedFrom_text]
  cases wrapped : isWrapped e.stripped.text.toList with
  | false =>
    -- only pairs have been taken away
    have closed : untilClosed 0 .none (')' :: rest) = some ([], rest) := rfl
    rw [ungroupedFrom, dif_neg (by simp [wrapped]), h.stripped.untilClosed_text, closed,
      Option.map_some, putBefore, append_nil]
    exact iff_of_true rfl rfl
  | true =>
    -- two parentheses are taken away that are no pair
    have other : ∀ e', e.stripped ≠ .paren e' := by
      intro e' same
      rw [isWrapped_of_stripped_eq_paren same] at wrapped
      cases wrapped
    have left := overcloses_ungroupedFrom (h.stripped.overcloses_inner wrapped other)
    rw [ungroupedFrom, dif_pos wrapped]
    exact iff_of_false (left.untilClosed_ne _ _) (by decide)

theorem Tokenized.ungrouped_text (h : e.Tokenized)
    (unwrapped : isWrapped e.stripped.text.toList = false) :
    Fragment.ungrouped e.text = e.stripped.text := by
  apply String.toList_injective
  rw [Fragment.ungrouped, Text.toList_onChars, ungrouped, h.intact.trimmed.trim_eq,
    h.ungroupedFrom_text, ungroupedFrom, dif_neg (by simp [unwrapped])]

/-- Where brackets match, only pairs of parentheses are taken away. -/
theorem Tokenized.isWrapped_stripped (h : e.Tokenized) (balanced : e.Each Nested) :
    isWrapped e.stripped.text.toList = false := by
  cases shape : e.stripped with
  | paren e' =>
    rw [← shape]
    exact isWrapped_of_stripped_eq_paren shape
  | _ =>
    rw [← shape]
    refine h.stripped.intact.isWrapped_text balanced.stripped fun e' same => ?_
    rw [shape] at same
    cases same

/-! ## Names in the place of literals -/

/-- **An expression with names in the place of its literals.** -/
def named (ν : Naming) : RustExpr → RustExpr
  | .operand t => .operand (ν.word t)
  | .paren e => .paren (e.named ν)
  | .unary op e => .unary op (e.named ν)
  | .binary op l r => .binary op (l.named ν) (r.named ν)

section Naming

variable (ν : Naming)

theorem toList_text_named_operand {t : String} (h : IsToken t.toList) (rest : List Char) :
    ν.chars .none [] (t.toList ++ rest) =
      ((operand t).named ν).text.toList ++ ν.chars .none [] rest := by
  rw [named, toList_text_operand, Naming.word]
  rcases h with plain | literal
  · rw [isLiteral_eq_false_of_unquoted plain.unquoted, if_neg Bool.false_ne_true,
      ν.chars_of_unquoted plain.unquoted]
  · rw [if_pos literal, String.toList_ofList, ν.chars_of_isLiteral literal]

theorem Tokenized.chars_text (h : e.Tokenized) (rest : List Char) :
    ν.chars .none [] (e.text.toList ++ rest) =
      (e.named ν).text.toList ++ ν.chars .none [] rest := by
  have paren : ∀ c ∈ ['(', ')'], Unquoted [c] := by decide
  induction e generalizing rest with
  | operand t => exact toList_text_named_operand ν h rest
  | paren e ih =>
    rw [toList_text_paren, named, toList_text_paren, append_assoc, ← singleton_append,
      append_assoc, ν.chars_of_unquoted (paren '(' (by simp)), ih h,
      ν.chars_of_unquoted (paren ')' (by simp))]
    simp
  | unary op e ih =>
    rw [toList_text_unary, named, toList_text_unary, ← singleton_append, append_assoc,
      ν.chars_of_unquoted (plain_sign op).2, ih h]
    rfl
  | binary op l r ihl ihr =>
    rw [toList_text_binary', named, toList_text_binary', append_assoc, append_assoc,
      ihl h.1, ν.chars_of_unquoted (plain_operator op).2, ihr h.2]
    simp only [append_assoc]

/-- **Names are put in the place of literals by the text.** -/
theorem Tokenized.text_named (h : e.Tokenized) : ν.text e.text = (e.named ν).text := by
  have whole := h.chars_text ν []
  rw [append_nil, Naming.chars, reverse_nil, append_nil] at whole
  rw [Naming.text, whole, String.ofList_toList]

theorem Tokenized.isWordy_named (h : e.Tokenized) : (e.named ν).isWordy = true := by
  induction e with
  | operand t =>
    rw [named, isWordy, Naming.word]
    rcases h with plain | literal
    · rw [isLiteral_eq_false_of_unquoted plain.unquoted, if_neg Bool.false_ne_true]
      exact plain.word
    · rw [if_pos literal, String.toList_ofList]
      exact (operand_of_isIdentifier (ν.isIdentifier _)).word
  | paren e ih => exact ih h
  | unary op e ih => exact ih h
  | binary op l r ihl ihr => exact Bool.and_eq_true_iff.2 ⟨ihl h.1, ihr h.2⟩

theorem bare_named (e : RustExpr) : (e.named ν).bare = e.bare.named ν := by
  induction e with
  | operand t => rfl
  | paren e ih => exact ih
  | unary op e ih => rw [named, bare, bare, named, ih]
  | binary op l r ihl ihr => rw [named, bare, bare, named, ihl, ihr]

/-- Names bind like what they stand for. -/
theorem isTight_named (e : RustExpr) :
    (e.named ν).isTight = e.isTight ∧ (e.named ν).level = e.level ∧
      (e.named ν).isComparison = e.isComparison := by
  induction e with
  | operand t => exact ⟨rfl, rfl, rfl⟩
  | paren e ih => exact ⟨ih.1, rfl, rfl⟩
  | unary op e ih =>
    refine ⟨?_, rfl, rfl⟩
    rw [named, isTight, isTight, ih.1, ih.2.1]
  | binary op l r ihl ihr =>
    refine ⟨?_, rfl, rfl⟩
    rw [named, isTight, isTight, ihl.1, ihl.2.1, ihl.2.2, ihr.1, ihr.2.1]

/-- **An expression with literals is read as it was written just when it is tight.** -/
theorem Tokenized.read?_text_iff (h : e.Tokenized) :
    (∃ t, read? (ν.text e.text) = some t ∧ t.bare = e.bare.named ν) ↔ e.isTight = true := by
  have wordy := h.isWordy_named ν
  rw [h.text_named, ← bare_named, RustExpr.read?_text_iff wordy, fits_eq, wordy, Bool.and_true,
    (isTight_named ν e).1]

end Naming

end RustExpr

/-! ## What is written -/

namespace CExpr

/-- All operands are words or literals. -/
def Tokenized (e : CExpr) : Prop :=
  e.Each IsToken

/-- **What an expression is really written as**, with the parentheses that its text gets. -/
abbrev written (e : CExpr) : RustExpr :=
  e.loweredBy .enclosed

/-- The condition that an expression is written as. -/
def condition (e : CExpr) : RustExpr :=
  e.tested .enclosed e.written

variable {e : CExpr}

theorem bare_condition (e : CExpr) : e.condition.bare = e.tested id e.replaced := by
  rw [condition, bare_tested bare_enclosed, bare_loweredBy bare_enclosed]

theorem isToken_zero : ∀ zero ∈ [Fragment.nullPointer, "0.0", "0"], IsToken zero.toList := by
  have plain : ∀ zero ∈ [Fragment.nullPointer, "0.0", "0"], PlainOperand zero.toList := by decide
  exact fun zero mem => .inl (plain zero mem)

theorem Tokenized.written (h : e.Tokenized) : e.written.Tokenized :=
  h.loweredBy isToken_zero fun _ => RustExpr.Each.enclosed

theorem Tokenized.condition (h : e.Tokenized) : e.condition.Tokenized :=
  (each_tested isToken_zero h.written h.written.enclosed e).1

theorem Each.lower (h : e.Each Nested) : e.lower.Each Nested :=
  h.loweredBy (by decide) fun _ => RustExpr.Each.group

/-- **Where brackets match, parentheses stand where they should.** -/
theorem Tokenized.written_eq_lower (h : e.Tokenized) (balanced : e.Each Nested) :
    e.written = e.lower := by
  -- counting characters matters only where an operand is put in parentheses
  have enclosed : ∀ {e : CExpr}, e.Tokenized → e.Each Nested → e.written = e.lower →
      (e.loweredBy .group).enclosed = (e.loweredBy .group).group := by
    intro e h balanced same
    exact (same ▸ h.written).intact.enclosed_eq_group balanced.lower
  show e.loweredBy .enclosed = e.loweredBy .group
  induction e with
  | atom t type => rfl
  | number t type => rfl
  | paren e ih => rw [loweredBy, loweredBy, ih h balanced]
  | unary op type e ih => rw [loweredBy, loweredBy, ih h balanced]
  | lnot type e ih =>
    have same := ih h balanced
    rw [loweredBy, loweredBy, same,
      (tested_enclosed (enclosed (e := e) h balanced same) e).2]
  | binary op type l r ihl ihr =>
    have left := ihl h.1 balanced.1
    have right := ihr h.2 balanced.2
    cases op with
    | arithmetic op => rw [loweredBy, loweredBy, left, right]
    | comparison op => rw [loweredBy, loweredBy, left, right]
    | logical op =>
      rw [loweredBy, loweredBy, left, right,
        (tested_enclosed (enclosed h.1 balanced.1 left) l).1,
        (tested_enclosed (enclosed h.2 balanced.2 right) r).1]

/-- A condition in which brackets match and no comparison clashes is written with enough
parentheses, and no others than pairs of them are taken away. -/
theorem Tokenized.condition_spec (h : e.Tokenized) (balanced : e.Each Nested)
    (grammatical : e.isGrammatical = true) (unclashing : e.unclashing = true) :
    e.condition.isTight = true ∧ isWrapped e.condition.stripped.text.toList = false := by
  have same := h.written_eq_lower balanced
  have enclosed := (same ▸ h.written).intact.enclosed_eq_group balanced.lower
  have shape : e.condition = e.tested .group e.lower := by
    rw [CExpr.condition, same, (tested_enclosed enclosed e).1]
  constructor
  · rw [shape, isTight_tested, isTight_lower_eq grammatical, unclashing]
  · apply h.condition.isWrapped_stripped
    rw [shape]
    have lower := balanced.lower
    exact (each_tested (by decide) lower lower.group e).1

end CExpr

end Ferric
