import Ferric.Proofs.Expression.Words

/-!
# Expressions of the target language

Expressions with operators, as they are written: with the parentheses that stand there, and no
others.

## Main definitions

* `InfixOp.level`: how tightly an operator binds.
* `RustExpr`: expressions, with their parentheses.
* `RustExpr.text`, `RustExpr.words`: an expression as it is written.
* `RustExpr.fits`: every operand is a word and binds more tightly than the operator it belongs to.
* `RustExpr.isTight`: the same, whatever the operands are.
* `RustExpr.bare`: an expression without its parentheses.

## Main results

* `RustExpr.exprWords_text`: the words of a written expression.
* `RustExpr.eq_of_words_eq_of_bare_eq`: the words of an expression and what is applied to what
  determine its parentheses.
-/

namespace Ferric

open List

/-! ## Operators -/

/-- The operators between two operands that change nothing. -/
inductive InfixOp where
  | arithmetic (op : Arithmetic)
  | comparison (op : Comparison)
  | logical (op : Connective)
deriving DecidableEq, Repr

namespace InfixOp

/-- The operator among all binary ones. -/
def toBinary : InfixOp → BinaryOp
  | .arithmetic op => .arithmetic op
  | .comparison op => .comparison op
  | .logical op => .logical op

/-- The operator's token. -/
def spelling (op : InfixOp) : String :=
  op.toBinary.spelling

/-- Whether the operator compares its operands. -/
def isComparison (op : InfixOp) : Bool :=
  op.toBinary.isComparison

/-- Every operator. -/
def all : List InfixOp :=
  Arithmetic.all.map .arithmetic ++ Comparison.all.map .comparison ++
    [.logical .and, .logical .or]

/-- **How tightly an operator binds** in the target language. -/
def level : InfixOp → Nat
  | .arithmetic .mul | .arithmetic .div | .arithmetic .rem => 9
  | .arithmetic .add | .arithmetic .sub => 8
  | .arithmetic .shl | .arithmetic .shr => 7
  | .arithmetic .and => 6
  | .arithmetic .xor => 5
  | .arithmetic .or => 4
  | .comparison _ => 3
  | .logical .and => 2
  | .logical .or => 1

def ofWord? (word : List Char) : Option InfixOp :=
  all.find? fun op => op.spelling.toList == word

variable (op : InfixOp)

theorem ofWord?_spelling : ofWord? op.spelling.toList = some op := by
  rcases op with op | op | op <;> cases op <;> rfl

theorem eq_of_ofWord? {word : List Char} {op : InfixOp} (h : ofWord? word = some op) :
    word = op.spelling.toList := by
  have same := find?_some h
  exact (beq_iff_eq.1 same).symm

theorem spelling_ne_paren : op.spelling.toList ≠ [')'] := by
  rcases op with op | op | op <;> cases op <;> decide

/-- The token of an operator is a word that a blank ends. -/
theorem scan_spelling :
    ∃ c cs scan, op.spelling.toList = c :: cs ∧ c ≠ '(' ∧ Chars.isBlank c = false ∧
      Chars.Scan.ofWord? (c :: cs) = some scan ∧ scan.isComplete = true ∧
      scan.step? ' ' = none := by
  rcases op with op | op | op <;> cases op <;>
    exact ⟨_, _, _, rfl, by decide, rfl, rfl, rfl, rfl⟩

/-- The characters of operators have no meaning inside of brackets. -/
theorem isNeutral_spelling : ∀ c ∈ op.spelling.toList, Chars.Scan.isNeutral c = true := by
  rcases op with op | op | op <;> cases op <;> decide

theorem level_lt_ten : op.level < 10 := by
  rcases op with op | op | op <;> cases op <;> decide

theorem level_pos : 0 < op.level := by
  rcases op with op | op | op <;> cases op <;> decide

end InfixOp

/-- The operators in front of an operand that change nothing. -/
inductive PrefixOp where
  | minus
  /-- The complement of a number, or the negation of a truth value. -/
  | not
deriving DecidableEq, Repr

namespace PrefixOp

/-- The operator's character. -/
def symbol : PrefixOp → Char
  | .minus => '-'
  | .not => '!'

def ofWord? : List Char → Option PrefixOp
  | ['-'] => some .minus
  | ['!'] => some .not
  | _ => none

theorem eq_of_ofWord? {word : List Char} {op : PrefixOp} (h : ofWord? word = some op) :
    word = [op.symbol] := by
  unfold ofWord? at h
  split at h <;> cases h <;> rfl

end PrefixOp

/-! ## Expressions -/

/-- **An expression of the target language**, with its parentheses. -/
inductive RustExpr where
  /-- A name or a number, with what belongs to it. -/
  | operand (text : String)
  | paren (e : RustExpr)
  | unary (op : PrefixOp) (e : RustExpr)
  | binary (op : InfixOp) (lhs rhs : RustExpr)
deriving DecidableEq, Repr

namespace RustExpr

/-- **An expression as it is written.** -/
def text : RustExpr → String
  | .operand t => t
  | .paren e => "(" ++ e.text ++ ")"
  | .unary op e => String.singleton op.symbol ++ e.text
  | .binary op l r => l.text ++ " " ++ op.spelling ++ " " ++ r.text

def words : RustExpr → List (List Char)
  | .operand t => [t.toList]
  | .paren e => ['('] :: e.words ++ [[')']]
  | .unary op e => [op.symbol] :: e.words
  | .binary op l r => l.words ++ op.spelling.toList :: r.words

/-- How tightly the outermost operator of an expression binds. -/
def level : RustExpr → Nat
  | .operand _ | .paren _ => 11
  | .unary _ _ => 10
  | .binary op _ _ => op.level

/-- Whether an expression is a comparison without parentheses. -/
def isComparison : RustExpr → Bool
  | .binary op _ _ => op.isComparison
  | _ => false

/-- **Whether every operand binds more tightly than its operator.**  The left operand may bind as
tightly, except with comparisons. -/
def fits : RustExpr → Bool
  | .operand t => Chars.isOperandWord t.toList
  | .paren e => e.fits
  | .unary _ e => e.fits && 10 ≤ e.level
  | .binary op l r =>
    l.fits && r.fits && op.level ≤ l.level && op.level < r.level &&
      !(op.isComparison && l.isComparison)

/-- Whether all operands are words. -/
def isWordy : RustExpr → Bool
  | .operand t => Chars.isOperandWord t.toList
  | .paren e | .unary _ e => e.isWordy
  | .binary _ l r => l.isWordy && r.isWordy

/-- Whether every operand binds more tightly than its operator, whatever the operands are. -/
def isTight : RustExpr → Bool
  | .operand _ => true
  | .paren e => e.isTight
  | .unary _ e => e.isTight && 10 ≤ e.level
  | .binary op l r =>
    l.isTight && r.isTight && op.level ≤ l.level && op.level < r.level &&
      !(op.isComparison && l.isComparison)

/-- An expression fits when it is tight and its operands are words. -/
theorem fits_eq (e : RustExpr) : e.fits = (e.isTight && e.isWordy) := by
  induction e with
  | operand t => rfl
  | paren e ih => exact ih
  | unary op e ih =>
    rw [fits, isTight, isWordy, ih]
    ac_rfl
  | binary op l r ihl ihr =>
    rw [fits, isTight, isWordy, ihl, ihr]
    ac_rfl

variable {e : RustExpr} {w : List Char}

theorem isWordy_of_fits (h : e.fits = true) : e.isWordy = true := by
  rw [fits_eq] at h
  exact (Bool.and_eq_true_iff.1 h).2

/-! ## Words of a written expression -/

section Words

open Chars

/-- The texts before which an operand ends. -/
def Stops (rest : List Char) : Prop :=
  ∀ c, rest.head? = some c → c = ' ' ∨ c = ')'

variable {rest : List Char} {e : RustExpr}

theorem endsBefore_of_isOperand {scan : Scan} (h : scan.isOperand = true) (stops : Stops rest) :
    scan.EndsBefore rest := by
  intro c hc
  cases scan with
  | name | number | closed => rcases stops c hc with rfl | rfl <;> rfl
  | joint | exponent | group | symbol | full => cases h

theorem isComplete_of_isOperand {scan : Scan} (h : scan.isOperand = true) :
    scan.isComplete = true := by
  cases scan with
  | name | number | closed => rfl
  | joint | exponent | group | symbol | full => cases h

theorem toList_text_operand (t : String) : (operand t).text.toList = t.toList := rfl

theorem toList_text_paren (e : RustExpr) :
    (paren e).text.toList = '(' :: e.text.toList ++ [')'] := by
  simp [text]

theorem toList_text_unary (op : PrefixOp) (e : RustExpr) :
    (unary op e).text.toList = op.symbol :: e.text.toList := by
  simp [text]

theorem toList_text_binary (op : InfixOp) (l r : RustExpr) :
    (binary op l r).text.toList =
      l.text.toList ++ (' ' :: (op.spelling.toList ++ ' ' :: r.text.toList)) := by
  simp [text]

/-- What an expression starts with. -/
theorem exists_text_eq_cons (h : e.isWordy = true) :
    ∃ c cs, e.text.toList = c :: cs ∧ isBlank c = false ∧ c ≠ '=' := by
  induction e with
  | operand t =>
    obtain ⟨c, cs, first, -, shape, start, -, -, how⟩ := exists_of_isOperandWord h
    refine ⟨c, cs, shape, Scan.isBlank_of_startAt? start, ?_⟩
    rintro rfl
    rcases how with ⟨paren, -⟩ | ⟨digit, -⟩ | ⟨name, -⟩
    · cases paren
    · cases digit
    · cases name
  | paren e ih => exact ⟨'(', _, toList_text_paren e, rfl, by decide⟩
  | unary op e ih => exact ⟨op.symbol, _, toList_text_unary op e, by cases op <;> decide,
      by cases op <;> decide⟩
  | binary op l r ihl ihr =>
    obtain ⟨c, cs, shape, solid, other⟩ := ihl (Bool.and_eq_true_iff.1 h).1
    have start := toList_text_binary op l r
    rw [shape, cons_append] at start
    exact ⟨c, _, start, solid, other⟩

theorem exprWordsFrom_operand {word : List Char} (h : isOperandWord word = true)
    (stops : Stops rest) :
    exprWordsFrom none (word ++ rest) = (exprWordsFrom none rest).map (word :: ·) := by
  obtain ⟨scan, read, isOperand⟩ := isOperandWord_iff.1 h
  cases word with
  | nil => cases read
  | cons c cs =>
    obtain ⟨first, start, -⟩ := Option.bind_eq_some_iff.1 read
    exact exprWordsFrom_word read (isComplete_of_isOperand isOperand)
      (Scan.isBlank_of_startAt? start) (startAt?_append_of_isOperandWord h rfl rest)
      (endsBefore_of_isOperand isOperand stops)

theorem exprWordsFrom_operator (op : InfixOp) (rest : List Char) :
    exprWordsFrom none (op.spelling.toList ++ ' ' :: rest) =
      (exprWordsFrom none rest).map (op.spelling.toList :: ·) := by
  obtain ⟨c, cs, scan, shape, other, solid, read, complete, step⟩ := op.scan_spelling
  have ends : scan.EndsBefore (' ' :: rest) := by
    intro d hd
    obtain rfl : ' ' = d := by simpa using hd
    exact step
  have same : Scan.startAt? c (cs ++ ' ' :: rest) = Scan.startAt? c cs := by
    rw [Scan.startAt?_of_ne other, Scan.startAt?_of_ne other]
  rw [shape, exprWordsFrom_word read complete solid same ends, exprWordsFrom_blank rfl]

/-- The sign in front of an expression is a word of its own. -/
theorem exprWordsFrom_sign (op : PrefixOp) (h : e.isWordy = true) (rest : List Char) :
    exprWordsFrom none (op.symbol :: (e.text.toList ++ rest)) =
      (exprWordsFrom none (e.text.toList ++ rest)).map ([op.symbol] :: ·) := by
  obtain ⟨c, cs, shape, -, other⟩ := exists_text_eq_cons h
  have ends : (Scan.symbol op.symbol).EndsBefore (e.text.toList ++ rest) := by
    intro d hd
    obtain rfl : c = d := by simpa [shape] using hd
    cases op <;> simp [Scan.step?, isPair, PrefixOp.symbol, other]
  have read : Scan.ofWord? [op.symbol] = some (.symbol op.symbol) := by cases op <;> rfl
  have solid : isBlank op.symbol = false := by cases op <;> rfl
  have same : Scan.startAt? op.symbol ([] ++ (e.text.toList ++ rest)) =
      Scan.startAt? op.symbol [] := by cases op <;> rfl
  exact exprWordsFrom_word read rfl solid same ends

/-! Parentheses around an expression do not lead an operand. -/

theorem leads_of_isNeutral {stack : List Char} {cs : List Char}
    (h : ∀ c ∈ cs, Scan.isNeutral c = true) (rest : List Char) :
    Scan.leads (.group stack .none) (cs ++ rest) = Scan.leads (.group stack .none) rest := by
  induction cs with
  | nil => rfl
  | cons c cs ih =>
    rw [cons_append, Scan.leads_cons (Scan.step?_of_isNeutral (h c mem_cons_self) stack)]
    exact ih fun d hd => h d (mem_cons_of_mem c hd)

/-- Inside of brackets the text of an expression leaves as many of them open as it found. -/
theorem leads_text (h : e.isWordy = true) {stack : List Char} (hs : stack ≠ []) (rest : List Char) :
    Scan.leads (.group stack .none) (e.text.toList ++ rest) =
      Scan.leads (.group stack .none) rest := by
  induction e generalizing stack rest with
  | operand t => exact leads_of_isOperandWord h hs rest
  | paren e ih =>
    have opened : Scan.step? (.group stack .none) '(' = some (.group ('(' :: stack) .none) :=
      Scan.step?_of_isOpening rfl stack
    have closed : Scan.step? (.group ('(' :: stack) .none) ')' = some (.group stack .none) := by
      simp [Scan.step?, Scan.inGroup?, isOpening, isClosing, partner, hs]
    rw [toList_text_paren, append_assoc, cons_append, singleton_append,
      Scan.leads_cons opened, ih h (cons_ne_nil _ _), Scan.leads_cons closed]
  | unary op e ih =>
    have neutral : Scan.isNeutral op.symbol = true := by cases op <;> rfl
    rw [toList_text_unary, cons_append,
      Scan.leads_cons (Scan.step?_of_isNeutral neutral stack), ih h hs]
  | binary op l r ihl ihr =>
    obtain ⟨wordyl, wordyr⟩ := Bool.and_eq_true_iff.1 h
    have neutral : ∀ c ∈ ' ' :: op.spelling.toList ++ [' '], Scan.isNeutral c = true := by
      intro c hc
      simp only [mem_append, mem_cons, not_mem_nil, or_false] at hc
      rcases hc with (rfl | hc) | rfl
      · rfl
      · exact op.isNeutral_spelling c hc
      · rfl
    have shape : (binary op l r).text.toList ++ rest =
        l.text.toList ++ ((' ' :: op.spelling.toList ++ [' ']) ++ (r.text.toList ++ rest)) := by
      rw [toList_text_binary]
      simp
    rw [shape, ihl wordyl hs, leads_of_isNeutral neutral, ihr wordyr hs]

theorem exprWordsFrom_close_paren (rest : List Char) :
    exprWordsFrom none (')' :: rest) = (exprWordsFrom none rest).map ([')'] :: ·) := by
  have read : Scan.ofWord? [')'] = some .full := rfl
  exact exprWordsFrom_word read rfl rfl rfl fun _ _ => rfl

theorem exprWordsFrom_open_paren (h : e.isWordy = true) (stops : Stops rest) :
    exprWordsFrom none ('(' :: (e.text.toList ++ ')' :: rest)) =
      (exprWordsFrom none (e.text.toList ++ ')' :: rest)).map (['('] :: ·) := by
  have read : Scan.ofWord? ['('] = some .full := rfl
  have alone : Scan.leads (.group ['('] .none) (e.text.toList ++ ')' :: rest) = false := by
    have closed : Scan.step? (.group ['('] .none) ')' = some .closed := rfl
    rw [leads_text h (cons_ne_nil _ _), Scan.leads, closed]
    cases rest with
    | nil => rfl
    | cons c rest => rcases stops c rfl with rfl | rfl <;> rfl
  have same : Scan.startAt? '(' ([] ++ (e.text.toList ++ ')' :: rest)) = Scan.startAt? '(' [] := by
    simp only [nil_append, Scan.startAt?, alone]
    rfl
  exact exprWordsFrom_word read rfl rfl same fun _ _ => rfl

/-- **The words of a written expression.** -/
theorem exprWordsFrom_text (h : e.isWordy = true) (stops : Stops rest) :
    exprWordsFrom none (e.text.toList ++ rest) =
      (exprWordsFrom none rest).map (e.words ++ ·) := by
  induction e generalizing rest with
  | operand t => exact exprWordsFrom_operand h stops
  | paren e ih =>
    have wordy : e.isWordy = true := h
    have inner : Stops (')' :: rest) := by
      intro c hc
      exact .inr (by simpa using hc.symm)
    rw [toList_text_paren, append_assoc, cons_append, singleton_append,
      exprWordsFrom_open_paren wordy stops, ih wordy inner, exprWordsFrom_close_paren,
      Option.map_map, Option.map_map]
    simp [Function.comp_def, words]
  | unary op e ih =>
    have wordy : e.isWordy = true := h
    rw [toList_text_unary, cons_append, exprWordsFrom_sign op wordy, ih wordy stops,
      Option.map_map]
    rfl
  | binary op l r ihl ihr =>
    have wordy : l.isWordy = true ∧ r.isWordy = true := Bool.and_eq_true_iff.1 h
    have blank : ∀ cs, Stops (' ' :: cs) := by
      intro cs c hc
      exact .inl (by simpa using hc.symm)
    rw [toList_text_binary, append_assoc, cons_append, append_assoc,
      ihl wordy.1 (blank _), exprWordsFrom_blank rfl, cons_append, exprWordsFrom_operator,
      ihr wordy.2 stops, Option.map_map, Option.map_map]
    simp [Function.comp_def, words]

theorem exprWords_text (h : e.isWordy = true) : exprWords e.text.toList = some e.words := by
  have stops : Stops [] := fun _ hc => by cases hc
  have whole := exprWordsFrom_text h stops
  rw [append_nil] at whole
  rw [exprWords, whole]
  simp [exprWordsFrom, Pending.close?]

end Words

/-! ## Expressions up to parentheses -/

/-- **An expression without its parentheses**: what is applied to what. -/
def bare : RustExpr → RustExpr
  | .operand t => .operand t
  | .paren e => e.bare
  | .unary op e => .unary op e.bare
  | .binary op l r => .binary op l.bare r.bare

/-- Words other than parentheses. -/
def isSolid (w : List Char) : Bool :=
  w ≠ ['('] && w ≠ [')']

theorem isSolid_spelling (op : InfixOp) : isSolid op.spelling.toList = true := by
  rcases op with op | op | op <;> cases op <;> rfl

theorem isSolid_of_isOperandWord (h : Chars.isOperandWord w = true) : isSolid w = true := by
  have opening : w ≠ ['('] := by
    rintro rfl
    cases h
  have closing : w ≠ [')'] := by
    rintro rfl
    cases h
  simp [isSolid, opening, closing]

/-- Expressions that differ in parentheses alone have as many other words. -/
theorem countP_words (e : RustExpr) : e.words.countP isSolid = e.bare.words.countP isSolid := by
  induction e with
  | operand t => rfl
  | paren e ih => simpa [words, bare, isSolid, countP_cons] using ih
  | unary op e ih => simp only [words, bare, countP_cons, ih]
  | binary op l r ihl ihr => simp only [words, bare, countP_append, countP_cons, ihl, ihr]

/-- How many parentheses are open after one more word. -/
def depthStep (depth : Nat) (w : List Char) : Option Nat :=
  if w = ['('] then some (depth + 1)
  else if w = [')'] then (if depth = 0 then none else some (depth - 1))
  else some depth

theorem depthStep_of_isSolid (h : isSolid w = true) (depth : Nat) :
    depthStep depth w = some depth := by
  simp only [isSolid, Bool.and_eq_true, decide_eq_true_eq] at h
  simp [depthStep, h]

/-- The parentheses of an expression match. -/
theorem foldlM_depthStep_words (h : e.isWordy = true) (depth : Nat) :
    e.words.foldlM depthStep depth = some depth := by
  induction e generalizing depth with
  | operand t => simp [words, depthStep_of_isSolid (isSolid_of_isOperandWord h)]
  | paren e ih =>
    have opened : depthStep depth ['('] = some (depth + 1) := rfl
    have closed : depthStep (depth + 1) [')'] = some depth := rfl
    simp [words, opened, ih h, closed]
  | unary op e ih =>
    have solid : isSolid [op.symbol] = true := by cases op <;> rfl
    simp [words, depthStep_of_isSolid solid, ih h]
  | binary op l r ihl ihr =>
    have wordy : l.isWordy = true ∧ r.isWordy = true := Bool.and_eq_true_iff.1 h
    simp [words, ihl wordy.1, ihr wordy.2, depthStep_of_isSolid (isSolid_spelling op)]

theorem foldlM_depthStep_succ {ws : List (List Char)} {m n : Nat}
    (h : ws.foldlM depthStep m = some n) : ws.foldlM depthStep (m + 1) = some (n + 1) := by
  induction ws generalizing m with
  | nil => simpa using h
  | cons w ws ih =>
    rw [foldlM_cons] at h ⊢
    obtain ⟨k, step, later⟩ := Option.bind_eq_some_iff.1 h
    have up : depthStep (m + 1) w = some (k + 1) := by
      unfold depthStep at step ⊢
      by_cases opened : w = ['(']
      · rw [if_pos opened] at step ⊢
        rw [Option.some.inj step]
      · rw [if_neg opened] at step ⊢
        by_cases closed : w = [')']
        · rw [if_pos closed] at step ⊢
          by_cases zero : m = 0
          · rw [if_pos zero] at step
            cases step
          · rw [if_neg zero] at step
            obtain rfl := Option.some.inj step
            simp only [Nat.add_one_ne_zero, if_false, Option.some.injEq]
            omega
        · rw [if_neg closed] at step ⊢
          rw [Option.some.inj step]
    rw [up]
    exact ih later

theorem words_ne_nil (e : RustExpr) : e.words ≠ [] := by
  cases e <;> simp [words]

/-- **No operator stands after a group that goes on**: an expression in parentheses has other words
than one with an operator between two operands. -/
theorem words_paren_ne_binary {l r : RustExpr} {op : InfixOp} (he : e.isWordy = true)
    (hl : l.isWordy = true) : (paren e).words ≠ (binary op l r).words := by
  intro same
  rw [words, words, cons_append] at same
  rcases cons_eq_append_iff.1 same with ⟨empty, -⟩ | ⟨start, shape, rest⟩
  · exact words_ne_nil l empty
  · -- the left operand is the parenthesis with a start of what stands inside
    have inside : e.words = start ++ (op.spelling.toList :: r.words).dropLast := by
      rw [← dropLast_append_of_ne_nil (cons_ne_nil _ _), ← rest, dropLast_concat]
    have matched := foldlM_depthStep_words he 0
    rw [inside, foldlM_append] at matched
    obtain ⟨depth, ahead, -⟩ := Option.bind_eq_some_iff.1 matched
    have left := foldlM_depthStep_words hl 0
    have opened : depthStep 0 ['('] = some 1 := rfl
    rw [shape, foldlM_cons, opened, Option.bind_eq_bind, Option.bind_some,
      foldlM_depthStep_succ ahead] at left
    cases left

/-- Two operands and the operator between them are found in the words. -/
theorem words_left_eq {l l' : RustExpr} {rs rs' : List (List Char)} (solid : isSolid w = true)
    (bare : l.bare = l'.bare) (same : l.words ++ w :: rs = l'.words ++ w :: rs') :
    l.words = l'.words ∧ rs = rs' := by
  have count : l.words.countP isSolid = l'.words.countP isSolid := by
    rw [countP_words l, countP_words l', bare]
  -- a longer left operand would have the operator among its words
  rcases append_eq_append_iff.1 same with ⟨more, longer, tail⟩ | ⟨more, longer, tail⟩
  · cases more with
    | nil => exact ⟨by simpa using longer.symm, by simpa using tail⟩
    | cons v more =>
      obtain ⟨rfl, -⟩ := cons.inj tail
      rw [longer, countP_append, countP_cons_of_pos solid] at count
      omega
  · cases more with
    | nil => exact ⟨by simpa using longer, by simpa using tail.symm⟩
    | cons v more =>
      obtain ⟨rfl, -⟩ := cons.inj tail
      rw [longer, countP_append, countP_cons_of_pos solid] at count
      omega

/-- **The words and what is applied to what determine the parentheses.** -/
theorem eq_of_words_eq_of_bare_eq {e' : RustExpr} (wordy : e.isWordy = true)
    (wordy' : e'.isWordy = true) (words : e.words = e'.words) (bare : e.bare = e'.bare) :
    e = e' := by
  induction e generalizing e' with
  | operand t =>
    cases e' with
    | operand t' => exact bare
    | paren e' => simp [RustExpr.words] at words
    | unary op' e' => cases bare
    | binary op' l' r' => cases bare
  | paren e ih =>
    cases e' with
    | operand t' => simp [RustExpr.words] at words
    | paren e' =>
      have inside : e.words = e'.words := by simpa [RustExpr.words] using words
      have wordy' : e'.isWordy = true := wordy'
      rw [ih wordy wordy' inside bare]
    | unary op' e' => cases op' <;> cases words
    | binary op' l' r' =>
      exact absurd words (words_paren_ne_binary wordy (Bool.and_eq_true_iff.1 wordy').1)
  | unary op e ih =>
    cases e' with
    | operand t' => cases bare
    | paren e' => cases op <;> cases words
    | unary op' e' =>
      obtain ⟨rfl, below⟩ := RustExpr.unary.inj bare
      have inside : e.words = e'.words := by simpa [RustExpr.words] using words
      have wordy' : e'.isWordy = true := wordy'
      rw [ih wordy wordy' inside below]
    | binary op' l' r' => cases bare
  | binary op l r ihl ihr =>
    cases e' with
    | operand t' => cases bare
    | paren e' =>
      exact absurd words.symm (words_paren_ne_binary wordy' (Bool.and_eq_true_iff.1 wordy).1)
    | unary op' e' => cases bare
    | binary op' l' r' =>
      obtain ⟨rfl, left, right⟩ := RustExpr.binary.inj bare
      obtain ⟨wordyl, wordyr⟩ := Bool.and_eq_true_iff.1 wordy
      obtain ⟨wordyl', wordyr'⟩ := Bool.and_eq_true_iff.1 wordy'
      obtain ⟨wordsl, wordsr⟩ := words_left_eq (isSolid_spelling op) left words
      rw [ihl wordyl wordyl' wordsl left, ihr wordyr wordyr' wordsr right]

end RustExpr

end Ferric
