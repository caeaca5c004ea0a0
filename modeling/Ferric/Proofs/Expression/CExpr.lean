import Ferric.Proofs.Expression.Reader

/-!
# Expressions of the source, and what they become

Expressions without side effects, casts and pointer arithmetic, by what they are applied to and by
the parentheses in the source.  In the target a number or a pointer is compared with its zero where
a truth value is needed, and a logical negation becomes such a comparison too, unless its operand is
a truth value already.

The operators bind in almost the same order in both languages.  What differs are the comparisons:
in the target they bind less tightly than the bitwise operators, and they do not associate.  So the
parentheses of the source are enough just when no comparison stands without them under an operator
that is not logical.

## Main definitions

* `CExpr`: expressions of the source.
* `CExpr.isGrammatical`: parenthesised as the source language requires.
* `CExpr.lower`: what an expression is written as.
* `CExpr.replaced`: what is applied to what in the target.
* `CExpr.unclashing`: no comparison is written where the target would take it apart.

## Main results

* `CExpr.fits_lower_eq`: which expressions are written with enough parentheses.
* `CExpr.bare_loweredBy`: what is written is, up to parentheses, what was meant.
-/

namespace Ferric

open RustExpr

namespace InfixOp

/-- **How tightly an operator binds** in the source language. -/
def sourceLevel : InfixOp → Nat
  | .arithmetic .mul | .arithmetic .div | .arithmetic .rem => 10
  | .arithmetic .add | .arithmetic .sub => 9
  | .arithmetic .shl | .arithmetic .shr => 8
  | .comparison .lt | .comparison .le | .comparison .gt | .comparison .ge => 7
  | .comparison .eq | .comparison .ne => 6
  | .arithmetic .and => 5
  | .arithmetic .xor => 4
  | .arithmetic .or => 3
  | .logical .and => 2
  | .logical .or => 1

end InfixOp

open InfixOp

namespace RustExpr

def null : RustExpr :=
  .operand Fragment.nullPointer

/-- An expression without the parentheses around it. -/
def core : RustExpr → RustExpr
  | .paren e => e.core
  | e => e

/-- **An expression as a single operand**: with parentheses unless it has them or is an operand. -/
def group : RustExpr → RustExpr
  | .operand t => if Chars.isAtom t.toList then .operand t else .paren (.operand t)
  | .paren e => .paren e
  | .unary op e => .paren (.unary op e)
  | .binary op l r => .paren (.binary op l r)

/-- Where a pointer is expected, a zero is the null pointer. -/
def comparand (expected : CType) (e : RustExpr) : RustExpr :=
  if expected.isPointer && e.core = .operand "0" then null else e

end RustExpr

/-- **An expression of the source.** -/
inductive CExpr where
  /-- A variable, a member, an element or a call, as it is written in the target. -/
  | atom (text : String) (type : CType)
  /-- A number, as it is written in the target. -/
  | number (text : String) (type : CType)
  | paren (e : CExpr)
  | unary (op : PrefixOp) (type : CType) (e : CExpr)
  | lnot (type : CType) (e : CExpr)
  | binary (op : InfixOp) (type : CType) (lhs rhs : CExpr)

namespace CExpr

def type : CExpr → CType
  | .atom _ t | .number _ t | .unary _ t _ | .lnot t _ | .binary _ t _ _ => t
  | .paren e => e.type

/-- An expression without the parentheses around it. -/
def core : CExpr → CExpr
  | .paren e => e.core
  | e => e

/-- Whether the value of an expression is a truth value already. -/
def yieldsBool (e : CExpr) : Bool :=
  match e.core with
  | .binary op _ _ _ => op.toBinary.yieldsBool
  | .lnot _ _ => true
  | e => e.type.isBool

/-- How tightly the outermost operator of an expression binds in the source language. -/
def level : CExpr → Nat
  | .atom _ _ | .number _ _ | .paren _ => 12
  | .unary _ _ _ | .lnot _ _ => 11
  | .binary op _ _ _ => op.sourceLevel

/-- **Whether an expression is parenthesised as the source language requires.** -/
def isGrammatical : CExpr → Bool
  | .atom _ _ | .number _ _ => true
  | .paren e => e.isGrammatical
  | .unary _ _ e | .lnot _ e => e.isGrammatical && 11 ≤ e.level
  | .binary op _ l r =>
    l.isGrammatical && r.isGrammatical && op.sourceLevel ≤ l.level && op.sourceLevel < r.level

/-! ## What is written -/

section Lowering

variable (wrap : RustExpr → RustExpr)

/-- The truth value of an expression, which is written as `t`: it is compared with its zero, unless
it is a truth value. -/
def tested (e : CExpr) (t : RustExpr) : RustExpr :=
  if e.yieldsBool then t
  else if e.type.isPointer || e.type.isArray then .binary (.comparison .ne) (wrap t) .null
  else if e.type.isFloating then .binary (.comparison .ne) (wrap t) (.operand "0.0")
  else if e.type.isInteger then .binary (.comparison .ne) (wrap t) (.operand "0")
  else t

/-- The negation of an expression, which is written as `t`. -/
def negated (e : CExpr) (t : RustExpr) : RustExpr :=
  if e.type.isPointer then .binary (.comparison .eq) (wrap t) .null
  else if e.yieldsBool then .unary .not (wrap t)
  else if e.type.isFloating then .binary (.comparison .eq) (wrap t) (.operand "0.0")
  else .binary (.comparison .eq) (wrap t) (.operand "0")

/-- What an expression is written as, where operands are put in parentheses by `wrap`. -/
def loweredBy : CExpr → RustExpr
  | .atom t _ | .number t _ => .operand t
  | .paren e => .paren e.loweredBy
  | .unary op _ e => .unary op e.loweredBy
  | .lnot _ e => e.negated wrap e.loweredBy
  | .binary (.arithmetic op) _ l r => .binary (.arithmetic op) l.loweredBy r.loweredBy
  | .binary (.comparison op) _ l r =>
    .binary (.comparison op) (.comparand r.type l.loweredBy) (.comparand l.type r.loweredBy)
  | .binary (.logical op) _ l r =>
    .binary (.logical op) (l.tested wrap l.loweredBy) (r.tested wrap r.loweredBy)

end Lowering

/-- **What an expression is written as.** -/
abbrev lower (e : CExpr) : RustExpr :=
  e.loweredBy .group

/-- **What is applied to what in the target**: a logical negation is a comparison with zero or the
negation of a truth value, a number or pointer under a logical operator is compared with zero, and
every other operator stays with its operands. -/
def replaced : CExpr → RustExpr
  | .atom t _ | .number t _ => .operand t
  | .paren e => e.replaced
  | .unary op _ e => .unary op e.replaced
  | .lnot _ e => e.negated id e.replaced
  | .binary (.arithmetic op) _ l r => .binary (.arithmetic op) l.replaced r.replaced
  | .binary (.comparison op) _ l r =>
    .binary (.comparison op) (.comparand r.type l.replaced) (.comparand l.type r.replaced)
  | .binary (.logical op) _ l r =>
    .binary (.logical op) (l.tested id l.replaced) (r.tested id r.replaced)

end CExpr

/-! ## Up to parentheses -/

namespace RustExpr

theorem bare_group (e : RustExpr) : e.group.bare = e.bare := by
  cases e with
  | operand t =>
    rw [group]
    split <;> rfl
  | _ => rfl

theorem bare_eq_operand_iff {e : RustExpr} {t : String} :
    e.bare = .operand t ↔ e.core = .operand t := by
  induction e with
  | operand s => rfl
  | paren e ih => exact ih
  | unary op e ih => simp [bare, core]
  | binary op l r ihl ihr => simp [bare, core]

theorem core_bare (e : RustExpr) : e.bare.core = e.bare := by
  induction e with
  | paren e ih => exact ih
  | _ => rfl

theorem bare_comparand (expected : CType) (e : RustExpr) :
    (comparand expected e).bare = comparand expected e.bare := by
  have same : (e.bare.core = .operand "0") ↔ (e.core = .operand "0") := by
    rw [core_bare, bare_eq_operand_iff]
  simp only [comparand, same]
  split <;> rfl

end RustExpr

namespace CExpr

section Wrapping

variable {wrap : RustExpr → RustExpr} (wraps : ∀ t, (wrap t).bare = t.bare)

include wraps

theorem bare_tested (e : CExpr) (t : RustExpr) :
    (e.tested wrap t).bare = e.tested id t.bare := by
  simp only [tested]
  repeat' split
  all_goals simp [bare, wraps, null]

theorem bare_negated (e : CExpr) (t : RustExpr) :
    (e.negated wrap t).bare = e.negated id t.bare := by
  simp only [negated]
  repeat' split
  all_goals simp [bare, wraps, null]

/-- **What is written is, up to parentheses, what was meant.** -/
theorem bare_loweredBy (e : CExpr) : (e.loweredBy wrap).bare = e.replaced := by
  induction e with
  | atom t type => rfl
  | number t type => rfl
  | paren e ih => exact ih
  | unary op type e ih => rw [loweredBy, replaced, bare, ih]
  | lnot type e ih => rw [loweredBy, replaced, bare_negated wraps, ih]
  | binary op type l r ihl ihr =>
    cases op with
    | arithmetic op => rw [loweredBy, replaced, bare, ihl, ihr]
    | comparison op =>
      rw [loweredBy, replaced, bare, bare_comparand, bare_comparand, ihl, ihr]
    | logical op =>
      rw [loweredBy, replaced, bare, bare_tested wraps, bare_tested wraps, ihl, ihr]

end Wrapping

/-! ## Enough parentheses -/

/-- **Whether an expression is written as a comparison without parentheses**: as a comparison, or as
a logical negation that becomes one. -/
def isCompared : CExpr → Bool
  | .binary op _ _ _ => op.isComparison
  | .lnot _ e => e.type.isPointer || !e.yieldsBool
  | _ => false

/-- **No comparison is written where the target would take it apart**: none stands without
parentheses under an operator other than a logical one. -/
def unclashing : CExpr → Bool
  | .atom _ _ | .number _ _ => true
  | .paren e | .lnot _ e => e.unclashing
  | .unary _ _ e => e.unclashing && !e.isCompared
  | .binary (.logical _) _ l r => l.unclashing && r.unclashing
  | .binary _ _ l r => l.unclashing && r.unclashing && !l.isCompared && !r.isCompared

end CExpr

namespace RustExpr

theorem level_group (e : RustExpr) : e.group.level = 11 := by
  cases e with
  | operand t =>
    rw [group]
    split <;> rfl
  | _ => rfl

theorem isComparison_group (e : RustExpr) : e.group.isComparison = false := by
  cases e with
  | operand t =>
    rw [group]
    split <;> rfl
  | _ => rfl

theorem isTight_group (e : RustExpr) : e.group.isTight = e.isTight := by
  cases e with
  | operand t =>
    rw [group]
    split <;> rfl
  | _ => rfl

theorem isTight_comparison (op : Comparison) (e : RustExpr) (t : String) :
    (binary (.comparison op) e.group (.operand t)).isTight = e.isTight := by
  have zero : (operand t).isTight = true := rfl
  have right : (operand t).level = 11 := rfl
  have between : (comparison op).level = 3 := rfl
  simp [isTight.eq_4, isTight_group, level_group, isComparison_group, zero, right, between]

theorem isTight_of_core_eq {e : RustExpr} {t : String} (h : e.core = .operand t) :
    e.isTight = true ∧ e.level = 11 ∧ e.isComparison = false := by
  induction e with
  | operand s => exact ⟨rfl, rfl, rfl⟩
  | paren e ih => exact ⟨(ih h).1, rfl, rfl⟩
  | unary op e ih => simp [core] at h
  | binary op l r ihl ihr => simp [core] at h

/-- The null pointer in the place of a zero changes nothing for the operators around it. -/
theorem comparand_eq (expected : CType) (e : RustExpr) :
    (comparand expected e).isTight = e.isTight ∧ (comparand expected e).level = e.level ∧
      (comparand expected e).isComparison = e.isComparison := by
  rw [comparand]
  split
  · rename_i zero
    have core : e.core = .operand "0" := of_decide_eq_true (Bool.and_eq_true_iff.1 zero).2
    obtain ⟨tight, level, comparison⟩ := isTight_of_core_eq core
    rw [tight, level, comparison]
    exact ⟨rfl, rfl, rfl⟩
  · exact ⟨rfl, rfl, rfl⟩

end RustExpr

namespace CExpr

theorem isTight_tested (e : CExpr) (t : RustExpr) :
    (e.tested .group t).isTight = t.isTight := by
  rw [tested]
  split
  · rfl
  · split
    · exact isTight_comparison .ne t _
    · split
      · exact isTight_comparison .ne t _
      · split
        · exact isTight_comparison .ne t _
        · rfl

theorem isTight_negated (e : CExpr) (t : RustExpr) :
    (e.negated .group t).isTight = t.isTight := by
  rw [negated]
  split
  · exact isTight_comparison .eq t _
  · split
    · simp [isTight, isTight_group, level_group]
    · split <;> exact isTight_comparison .eq t _

variable {e : CExpr}

/-- The levels of the source, except those of the comparisons. -/
def plainLevels : List Nat :=
  [12, 11, 10, 9, 8, 5, 4, 3, 2, 1]

def targetLevel (n : Nat) : Nat :=
  if n ∈ [5, 4, 3] then n + 1 else if n ≤ 2 then n else n - 1

/-- Except for the comparisons, the operators bind in the same order in both languages. -/
theorem targetLevel_le_iff :
    ∀ m ∈ plainLevels, ∀ n ∈ plainLevels, (targetLevel m ≤ targetLevel n ↔ m ≤ n) := by
  decide

theorem targetLevel_sourceLevel (op : InfixOp) (h : op.isComparison = false) :
    op.sourceLevel ∈ plainLevels ∧ targetLevel op.sourceLevel = op.level := by
  rcases op with op | op | op
  · cases op <;> decide
  · cases op <;> cases h
  · cases op <;> decide

/-- An expression that is written as a comparison binds like one. -/
theorem lower_of_isCompared (h : e.isCompared = true) :
    e.lower.level = 3 ∧ e.lower.isComparison = true := by
  cases e with
  | atom | number | paren | unary => cases h
  | lnot type e =>
    rw [lower, loweredBy, negated]
    split
    · exact ⟨rfl, rfl⟩
    · rename_i pointer
      rw [isCompared, Bool.or_eq_true, or_iff_right pointer] at h
      rw [if_neg (by simpa using h)]
      split <;> exact ⟨rfl, rfl⟩
  | binary op type l r =>
    cases op with
    | arithmetic | logical => cases h
    | comparison op => exact ⟨rfl, rfl⟩

/-- Every other expression binds as in the source. -/
theorem lower_of_not_isCompared (h : e.isCompared = false) :
    e.level ∈ plainLevels ∧ e.lower.level = targetLevel e.level ∧
      e.lower.isComparison = false := by
  cases e with
  | atom | number | paren | unary => exact ⟨by simp [level, plainLevels], rfl, rfl⟩
  | lnot type e =>
    rw [isCompared, Bool.or_eq_false_iff, Bool.not_eq_false'] at h
    have shape : (lnot type e).lower = .unary .not e.lower.group := by
      rw [lower, loweredBy, negated, if_neg (by simp [h.1]), if_pos h.2]
    rw [shape]
    exact ⟨by simp [level, plainLevels], rfl, rfl⟩
  | binary op type l r =>
    cases op with
    | arithmetic op =>
      cases op <;> exact ⟨by simp [level, sourceLevel, plainLevels], rfl, rfl⟩
    | comparison op => cases h
    | logical op =>
      cases op <;> exact ⟨by simp [level, sourceLevel, plainLevels], rfl, rfl⟩

/-- An operand that is tight enough in the source is so in the target, unless it is a comparison. -/
theorem targetLevel_le_lower {n : Nat} (hn : n ∈ plainLevels) (h : e.isCompared = false) :
    (n ≤ e.level → targetLevel n ≤ e.lower.level) ∧
      (n < e.level → targetLevel n < e.lower.level) := by
  obtain ⟨mem, same, -⟩ := lower_of_not_isCompared h
  have le := targetLevel_le_iff n hn e.level mem
  have ge := targetLevel_le_iff e.level mem n hn
  rw [same]
  omega

section Operands

variable {e : CExpr}

/-- A comparison is too loose an operand for an arithmetic operator, and nothing else is. -/
theorem arithmetic_le_lower (op : Arithmetic) :
    ((arithmetic op).sourceLevel ≤ e.level →
      decide ((arithmetic op).level ≤ e.lower.level) = !e.isCompared) ∧
    ((arithmetic op).sourceLevel < e.level →
      decide ((arithmetic op).level < e.lower.level) = !e.isCompared) := by
  obtain ⟨mem, target⟩ := targetLevel_sourceLevel (.arithmetic op) rfl
  have tight : 3 < (arithmetic op).level := by cases op <;> decide
  cases h : e.isCompared with
  | true =>
    rw [(lower_of_isCompared h).1]
    exact ⟨fun _ => decide_eq_false (Nat.not_le.2 tight),
      fun _ => decide_eq_false (Nat.not_lt.2 (Nat.le_of_lt tight))⟩
  | false =>
    have above := targetLevel_le_lower mem h
    rw [target] at above
    exact ⟨fun le => decide_eq_true (above.1 le), fun lt => decide_eq_true (above.2 lt)⟩

/-- A comparison is no operand of another one, and what binds more tightly is. -/
theorem comparison_lt_lower (grammatical : 6 ≤ e.level) :
    decide (3 < e.lower.level) = !e.isCompared ∧
      (decide (3 ≤ e.lower.level) && !e.lower.isComparison) = !e.isCompared := by
  cases h : e.isCompared with
  | true =>
    obtain ⟨level, comparison⟩ := lower_of_isCompared h
    simp [level, comparison]
  | false =>
    obtain ⟨mem, level, comparison⟩ := lower_of_not_isCompared h
    have tight : ∀ n ∈ plainLevels, 6 ≤ n → 3 < targetLevel n := by decide
    have above := tight e.level mem grammatical
    rw [← level] at above
    simp [above, Nat.le_of_lt above, comparison]

/-- A sign takes everything that it takes in the source, except comparisons. -/
theorem sign_le_lower (grammatical : 11 ≤ e.level) :
    decide (10 ≤ e.lower.level) = !e.isCompared := by
  cases h : e.isCompared with
  | true => rw [(lower_of_isCompared h).1]; rfl
  | false =>
    have mem : 11 ∈ plainLevels := by decide
    exact decide_eq_true ((targetLevel_le_lower mem h).1 grammatical)

/-- A logical operator takes everything that it takes in the source. -/
theorem logical_le_tested (op : Connective) :
    ((logical op).sourceLevel ≤ e.level →
      (logical op).level ≤ (e.tested .group e.lower).level) ∧
    ((logical op).sourceLevel < e.level →
      (logical op).level < (e.tested .group e.lower).level) := by
  have loose : (logical op).level < 3 := by cases op <;> decide
  have shape : (e.tested .group e.lower).level = 3 ∨ e.tested .group e.lower = e.lower := by
    rw [tested]
    split
    · exact .inr rfl
    · split
      · exact .inl rfl
      · split
        · exact .inl rfl
        · split
          · exact .inl rfl
          · exact .inr rfl
  rcases shape with level | same
  · rw [level]
    exact ⟨fun _ => Nat.le_of_lt loose, fun _ => loose⟩
  · rw [same]
    cases h : e.isCompared with
    | true =>
      rw [(lower_of_isCompared h).1]
      exact ⟨fun _ => Nat.le_of_lt loose, fun _ => loose⟩
    | false =>
      obtain ⟨mem, target⟩ := targetLevel_sourceLevel (.logical op) rfl
      rw [← target]
      exact targetLevel_le_lower mem h

end Operands

/-- **Which expressions are written with enough parentheses**: of those that are parenthesised as
the source requires, the ones in which no comparison clashes with the operator above it. -/
theorem isTight_lower_eq (grammatical : e.isGrammatical = true) :
    e.lower.isTight = e.unclashing := by
  induction e with
  | atom t type => rfl
  | number t type => rfl
  | paren e ih => exact ih grammatical
  | unary op type e ih =>
    obtain ⟨inner, tight⟩ := Bool.and_eq_true_iff.1 grammatical
    rw [lower, loweredBy, isTight, unclashing, ih inner, sign_le_lower (of_decide_eq_true tight)]
  | lnot type e ih =>
    obtain ⟨inner, -⟩ := Bool.and_eq_true_iff.1 grammatical
    rw [lower, loweredBy, isTight_negated, unclashing, ih inner]
  | binary op type l r ihl ihr =>
    simp only [isGrammatical, Bool.and_eq_true, decide_eq_true_eq] at grammatical
    obtain ⟨⟨⟨left, right⟩, tight⟩, tighter⟩ := grammatical
    have ihl := ihl left
    have ihr := ihr right
    cases op with
    | arithmetic op =>
      have plain : (arithmetic op).isComparison = false := rfl
      rw [lower, loweredBy, isTight, unclashing, ihl, ihr, (arithmetic_le_lower op).1 tight,
        (arithmetic_le_lower op).2 tighter, plain]
      · simp
      · intro op h
        cases h
    | comparison op =>
      -- a comparison on the left would not associate, one on the right is too loose
      have above : 6 ≤ (comparison op).sourceLevel := by cases op <;> decide
      have plain : (comparison op).isComparison = true := rfl
      have level : (comparison op).level = 3 := rfl
      obtain ⟨-, leftOnly⟩ := comparison_lt_lower (Nat.le_trans above tight)
      obtain ⟨rightOnly, -⟩ := comparison_lt_lower (Nat.le_trans above (Nat.le_of_lt tighter))
      obtain ⟨tightl, levell, comparisonl⟩ := comparand_eq r.type l.lower
      obtain ⟨tightr, levelr, -⟩ := comparand_eq l.type r.lower
      rw [lower, loweredBy, isTight, unclashing, tightl, tightr, levell, levelr, comparisonl, ihl,
        ihr, level, rightOnly, plain, ← leftOnly]
      · simp only [Bool.true_and, Bool.and_comm, Bool.and_left_comm]
      · intro op h
        cases h
    | logical op =>
      -- a test for zero is a comparison, for which logical operators are loose enough
      have plain : (logical op).isComparison = false := rfl
      have loosel := (logical_le_tested op).1 tight
      have looser := (logical_le_tested op).2 tighter
      rw [lower, loweredBy, isTight, unclashing, isTight_tested, isTight_tested, ihl, ihr, plain]
      simp [loosel, looser]

theorem fits_lower_eq (grammatical : e.isGrammatical = true) (wordy : e.lower.isWordy = true) :
    e.lower.fits = e.unclashing := by
  rw [fits_eq, isTight_lower_eq grammatical, wordy, Bool.and_true]

end CExpr

end Ferric
