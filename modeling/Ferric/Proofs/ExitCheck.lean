import Ferric.Proofs.Conditions
import Ferric.Proofs.Expression.LiteralEmission

/-!
# The check at the end of a loop

A loop that is tested after its body becomes an endless one, which ends with a check that leaves it:
the condition is negated.  It stands between parentheses, and the ones that it has already are taken
away before.

Which parentheses enclose a condition is found by counting characters, and quoted ones are counted
too.  Where the literals of a condition have matching brackets, the check negates the whole of it.
Otherwise two parentheses may be taken for a pair that are none, and then only a part is negated.

## Main definitions

* `Negates`: the check negates a condition as a whole.
* `CExpr.isPaired`: the parentheses of a condition are put and taken away in pairs.
* `CExpr.named`: an expression with names in the place of its literals.

## Main results

* `RustExpr.Tokenized.exists_negates_iff`: when the check negates the whole.
* `Negates.exists_denote`: the check is true just when the condition is false.
* `exit_check_negates_condition`: the check of a loop.
* `exit_check_negates_part`: a loop whose check negates a part of its condition.
-/

namespace Ferric

open Chars RustExpr

/-! ## Checks -/

/-- **A check negates a condition as a whole**: the parenthesis after the exclamation mark is closed
by the one before the brace, and what stands between them is read as `t`, which is the condition up
to parentheses, with names in the place of literals. -/
structure Negates (ν : Naming) (inside : String) (condition t : RustExpr) : Prop where
  closed : untilClosed 0 .none (inside ++ ") \x7b\n    break;\n\x7d").toList =
    some (inside.toList, " \x7b\n    break;\n\x7d".toList)
  read : RustExpr.read? (ν.text inside) = some t
  bare : t.bare = condition.named ν

/-- **When the check negates the whole**: the condition has enough parentheses, and what is left of
it does not start and end with two parentheses that count as a pair and are none. -/
theorem RustExpr.Tokenized.exists_negates_iff {c : RustExpr} (h : c.Tokenized) (ν : Naming) :
    (∃ t, Negates ν (Fragment.ungrouped c.text) c.bare t) ↔
      c.isTight = true ∧ isWrapped c.stripped.text.toList = false := by
  have chars : (Fragment.ungrouped c.text ++ ") \x7b\n    break;\n\x7d").toList =
      ungrouped c.text.toList ++ ')' :: " \x7b\n    break;\n\x7d".toList := by
    rw [String.toList_append, Fragment.ungrouped, Text.toList_onChars]
    rfl
  have inside : (Fragment.ungrouped c.text).toList = ungrouped c.text.toList := by
    rw [Fragment.ungrouped, Text.toList_onChars]
  -- the pairs decide where the check ends, and then what is between is what was left of the text
  have closed := h.untilClosed_ungrouped_iff " \x7b\n    break;\n\x7d".toList
  have read := h.stripped.read?_text_iff ν
  rw [bare_stripped, isTight_stripped] at read
  constructor
  · rintro ⟨t, negates⟩
    have unwrapped := closed.1 (chars ▸ inside ▸ negates.closed)
    have text := negates.read
    rw [h.ungrouped_text unwrapped] at text
    exact ⟨read.1 ⟨t, text, negates.bare⟩, unwrapped⟩
  · rintro ⟨tight, unwrapped⟩
    obtain ⟨t, text, bare⟩ := read.2 tight
    refine ⟨t, ?_, ?_, bare⟩
    · rw [chars, inside]
      exact closed.2 unwrapped
    · rw [h.ungrouped_text unwrapped]
      exact text

/-- **The parentheses of a condition are put and taken away in pairs.** -/
def CExpr.isPaired (e : CExpr) : Bool :=
  e.condition.isTight && !isWrapped e.condition.stripped.text.toList

/-! ## Names in the place of literals -/

namespace Naming

variable (ν : Naming)

/-- The name of a literal does not start like a number. -/
theorem head?_word {t : String} (h : t.toList.head?.any Char.isDigit = false) :
    (ν.word t).toList.head?.any Char.isDigit = false := by
  rw [word]
  split
  · rw [String.toList_ofList]
    exact head?_of_isIdentifier (ν.isIdentifier t.toList)
  · exact h

theorem word_eq_zero_iff {t : String} : ν.word t = "0" ↔ t = "0" := by
  rw [word]
  split
  · rename_i literal
    refine iff_of_false (fun zero => ?_) (fun zero => ?_)
    · have name := ν.isIdentifier t.toList
      have same : ν.name t.toList = ['0'] := by
        rw [← String.toList_ofList (l := ν.name t.toList), zero]
        rfl
      rw [same] at name
      cases name
    · rw [zero] at literal
      cases literal
  · rfl

end Naming

namespace RustExpr

variable (ν : Naming)

theorem core_named (e : RustExpr) : (e.named ν).core = e.core.named ν := by
  induction e with
  | paren e ih => exact ih
  | _ => rfl

theorem named_eq_zero_iff {e : RustExpr} : e.named ν = .operand "0" ↔ e = .operand "0" := by
  cases e with
  | operand t => simp [named, ν.word_eq_zero_iff]
  | _ => simp [named]

/-- A zero is still one, and nothing else becomes one. -/
theorem named_comparand (expected : CType) (e : RustExpr) :
    (comparand expected e).named ν = comparand expected (e.named ν) := by
  have null : null.named ν = .null := rfl
  have zero : (e.named ν).core = .operand "0" ↔ e.core = .operand "0" := by
    rw [core_named, named_eq_zero_iff]
  simp only [comparand, zero]
  split
  · exact null
  · rfl

/-- Parentheses do not matter for the value. -/
theorem denote_bare {V : Type} (I : Valuation V) (names : String → Option String) (e : RustExpr) :
    e.bare.denote I names = e.denote I names := by
  induction e with
  | operand t => rfl
  | paren e ih => exact ih
  | unary op e ih => rw [bare, denote, denote, ih]
  | binary op l r ihl ihr => rw [bare, denote, denote, ihl, ihr]

end RustExpr

namespace CExpr

variable (ν : Naming)

/-- **An expression with names in the place of its literals.** -/
def named : CExpr → CExpr
  | .atom t type => .atom (ν.word t) type
  | .number t type => .number (ν.word t) type
  | .paren e => .paren e.named
  | .unary op type e => .unary op type e.named
  | .lnot type e => .lnot type e.named
  | .binary op type l r => .binary op type l.named r.named

variable (e : CExpr)

theorem type_named : (e.named ν).type = e.type := by
  induction e with
  | paren e ih => exact ih
  | _ => rfl

theorem yieldsBool_named : (e.named ν).yieldsBool = e.yieldsBool := by
  induction e with
  | paren e ih => exact ih
  | _ => rfl

theorem named_tested (t : RustExpr) :
    (e.tested id t).named ν = (e.named ν).tested id (t.named ν) := by
  rw [tested, tested, type_named, yieldsBool_named]
  repeat' split
  all_goals rfl

theorem named_negated (t : RustExpr) :
    (e.negated id t).named ν = (e.named ν).negated id (t.named ν) := by
  rw [negated, negated, type_named, yieldsBool_named]
  repeat' split
  all_goals rfl

/-- **Names may be put in the place of literals before or after.** -/
theorem named_replaced : e.replaced.named ν = (e.named ν).replaced := by
  induction e with
  | atom t type => rfl
  | number t type => rfl
  | paren e ih => exact ih
  | unary op type e ih => rw [replaced, RustExpr.named, ih, named, replaced]
  | lnot type e ih => rw [replaced, named_negated, ih, named, replaced]
  | binary op type l r ihl ihr =>
    cases op with
    | arithmetic op => rw [replaced, RustExpr.named, ihl, ihr, named, replaced]
    | comparison op =>
      rw [replaced, RustExpr.named, RustExpr.named_comparand, RustExpr.named_comparand, ihl, ihr,
        named, replaced, type_named, type_named]
    | logical op =>
      rw [replaced, RustExpr.named, named_tested, named_tested, ihl, ihr, named, replaced]

theorem Apart.named {e : CExpr} (h : e.Apart) (ν : Naming) : (e.named ν).Apart := by
  induction e with
  | atom t type => exact ν.head?_word h
  | number t type => exact h
  | paren e ih => exact ih h
  | unary op type e ih => exact ih h
  | lnot type e ih => exact ih h
  | binary op type l r ihl ihr => exact ⟨ihl h.1, ihr h.2⟩

end CExpr

/-! ## Truth values -/

/-- **A check that negates the whole condition is true just when the condition is false.** -/
theorem Negates.exists_denote {ν : Naming} {inside : String} {e : CExpr} {t : RustExpr}
    (h : Negates ν inside (e.tested id e.replaced) t) {reg : Registry}
    (typed : (e.named ν).IsCondition reg) {names : String → Option String}
    (declared : (e.named ν).TypedIn reg names) (fresh : names Fragment.nullPointer = none)
    {V : Type} (I : Valuation V) :
    ∃ v, (unary .not (.paren t)).denote I names = some (.bool, v) ∧
      I.isTrue v = !((e.named ν).meaning I).2 := by
  obtain ⟨v, denotes, truth⟩ := typed.exists_denote_tested I declared fresh
  -- what is read differs from what is meant by parentheses only
  have same : t.bare = ((e.named ν).tested .group (e.named ν).lower).bare := by
    rw [h.bare, CExpr.named_tested, CExpr.named_replaced, CExpr.bare_tested bare_group,
      CExpr.bare_loweredBy bare_group]
  have value : (paren t).denote I names = some (.bool, v) := by
    rw [← denotes, ← denote_bare I names ((e.named ν).tested _ _), ← same,
      denote_bare, denote]
  refine ⟨I.ofBool (!I.isTrue v), ?_, ?_⟩
  · rw [denote, value]
    rfl
  · rw [I.isTrue_ofBool, truth]

/-! ## Loops -/

/-- **A loop that is tested after its body ends with a check**, which stands also where the body is
cut short. -/
theorem Node.emit_doStmt {reg : Registry} {ctx : Context} {loop body test : Node} {rest : List Node}
    (kind : loop.kind = .doStmt) (children : loop.children = body :: test :: rest) :
    let inside := Fragment.ungrouped (test.materialize (test.emitExpression reg ctx).value)
    let check := "if !(" ++ inside ++ ") \x7b\n    break;\n\x7d"
    (loop.emit reg ctx).value = "loop " ++ Fragment.block
      (((Draft.ofNode reg body).bodyStatements (ctx.inLoop (some check))).value ++ [check]) := by
  have condition : ((Draft.ofNode reg test).condition ctx).value =
      test.materialize (test.emitExpression reg ctx).value := by
    rw [Draft.condition, Logged.value_map, Draft.node_ofNode]
    rfl
  rw [Node.emit, Draft.text_ofNode, Draft.compose, kind, children]
  simp only [List.map_cons, Draft.doLoop, Logged.value_bind, Logged.value_pure, condition]
  rfl

/-- **The check of a loop negates its condition.**  Take a condition of comparisons, logical
operators, parentheses, variables and integer, character and string literals, parenthesised as the
source language requires.  The loop ends with a check.  The parenthesis that is opened after the
exclamation mark is closed by the one before the brace, and the condition stands between them, just
when its parentheses are put and taken away in pairs.  So it is if all literals have matching
brackets and no comparison clashes with another one.

The check is then true just when the condition is false in the source, if it is well-typed and each
operand has the type that it is converted to, whatever variables and literals stand for. -/
theorem exit_check_negates_condition {reg : Registry} {ctx : Context} {loop body test : Node}
    {rest : List Node} {e : CExpr} (kind : loop.kind = .doStmt)
    (children : loop.children = body :: test :: rest) (h : test.Tests e)
    (grammatical : e.isGrammatical = true) (ν : Naming) :
    let inside := Fragment.ungrouped (test.materialize (test.emitExpression reg ctx).value)
    let check := "if !(" ++ inside ++ ") \x7b\n    break;\n\x7d"
    (loop.emit reg ctx).value = "loop " ++ Fragment.block
        (((Draft.ofNode reg body).bodyStatements (ctx.inLoop (some check))).value ++ [check]) ∧
      ((∃ t, Negates ν inside (e.tested id e.replaced) t) ↔ e.isPaired = true) ∧
      (e.Each Nested → e.unclashing = true → e.isPaired = true) ∧
      ∀ t, Negates ν inside (e.tested id e.replaced) t → (e.named ν).IsCondition reg →
        ∀ names : String → Option String,
          (∀ a ∈ (e.named ν).atoms, names a.1 = some (reg.renderType a.2)) →
          names Fragment.nullPointer = none → ∀ (V : Type) (I : Valuation V),
            ∃ v, (RustExpr.unary .not (.paren t)).denote I names = some (.bool, v) ∧
              (I.isTrue v = true ↔ ((e.named ν).meaning I).2 = false) := by
  intro inside check
  refine ⟨Node.emit_doStmt kind children, ?_, fun balanced unclashing => ?_,
    fun t negates typed names declared fresh V I => ?_⟩
  · have whole := h.tokenized.condition.exists_negates_iff ν
    rw [CExpr.bare_condition, ← h.condition_eq reg ctx] at whole
    rw [whole, CExpr.isPaired, Bool.and_eq_true, Bool.not_eq_true']
  · obtain ⟨tight, unwrapped⟩ := h.tokenized.condition_spec balanced grammatical unclashing
    rw [CExpr.isPaired, tight, unwrapped]
    rfl
  · have types : (e.named ν).TypedIn reg names := fun a ha =>
      operandType?_of_name ((h.apart.named ν).numberType?_eq_none a ha) (declared a ha)
    obtain ⟨v, denotes, truth⟩ := negates.exists_denote typed types fresh I
    exact ⟨v, denotes, by rw [truth, Bool.not_eq_true']⟩

/-! ## Loops with literals -/

/-- A wrapper that may convert. -/
def wrapperNode (type : CType) (c : Node) : Node :=
  { kind := .unexposedExpr, type, children := [c] }

/-- Parentheses. -/
def parenNode (c : Node) : Node :=
  { kind := .parenExpr, type := c.type, children := [c] }

def characterNode (token : String) : Node :=
  { kind := .characterLiteral, type := .int true, tokens := [token] }

/-- A string, which has been converted to a pointer. -/
def textNode (spelling : String) : Node :=
  wrapperNode (.pointer (.char true))
    { kind := .stringLiteral, spelling, type := .array (.char true) (some 3) }

/-- A loop without statements. -/
def loopNode (test : Node) : Node :=
  { kind := .doStmt, children := [{ kind := .compoundStmt }, test] }

/-- Names for parentheses, other characters and strings. -/
def parenNaming : Naming where
  name literal :=
    if literal = "'('".toList then "open".toList
    else if literal = "')'".toList then "close".toList
    else if literal.head? = some '"' then "text".toList
    else "letter".toList
  isIdentifier literal := by
    repeat' split
    all_goals decide

/-- The condition `(c != 'x' && (s != "()" || !n))`. -/
def scanNode : Node :=
  let pointer := CType.pointer (.char true)
  let letter := wrapperNode (.int true) (wrapperNode (.char true) (variableNode "c" (.char true)))
  let negated : Node := { kind := .unaryOperator .lnot, type := .int true, children :=
    [wrapperNode (.int true) (variableNode "n" (.int true))] }
  parenNode (operatorNode (.logical .and) (.int true)
    (operatorNode (.comparison .ne) (.int true) letter (characterNode "'x'"))
    (parenNode (operatorNode (.logical .or) (.int true)
      (operatorNode (.comparison .ne) (.int true) (wrapperNode pointer (variableNode "s" pointer))
        (textNode "\"()\""))
      negated)))

/-- The condition as an expression. -/
def scanExpr : CExpr :=
  let pointer := CType.pointer (.char true)
  .paren (.binary (.logical .and) (.int true)
    (.binary (.comparison .ne) (.int true) (.atom "c" (.int true)) (.atom "'x'" (.int true)))
    (.paren (.binary (.logical .or) (.int true)
      (.binary (.comparison .ne) (.int true) (.atom "s" pointer) (.atom "\"()\"" pointer))
      (.lnot (.int true) (.atom "n" (.int true))))))

def scanNames (text : String) : Option String :=
  [("c", "i32"), ("letter", "i32"), ("s", "*mut i8"), ("text", "*mut i8"), ("n", "i32")].lookup text

/-- Values for which the condition is false. -/
def scanValues (text : String) : Int :=
  ([("c", 120), ("letter", 120), ("s", 1), ("text", 2), ("n", 3)].lookup text).getD 0

theorem tests_scanNode : scanNode.Tests scanExpr := by
  have letter : (characterNode "'x'").Tests (.atom "'x'" (.int true)) :=
    .character rfl ⟨[], by decide, "x'".toList, rfl, rfl⟩
  have text : (textNode "\"()\"").Tests (.atom "\"()\"" (.pointer (.char true))) :=
    .converted rfl rfl (.string rfl ⟨[], by decide, "()\"".toList, rfl, rfl⟩) rfl rfl nofun
  have converted : (wrapperNode (.int true)
      (wrapperNode (.char true) (variableNode "c" (.char true)))).Tests (.atom "c" (.int true)) :=
    .converted rfl rfl (.wrapper rfl rfl rfl (.reference rfl rfl (by decide))) rfl rfl nofun
  exact .paren rfl rfl rfl (.logical .and rfl rfl (.comparison .ne rfl rfl converted letter)
    (.paren rfl rfl rfl (.logical .or rfl rfl
      (.comparison .ne rfl rfl (.wrapper rfl rfl rfl (.reference rfl rfl (by decide))) text)
      (.lnot rfl rfl (.wrapper rfl rfl rfl (.reference rfl rfl (by decide)))))))

theorem isCondition_scanExpr : (scanExpr.named parenNaming).IsCondition {} :=
  .paren (.logical rfl (.comparison rfl (.atom rfl) (.atom rfl) rfl)
    (.paren (.logical rfl (.comparison rfl (.atom rfl) (.atom rfl) rfl)
      (.lnot rfl (.value (.atom rfl) rfl)))))

theorem exit_check_negates_condition_scan :
    scanNode.Tests scanExpr ∧ scanExpr.isGrammatical = true ∧ scanExpr.isPaired = true ∧
      (scanExpr.named parenNaming).IsCondition {} ∧
      ((loopNode scanNode).emit {} {}).value =
        "loop \x7b\n    if !(c != 'x' && (s != \"()\" || n == 0)) \x7b\n        break;\n" ++
          "    \x7d\n\x7d" ∧
      ((scanExpr.named parenNaming).meaning (.ofIntegers scanValues)).2 = false ∧
      ∃ t v, Negates parenNaming "c != 'x' && (s != \"()\" || n == 0)"
          (scanExpr.tested id scanExpr.replaced) t ∧
        (RustExpr.unary .not (.paren t)).denote (.ofIntegers scanValues) scanNames =
          some (.bool, v) ∧
        (Valuation.ofIntegers scanValues).isTrue v = true := by
  have tests := tests_scanNode
  have balanced : scanExpr.Each Nested := by
    have nested : ∀ t ∈ ["c", "'x'", "s", "\"()\"", "n"], Nested t.toList := by decide
    exact ⟨⟨nested _ (by decide), nested _ (by decide)⟩,
      ⟨nested _ (by decide), nested _ (by decide)⟩, nested _ (by decide)⟩
  have inside : Fragment.ungrouped
      (scanNode.materialize (scanNode.emitExpression {} {}).value) =
        "c != 'x' && (s != \"()\" || n == 0)" := by
    rw [tests.condition_eq {} {}, tests.tokenized.condition.ungrouped_text (by decide)]
    decide
  obtain ⟨text, whole, paired, leaves⟩ := @exit_check_negates_condition {} {}
    (loopNode scanNode) { kind := .compoundStmt } _ _ _ rfl rfl tests rfl parenNaming
  have paired := paired balanced rfl
  obtain ⟨t, negates⟩ := whole.2 paired
  obtain ⟨v, denotes, truth⟩ := leaves t negates isCondition_scanExpr scanNames (by decide) rfl Int
    (.ofIntegers scanValues)
  rw [inside] at text negates
  exact ⟨tests, rfl, paired, isCondition_scanExpr, text.trans (by decide), rfl, t, v, negates,
    denotes, truth.2 rfl⟩

/-! ## Quoted parentheses -/

/-- The condition `(c == '(') && (d == ')')`. -/
def bracketNode : Node :=
  operatorNode (.logical .and) (.int true)
    (parenNode (operatorNode (.comparison .eq) (.int true) (variableNode "c" (.int true))
      (characterNode "'('")))
    (parenNode (operatorNode (.comparison .eq) (.int true) (variableNode "d" (.int true))
      (characterNode "')'")))

/-- The condition as an expression. -/
def bracketExpr : CExpr :=
  .binary (.logical .and) (.int true)
    (.paren (.binary (.comparison .eq) (.int true) (.atom "c" (.int true))
      (.atom "'('" (.int true))))
    (.paren (.binary (.comparison .eq) (.int true) (.atom "d" (.int true))
      (.atom "')'" (.int true))))

def bracketNames (text : String) : Option String :=
  [("c", "i32"), ("open", "i32"), ("d", "i32"), ("close", "i32")].lookup text

/-- Values for which the condition is false. -/
def bracketValues (text : String) : Int :=
  ([("c", 0), ("open", 40), ("d", 0), ("close", 41)].lookup text).getD 0

theorem tests_bracketNode : bracketNode.Tests bracketExpr := by
  have opening : (characterNode "'('").Tests (.atom "'('" (.int true)) :=
    .character rfl ⟨[], by decide, "('".toList, rfl, rfl⟩
  have closing : (characterNode "')'").Tests (.atom "')'" (.int true)) :=
    .character rfl ⟨[], by decide, ")'".toList, rfl, rfl⟩
  exact .logical .and rfl rfl
    (.paren rfl rfl rfl (.comparison .eq rfl rfl (.reference rfl rfl (by decide)) opening))
    (.paren rfl rfl rfl (.comparison .eq rfl rfl (.reference rfl rfl (by decide)) closing))

/-- **The check of a loop may negate a part of its condition**: the first and the last parenthesis
are taken away as a pair, because the quoted ones count.  The parenthesis after the exclamation mark
is then closed by the one after the first comparison.  If neither comparison holds, the condition is
false, and still the loop is not left. -/
theorem exit_check_negates_part :
    bracketNode.Tests bracketExpr ∧ bracketExpr.isGrammatical = true ∧
      (bracketExpr.named parenNaming).IsCondition {} ∧ bracketExpr.isPaired = false ∧
      ((loopNode bracketNode).emit {} {}).value =
        "loop \x7b\n    if !(c == '(') && (d == ')') \x7b\n        break;\n    \x7d\n\x7d" ∧
      untilClosed 0 .none "c == '(') && (d == ')') \x7b\n    break;\n\x7d".toList =
        some ("c == '('".toList, " && (d == ')') \x7b\n    break;\n\x7d".toList) ∧
      ((bracketExpr.named parenNaming).meaning (.ofIntegers bracketValues)).2 = false ∧
      ∃ t v, RustExpr.read? (parenNaming.text "!(c == '(') && (d == ')')") = some t ∧
        t.denote (.ofIntegers bracketValues) bracketNames = some (.bool, v) ∧
        (Valuation.ofIntegers bracketValues).isTrue v = false := by
  have tests := tests_bracketNode
  have typed : (bracketExpr.named parenNaming).IsCondition {} :=
    .logical rfl (.paren (.comparison rfl (.atom rfl) (.atom rfl) rfl))
      (.paren (.comparison rfl (.atom rfl) (.atom rfl) rfl))
  have inside : Fragment.ungrouped
      (bracketNode.materialize (bracketNode.emitExpression {} {}).value) =
        "c == '(') && (d == ')'" := by
    have written : bracketExpr.condition.text = "(c == '(') && (d == ')')" := by decide
    rw [tests.condition_eq {} {}, written, Fragment.ungrouped, Text.onChars, ungrouped,
      ungroupedFrom, dif_pos (by decide), ungroupedFrom, dif_neg (by decide)]
    decide
  have text := @Node.emit_doStmt {} {} (loopNode bracketNode) { kind := .compoundStmt } _ _ rfl rfl
  rw [inside] at text
  refine ⟨tests, rfl, typed, by decide, text.trans (by decide), by decide, rfl, ?_⟩
  -- what is read negates the first comparison only
  let compared (name literal : String) : RustExpr :=
    .paren (.binary (.comparison .eq) (.operand name) (.operand literal))
  exact ⟨.binary (.logical .and) (.unary .not (compared "c" "open")) (compared "d" "close"), 0,
    by decide, rfl, rfl⟩

end Ferric
