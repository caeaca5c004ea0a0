import Ferric.Proofs.Flow.Statement

/-!
# Reading statements back

The text of a statement is read back as its lowered statements, in every context and setting that
say the same.

## Main definitions

* `Fits`: a context and a setting that say the same.

## Main results

* `emits_lower`: the statements of a node are read as its lowered statements.
* `read?_emitStatements`: so is the text of a function body.
-/

namespace Ferric

open Chars Draft Node Logged Code

/-- **A context and a setting that say the same.** -/
structure Fits {α : Type} (ctx : Context) (s : Setting α) : Prop where
  phase : ctx.phase = .functions
  result : ctx.result = s.result
  depth : ctx.switchDepth = s.depth
  label : ctx.breakLabel = s.label?
  isLabel : ∀ label ∈ s.label?, IsLabel label
  noStep : ctx.loopStep = none → s.step = []
  step : ∀ text ∈ ctx.loopStep, Emits [text] s.step.texts

namespace Fits

variable {α : Type} {ctx : Context} {s : Setting α} (h : Fits ctx s)

include h

theorem inLoop_nil : Fits (ctx.inLoop none) (s.inLoop []) where
  phase := h.phase
  result := h.result
  depth := h.depth
  label := rfl
  isLabel := by simp [Setting.inLoop]
  noStep _ := rfl
  step := by simp [Context.inLoop]

theorem inLoop_step {text : String} {step : Code α} (ht : Emits [text] step.texts) :
    Fits (ctx.inLoop (some text)) (s.inLoop step) where
  phase := h.phase
  result := h.result
  depth := h.depth
  label := rfl
  isLabel := by simp [Setting.inLoop]
  noStep := by simp [Context.inLoop]
  step := by simpa [Context.inLoop, Setting.inLoop] using ht

theorem inLoop_texts {texts : List String} {step : Code α} (ht : Emits texts step.texts) :
    Fits (ctx.inLoop (if texts.isEmpty then none else some (Text.stacked texts)))
      (s.inLoop step) := by
  split
  · rename_i empty
    obtain rfl : texts = [] := by simpa using empty
    obtain rfl : step = [] := texts_eq_nil.1 ht.eq_nil
    exact h.inLoop_nil
  · rename_i nonempty
    exact h.inLoop_step (ht.stacked (by simpa using nonempty))

theorem suffix_eq : ctx.switchSuffix = s.suffix := by
  rw [Context.switchSuffix, Setting.suffix, h.depth]

theorem inSwitch {label? : Option String} (hl : ∀ label ∈ label?, IsLabel label) :
    Fits (ctx.inSwitch label?) (s.inSwitch label?) where
  phase := h.phase
  result := h.result
  depth := by rw [Context.inSwitch, Setting.inSwitch, h.depth]
  label := rfl
  isLabel := hl
  noStep := h.noStep
  step := h.step

end Fits

theorem Setting.isWordChar_suffix {α : Type} (s : Setting α) :
    ∀ c ∈ s.suffix.toList, isWordChar c = true := by
  intro c hc
  rw [Setting.suffix] at hc
  split at hc
  · simp at hc
  · exact isWordChar_of_mem_toString hc

theorem Setting.isLabel_labelName {α : Type} (s : Setting α) : IsLabel s.labelName where
  quoted := by simp [Setting.labelName]
  word c hc := by
    rw [Setting.labelName, String.toList_append, List.mem_append] at hc
    rcases hc with hc | hc
    · have name : ∀ c ∈ "'switch".toList, c = '\'' ∨ isWordChar c = true := by decide
      exact name c hc
    · exact .inr (s.isWordChar_suffix c hc)

theorem Setting.isWordChar_valueName {α : Type} (s : Setting α) :
    ∀ c ∈ s.valueName.toList, isWordChar c = true := by
  intro c hc
  rw [Setting.valueName, String.toList_append, List.mem_append] at hc
  rcases hc with hc | hc
  · have name : ∀ c ∈ "switch_value".toList, isWordChar c = true := by decide
    exact name c hc
  · exact s.isWordChar_suffix c hc

/-! ## One statement -/

/-- **What is read of a node**: its statements, its statements as a body, and its text where it may
stand after an `else`. -/
structure ReadsAs {α : Type} (reg : Registry) (n : Node) (ctx : Context) (c : CStmt α)
    (code : Code α) : Prop where
  statements : Emits ((Draft.ofNode reg n).statements ctx).value code.texts
  body : Emits ((Draft.ofNode reg n).bodyStatements ctx).value (c.bodyOf code).texts
  branch : n.kind = .ifStmt → EmitsBranch ((Draft.ofNode reg n).text ctx).value code.texts

section Statements

variable {α : Type} {reg : Registry} {node : α → Node} {n : Node} {ctx : Context} {s : Setting α}
  {c : CStmt α} {code : Code α}

theorem CStmt.bodyOf_eq (hb : ∀ body, c ≠ .block body) : c.bodyOf code = code := by
  cases c with
  | block body => exact absurd rfl (hb body)
  | _ => rfl

theorem ReadsAs.of_statements (hc : n.kind ≠ .compoundStmt) (hi : n.kind ≠ .ifStmt)
    (hb : ∀ body, c ≠ .block body)
    (h : Emits ((ofNode reg n).statements ctx).value code.texts) :
    ReadsAs reg n ctx c code where
  statements := h
  body := by
    rw [CStmt.bodyOf_eq hb, bodyStatements, node_ofNode, if_neg hc]
    exact h
  branch kind := absurd kind hi

theorem statements_of_kind (h : n.kind ≠ .binaryOperator .comma) :
    ((ofNode reg n).statements ctx).value =
      asStatements (compose reg n (n.children.map (ofNode reg)) ctx).value := by
  rw [statements_eq, node_ofNode, if_neg h, value_map, text_ofNode]

/-- Most statements are written as what their parts are composed to. -/
theorem ReadsAs.of_compose
    (hk : n.kind ∉ [Kind.compoundStmt, .ifStmt, .binaryOperator .comma])
    (hb : ∀ body, c ≠ .block body)
    (h : Emits (asStatements (compose reg n (n.children.map (ofNode reg)) ctx).value) code.texts) :
    ReadsAs reg n ctx c code := by
  simp only [List.mem_cons, List.not_mem_nil, or_false, not_or] at hk
  rw [← statements_of_kind hk.2.2] at h
  exact .of_statements hk.1 hk.2.1 hb h

theorem readsAs_null (kind : n.kind = .nullStmt) :
    ReadsAs reg n ctx (.null : CStmt α) [] := by
  refine .of_compose (by simp [kind]) (by simp) ?_
  simp only [compose, kind]
  exact emits_nil

/-- Expressions with the operands of their commas. -/
theorem emits_operands {operands : List α} (h : n.IsSimple reg)
    (eq : operands.map node = n.operands) :
    Emits ((ofNode reg n).statements ctx).value (simpleCodes reg node operands).texts := by
  rw [statements_value h, ← eq, List.flatMap_map]
  refine emits_simpleCodes fun a ha => isSimple_of_mem_operands h ?_
  rw [← eq]
  exact List.mem_map_of_mem ha

theorem readsAs_simple {operands : List α} (h : n.IsSimple reg)
    (eq : operands.map node = n.operands) :
    ReadsAs reg n ctx (.simple operands) (simpleCodes reg node operands) := by
  have expression := (h n n.mem_walk_self).1
  refine .of_statements ?_ ?_ (by simp) (emits_operands h eq)
  · intro kind
    simp [kind, Kind.isExpression] at expression
  · intro kind
    simp [kind, Kind.isExpression] at expression

theorem emits_declarations {vars : List α} (hc : ctx.phase = .functions)
    (each : ∀ v ∈ vars, IsVariable reg node v) :
    Emits (vars.flatMap fun v =>
        asStatements ((ofNode reg (node v)).text ctx).value)
      (texts (vars.map (declareCode reg node))) := by
  induction vars with
  | nil => exact emits_nil
  | cons v vars ih =>
    have isVariable := each v (by simp)
    obtain ⟨isConst, isExtern, kind⟩ := isVariable.kind
    have rest := ih fun w hw => each w (by simp [hw])
    have first := emits_varDeclaration isVariable.init hc isVariable.name.1 isVariable.name.2
      isVariable.type
    have text : ((ofNode reg (node v)).text ctx).value =
        (varDeclaration reg (node v) ((node v).children.map (ofNode reg)) ctx).value := by
      simp only [text_ofNode, compose, kind]
    rw [← text] at first
    exact first.append rest

theorem readsAs_decl {vars : List α} (hc : ctx.phase = .functions)
    (kind : n.kind = .declStmt) (eq : vars.map node = n.children)
    (each : ∀ v ∈ vars, IsVariable reg node v) :
    ReadsAs reg n ctx (.decl vars) (vars.map (declareCode reg node)) := by
  refine .of_compose (by simp [kind]) (by simp) ?_
  have all := emits_declarations hc each
  simp only [compose, kind, declarations, value_bind, value_pure,
    value_flatMapList, value_map, ← eq, List.map_map, List.flatMap_map,
    Function.comp_apply]
  generalize (vars.flatMap fun v =>
    asStatements ((ofNode reg (node v)).text ctx).value) = texts at all ⊢
  by_cases hn : texts = []
  · subst hn
    rw [all.eq_nil]
    exact emits_nil
  · exact (all.stacked hn).asStatements

theorem emits_forms {ns : List Node} {body : List (CStmt α)} (forms : HasForms reg node ns body)
    (each : ∀ c ∈ body, ∀ n, HasForm reg node n c → ReadsAs reg n ctx c (c.lower reg node s)) :
    Emits (statementsOf (ns.map (ofNode reg)) ctx).value
      (CStmt.lowerAll reg node s body).texts := by
  induction body generalizing ns with
  | nil =>
    cases forms
    exact emits_nil
  | cons c cs ih =>
    cases forms with
    | cons form forms =>
      have first := (each c (by simp) _ form).statements
      have rest := ih forms fun d hd => each d (by simp [hd])
      rw [List.map_cons, statementsOf, CStmt.lowerAll, List.flatMap_cons, texts_append]
      exact first.append rest

theorem readsAs_block {body : List (CStmt α)} (kind : n.kind = .compoundStmt)
    (h : Emits (statementsOf (n.children.map (ofNode reg)) ctx).value code.texts) :
    ReadsAs reg n ctx (.block body) [.block none code] where
  statements := by
    rw [statements_of_kind (by simp [kind])]
    simp only [compose, kind, value_map]
    exact h.block.asStatements
  body := by
    rw [bodyStatements, node_ofNode, if_pos kind, parts_ofNode]
    exact h
  branch hk := by simp [kind] at hk

/-! ### Branches -/

variable {test : α} {body : Node}

theorem IsTested.flat (h : IsTested reg node test) : Flat ((node test).conditionText reg) :=
  (neat_conditionText h.simple).toFlat

theorem readsAs_branch (kind : n.kind = .ifStmt) (hb : ∀ body, c ≠ .block body)
    (h : EmitsBranch (ifStatement (n.children.map (ofNode reg)) ctx).value code.texts) :
    ReadsAs reg n ctx c code := by
  have text : ((ofNode reg n).text ctx).value =
      (ifStatement (n.children.map (ofNode reg)) ctx).value := by
    simp only [text_ofNode, compose, kind]
  have statements : Emits ((ofNode reg n).statements ctx).value code.texts := by
    rw [statements_eq, node_ofNode, if_neg (by simp [kind]), value_map, text]
    exact h.emits.asStatements
  refine ⟨statements, ?_, fun _ => by rw [text]; exact h⟩
  rw [CStmt.bodyOf_eq hb, bodyStatements, node_ofNode, if_neg (by simp [kind])]
  exact statements

theorem readsAs_ifThen {yes : Node} {cy : Code α} (kind : n.kind = .ifStmt)
    (children : n.children = [node test, yes]) (condition : IsTested reg node test)
    (hy : ReadsAs reg yes ctx c cy) :
    ReadsAs reg n ctx (.ifThen test c) [.branch (testLeaf reg node test) (c.bodyOf cy) []] := by
  refine readsAs_branch kind (by simp) ?_
  have flat := condition.flat
  have text : (ifStatement (n.children.map (ofNode reg)) ctx).value =
      branchText ((node test).conditionText reg) ((ofNode reg yes).bodyStatements ctx).value := by
    rw [← condition_value condition.simple ctx, children]
    rfl
  rw [text, texts_cons, map_text_branch, text_testLeaf, texts_nil]
  exact emitsBranch_single flat.nested flat.single condition.nonempty hy.body

theorem readsAs_ifElse {yes no : Node} {d : CStmt α} {cy cn : Code α} (kind : n.kind = .ifStmt)
    (children : n.children = [node test, yes, no]) (condition : IsTested reg node test)
    (hy : ReadsAs reg yes ctx c cy) (hn : ReadsAs reg no ctx d cn)
    (hd : no.kind = .ifStmt → ∀ body, d ≠ .block body) :
    ReadsAs reg n ctx (.ifElse test c d)
      [.branch (testLeaf reg node test) (c.bodyOf cy) (d.bodyOf cn)] := by
  refine readsAs_branch kind (by simp) ?_
  have flat := condition.flat
  have text : (ifStatement (n.children.map (ofNode reg)) ctx).value =
      branchText ((node test).conditionText reg) ((ofNode reg yes).bodyStatements ctx).value ++
        " else " ++ (if no.kind = .ifStmt then (ofNode reg no).text ctx
          else (ofNode reg no).branch ctx).value := by
    rw [← condition_value condition.simple ctx, children]
    simp only [List.map_cons, List.map_nil, ifStatement, node_ofNode]
    split <;> rfl
  rw [text, texts_cons, map_text_branch, text_testLeaf, texts_nil]
  split
  · rename_i chain
    rw [CStmt.bodyOf_eq (hd chain)]
    exact emitsBranch_elseIf flat.nested flat.single condition.nonempty hy.body (hn.branch chain)
  · exact emitsBranch_else flat.nested flat.single condition.nonempty hy.body hn.body

/-! ### Loops -/

theorem readsAs_while {code : Code α} (kind : n.kind = .whileStmt)
    (children : n.children = [node test, body]) (condition : IsTested reg node test)
    (h : ReadsAs reg body (ctx.inLoop none) c code) :
    ReadsAs reg n ctx (.whileLoop test c)
      [.whileLoop (testLeaf reg node test) (c.bodyOf code)] := by
  refine .of_compose (by simp [kind]) (by simp) ?_
  simp only [compose, kind, children, List.map_cons, whileLoop, branch,
    value_bind, value_map, value_pure,
    condition_value condition.simple]
  rw [texts_cons, map_text_while, text_testLeaf, texts_nil]
  exact (emits_while condition.flat condition.nonempty h.body).asStatements

theorem readsAs_do {body : Node} {test : α} {code : Code α} (kind : n.kind = .doStmt)
    (children : n.children = [body, node test]) (condition : IsTested reg node test)
    (h : ReadsAs reg body (ctx.inLoop (some (exitCheck ((node test).conditionText reg)))) c
      code) :
    ReadsAs reg n ctx (.doLoop c test) [.loop (c.bodyOf code ++ [exitCode reg node test])] := by
  refine .of_compose (by simp [kind]) (by simp) ?_
  have check := emits_exitCheck condition.flat
  simp only [compose, kind, children, List.map_cons, doLoop, value_bind,
    value_pure, condition_value condition.simple]
  rw [texts_cons, map_text_loop, texts_append, texts_nil, texts_cons,
    exitCode, map_text_branch]
  exact (emits_loop (h.body.append check)).asStatements

theorem ofHeader_eq {β : Type} {slots : β → Node} {tokens : List String}
    {init? test? step? : Option β}
    (h : ForHeader tokens ⟨init?.isSome, test?.isSome, step?.isSome⟩) :
    ForClauses.ofHeader slots tokens (init?.toList ++ test?.toList ++ step?.toList) =
      ⟨init?, test?, step?⟩ := by
  rw [ForClauses.ofHeader, h.ofTokens?_eq, Option.bind_some, assign?_toList]

theorem emits_init {init? : Option Node} (hc : ctx.phase = .functions)
    (h : HasInit reg node init? c) :
    Emits (clauseStatements (init?.map (ofNode reg)) ctx).value
      (c.lower reg node s).texts := by
  cases h with
  | none => exact emits_nil
  | simple simple eq => exact emits_operands simple eq
  | decl kind eq each => exact (readsAs_decl hc kind eq each).statements

theorem emits_step {step? : Option Node} {step : List α} (h : HasStep reg node step? step) :
    Emits (clauseStatements (step?.map (ofNode reg)) ctx).value
      (simpleCodes reg node step).texts := by
  cases h with
  | none => exact emits_nil
  | some simple eq => exact emits_operands simple eq

theorem emits_loopCode {test? : Option α} {texts : List String}
    (condition : ∀ test ∈ test?, IsTested reg node test) (h : Emits texts code.texts) :
    Emits [(loopHead ((test?.map node).map (ofNode reg)) ctx).value ++
        Fragment.block texts]
      (Code.texts [loopCode reg node test? code]) := by
  cases test? with
  | none => exact emits_loop h
  | some test =>
    have isCondition := condition test rfl
    have head : (loopHead (((some test).map node).map (ofNode reg)) ctx).value =
        "while " ++ (node test).conditionText reg ++ " " := by
      rw [← condition_value isCondition.simple ctx]
      rfl
    rw [head]
    exact emits_while isCondition.flat isCondition.nonempty h

/-- The text of a `for` whose header shows its clauses. -/
theorem forLoop_value {init? test? step? : Option Draft} {body : Draft}
    (h : ForHeader n.tokens ⟨init?.isSome, test?.isSome, step?.isSome⟩) :
    (forLoop n (init?.toList ++ test?.toList ++ step?.toList ++ [body]) ctx).value =
      let step := (clauseStatements step? ctx).value
      let step? := if step.isEmpty then none else some (Text.stacked step)
      Text.stacked ((clauseStatements init? ctx).value ++
        [(loopHead test? ctx).value ++
          Fragment.block ((body.bodyStatements (ctx.inLoop step?)).value ++ step)]) := by
  simp only [forLoop, List.getLast?_concat, List.dropLast_concat, ofHeader_eq h]
  rfl

theorem readsAs_for {init? step? : Option Node} {test? : Option α} {init : CStmt α} {step : List α}
    (fits : Fits ctx s) (kind : n.kind = .forStmt)
    (header : ForHeader n.tokens ⟨init?.isSome, test?.isSome, step?.isSome⟩)
    (children : n.children = init?.toList ++ (test?.map node).toList ++ step?.toList ++ [body])
    (hasInit : HasInit reg node init? init) (condition : ∀ test ∈ test?, IsTested reg node test)
    (hasStep : HasStep reg node step? step)
    (h : ∀ ctx, Fits ctx (s.inLoop (simpleCodes reg node step)) → ReadsAs reg body ctx c code) :
    ReadsAs reg n ctx (.forLoop init test? step c)
      (init.lower reg node s ++
        [loopCode reg node test? (c.bodyOf code ++ simpleCodes reg node step)]) := by
  refine .of_compose (by simp [kind]) (by simp) ?_
  have inits := @emits_init _ _ _ _ s _ _ fits.phase hasInit
  have steps := @emits_step _ _ _ ctx _ _ hasStep
  have bodies := (h _ (fits.inLoop_texts steps)).body.append steps
  rw [← texts_append] at bodies
  have loop := @emits_loopCode _ _ _ ctx _ _ _ condition bodies
  have parts : n.children.map (ofNode reg) =
      (init?.map (ofNode reg)).toList ++ ((test?.map node).map (ofNode reg)).toList ++
        (step?.map (ofNode reg)).toList ++ [ofNode reg body] := by
    simp [children, Option.toList_map]
  simp only [compose, kind, parts]
  rw [forLoop_value (by simpa using header), texts_append]
  exact ((inits.append loop).stacked (by simp)).asStatements

/-! ### Jumps -/

theorem readsAs_ret_none (kind : n.kind = .returnStmt) (children : n.children = []) :
    ReadsAs reg n ctx (.ret none : CStmt α) [.ret none] := by
  refine .of_compose (by simp [kind]) (by simp) ?_
  simp only [compose, kind, children, List.map_nil]
  exact emits_return

theorem IsUsed.ne_empty {value : α} (h : IsUsed reg node value) :
    (node value).expressionText reg ≠ "" := by
  intro he
  have := h.nonempty
  rw [he] at this
  exact this rfl

theorem trimStart_expressionText (m : Node) :
    trimStart (m.expressionText reg).toList = (m.expressionText reg).toList := by
  rw [expressionText, Fragment.asExpression, Text.toList_onChars]
  exact trimStart_of_head? fun c hc =>
    head?_trimStart (head?_dropEndWhile (head?_dropEndWhile (head?_dropEndWhile hc)))

theorem asExpression_nullIfZero_ne {text : String} (h : Fragment.asExpression text ≠ "")
    (type : CType) : Fragment.asExpression (Fragment.nullIfZero text type) ≠ "" := by
  rw [Fragment.nullIfZero]
  split
  · decide
  · exact h

theorem readsAs_ret {value : α} (fits : Fits ctx s) (kind : n.kind = .returnStmt)
    (children : n.children = [node value]) (isUsed : IsUsed reg node value) :
    ReadsAs reg n ctx (.ret (some value)) (returnCode reg node s.result value) := by
  refine .of_compose (by simp [kind]) (by simp) ?_
  have neat := neat_expressionText isUsed.simple
  have text : (returnStatement (n.children.map (ofNode reg)) ctx).value =
      if s.result.isVoid then (node value).expressionText reg ++ ";\nreturn"
      else "return " ++ Fragment.nullIfZero ((node value).expressionText reg) s.result := by
    have ne := isUsed.ne_empty
    rw [← expression_value isUsed.simple ctx] at ne ⊢
    simp [children, returnStatement, firstExpression, ne, fits.result]
  simp only [compose, kind, text, returnCode]
  split
  · exact emits_return_after neat isUsed.ne_empty (trimStart_expressionText _)
  · exact emits_return_value (expressionsClosed_neat.nullIfZero neat _).toFlat
      (asExpression_nullIfZero_ne isUsed.nonempty _)

theorem readsAs_brk (fits : Fits ctx s) (kind : n.kind = .breakStmt) :
    ReadsAs reg n ctx (.brk : CStmt α) [.brk s.label?] := by
  refine .of_compose (by simp [kind]) (by simp) ?_
  simp only [compose, kind, value_pure]
  have line := @emits_break ctx (fits.label ▸ fits.isLabel)
  rw [fits.label] at line
  exact line

theorem readsAs_cont (fits : Fits ctx s) (kind : n.kind = .continueStmt) :
    ReadsAs reg n ctx (.cont : CStmt α) (s.step ++ [.cont]) := by
  refine .of_compose (by simp [kind]) (by simp) ?_
  simp only [compose, kind, value_pure, continueText]
  cases step : ctx.loopStep with
  | none =>
    rw [fits.noStep step]
    exact emits_continue.of_asStatement rfl
  | some text =>
    rw [texts_append]
    exact emits_continue_after (fits.step text (by simp [step]))

end Statements

end Ferric
