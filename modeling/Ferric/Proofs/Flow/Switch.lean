import Ferric.Proofs.Flow.Arms

/-!
# Switches and whole bodies read back

The text of a switch is read back as its lowered statements, and with it the text of every
structured statement.

## Main results

* `chainReadsAs`: the chain of branches.
* `readsAs_switch`: a switch with its binding and its label.
* `readsAs_lower`: every statement is read back as its lowered statements.
* `read?_emitStatements`: so is the text of a function body.
-/

namespace Ferric

open Chars Draft CStmt Logged List

section Branches

theorem armBranches_value (scrutinee : String) (ctx : Context) (arms : List SwitchArm) :
    (armBranches scrutinee ctx arms).value =
      { tested := (arms.filter fun arm => !arm.isDefault).map fun arm =>
          branchText (Draft.armTest arm scrutinee ctx).value (Draft.statementsOf arm.run ctx).value
        default? := (arms.filter fun arm => arm.isDefault).getLast?.map fun arm =>
          Fragment.block (statementsOf arm.run ctx).value } := by
  induction arms with
  | nil => rfl
  | cons arm arms ih =>
    have statements : (armStatements arm arms.isEmpty ctx).value =
        (statementsOf arm.run ctx).value := by
      rw [armStatements]
      simp only [value_bind]
      split <;> rfl
    cases isDefault : arm.isDefault with
    | true =>
      simp only [armBranches, isDefault, if_true, value_bind, value_pure, ih,
        statements, filter_cons, Bool.not_true, Bool.false_eq_true, if_false,
        getLast?_cons]
      cases (arms.filter fun arm => arm.isDefault).getLast? <;> rfl
    | false =>
      simp only [armBranches, isDefault, Bool.false_eq_true, if_false, value_bind,
        value_pure, ih, statements, filter_cons, Bool.not_false, if_true,
        map_cons]
      rfl

end Branches

section Chain

variable {α : Type} {reg : Registry} {node : α → Node} {ctx : Context} {s : Setting α}

/-- The comparisons that choose an arm. -/
theorem armTest_value (p : PairedArm reg node) (scrutinee : String) (sites : List α) :
    (Draft.armTest p.drafts scrutinee ctx).value =
      (armTest reg node scrutinee sites p.form.labels).text := by
  have tests : (p.form.labels.map fun l =>
        scrutinee ++ " == " ++ ((Draft.ofNode reg (node l)).expression ctx).value) =
      p.form.labels.map fun l => scrutinee ++ " == " ++ (node l).expressionText reg :=
    map_congr_left fun l hl => by rw [Node.expression_value (p.isSimple l hl)]
  simp only [Draft.armTest, armTest, value_bind, value_pure, value_mapList,
    value_map, p.labels_eq, map_map, Function.comp_def, tests]

theorem flat_armTest (p : PairedArm reg node) {scrutinee : String} (hs : Flat scrutinee)
    (sites : List α) : Flat (armTest reg node scrutinee sites p.form.labels).text := by
  refine flat_joined (by decide) fun part hp => ?_
  obtain ⟨l, hl, rfl⟩ := mem_map.1 hp
  exact (hs.append (by decide)).append (Node.neat_expressionText (p.isSimple l hl)).toFlat

theorem armTest_ne_empty {labels : List α} (h : labels ≠ []) (scrutinee : String)
    (sites : List α) : (armTest reg node scrutinee sites labels).text ≠ "" := by
  obtain ⟨l, ls, rfl⟩ := exists_cons_of_ne_nil h
  intro he
  have equals : '=' ∈ (armTest reg node scrutinee sites (l :: ls)).text.toList := by
    cases ls with
    | nil => simp [armTest, Text.joined]
    | cons m ms => simp [armTest, joined_cons_cons]
  rw [he] at equals
  simp at equals

def PairedArm.guarded (p : PairedArm reg node) {scrutinee : String} (hs : Flat scrutinee)
    (sites : List α) (isTested : p.form.isDefault = false)
    (h : Emits (statementsOf p.drafts.run ctx).value
      (CStmt.lowerAll reg node s p.form.run).texts) : Guarded where
  test := (armTest reg node scrutinee sites p.form.labels).text
  texts := (statementsOf p.drafts.run ctx).value
  code := (CStmt.lowerAll reg node s p.form.run).texts
  flat := flat_armTest p hs sites
  nonempty := armTest_ne_empty (p.exists_label isTested) scrutinee sites
  emits := h

theorem exists_guarded {scrutinee : String} (hs : Flat scrutinee) (sites : List α)
    {tested : List (PairedArm reg node)} (isTested : ∀ p ∈ tested, p.form.isDefault = false)
    (each : ∀ p ∈ tested, Emits (statementsOf p.drafts.run ctx).value
      (lowerAll reg node s p.form.run).texts) :
    ∃ gs : List Guarded,
      (tested.map fun p => branchText (Draft.armTest p.drafts scrutinee ctx).value
        (statementsOf p.drafts.run ctx).value) =
          gs.map (fun g => branchText g.test g.texts) ∧
      ∀ last : Code α,
        Code.texts (tested.foldr (fun p no =>
          [.branch (armTest reg node scrutinee sites p.form.labels)
            (lowerAll reg node s p.form.run) no]) last) =
          gs.foldr (fun g no => [.branch g.test g.code no]) last.texts := by
  induction tested with
  | nil => exact ⟨[], rfl, fun last => rfl⟩
  | cons p tested ih =>
    obtain ⟨gs, texts, codes⟩ := ih (fun q hq => isTested q (by simp [hq]))
      fun q hq => each q (by simp [hq])
    refine ⟨p.guarded hs sites (isTested p (by simp)) (each p (by simp)) :: gs, ?_, fun last => ?_⟩
    · rw [map_cons, map_cons, texts, armTest_value p scrutinee sites]
      rfl
    · rw [foldr_cons, foldr_cons, Code.texts_cons, Code.map_text_branch, codes]
      rfl

/-- The chain as statements: none when there are no branches. -/
def Draft.Branches.texts (b : Draft.Branches) : List String :=
  if b.chain == "" then [] else [b.chain]

/-- **What is read of a chain**, which may have no branches. -/
structure ChainReadsAs (b : Draft.Branches) (code : Code α) : Prop where
  emits : Emits b.texts code.texts
  isEmpty_eq : b.texts.isEmpty = code.isEmpty

theorem ChainReadsAs.of_chain {b : Draft.Branches} {code : Code α}
    (h : Emits [b.chain] code.texts) (hn : code ≠ []) : ChainReadsAs b code := by
  have nonempty : b.chain ≠ "" := by
    intro he
    refine IsTidy.ne_nil (h.tidy b.chain (by simp)) ?_
    rw [he]
    rfl
  have texts : b.texts = [b.chain] := by
    rw [Draft.Branches.texts, if_neg (by simpa using nonempty)]
  exact ⟨texts ▸ h, by rw [texts]; simpa using hn⟩

/-- **The chain of branches.** -/
theorem chainReadsAs {scrutinee : String} (hs : Flat scrutinee) (sites : List α)
    {pairs : List (PairedArm reg node)}
    (each : ∀ p ∈ pairs, Emits (statementsOf p.drafts.run ctx).value
      (lowerAll reg node s p.form.run).texts) :
    ChainReadsAs (armBranches scrutinee ctx (pairs.map PairedArm.drafts)).value
      (chainCode reg node scrutinee sites
        (pairs.map fun p => lowerArm reg node s p.form)) := by
  have filterDrafts : ∀ f : Bool → Bool,
      ((pairs.map PairedArm.drafts).filter fun arm => f arm.isDefault) =
        (pairs.filter fun p => f p.form.isDefault).map PairedArm.drafts := by
    intro f
    rw [filter_map]
    simp only [Function.comp_def, PairedArm.isDefault_eq]
  have filterForms : ∀ f : Bool → Bool,
      ((pairs.map fun p => lowerArm reg node s p.form).filter fun arm => f arm.isDefault) =
        (pairs.filter fun p => f p.form.isDefault).map fun p => lowerArm reg node s p.form :=
    fun f => filter_map
  -- the branches with a test come first, and the last default behind them
  let tested := pairs.filter fun p => !p.form.isDefault
  let default? := (pairs.filter fun p => p.form.isDefault).getLast?
  obtain ⟨gs, texts, codes⟩ := @exists_guarded _ _ _ ctx s _ hs sites tested (by simp [tested])
    fun p hp => each p (mem_filter.1 hp).1
  have value : (armBranches scrutinee ctx (pairs.map PairedArm.drafts)).value =
      ⟨gs.map fun g => branchText g.test g.texts,
        default?.map fun p => Fragment.block (statementsOf p.drafts.run ctx).value⟩ := by
    rw [armBranches_value, filterDrafts fun b => !b, filterDrafts fun b => b, map_map,
      getLast?_map, Option.map_map, ← texts]
    rfl
  have sameLength : tested.isEmpty = gs.isEmpty := by
    have := congrArg isEmpty texts
    simpa using this
  have code : chainCode reg node scrutinee sites
        (pairs.map fun p => lowerArm reg node s p.form) =
      if gs.isEmpty then
        (default?.map fun p => lowerAll reg node s p.form.run).toList.map (.block none)
      else tested.foldr (fun p no =>
          [.branch (armTest reg node scrutinee sites p.form.labels)
            (lowerAll reg node s p.form.run) no])
        ((default?.map fun p => lowerAll reg node s p.form.run).getD []) := by
    rw [chainCode, filterForms fun b => !b, filterForms fun b => b, ← sameLength,
      getLast?_map, Option.map_map, isEmpty_map, foldr_map]
    rfl
  have last : ∀ p, default? = some p → Emits (statementsOf p.drafts.run ctx).value
      (lowerAll reg node s p.form.run).texts := by
    intro p hp
    exact each p (mem_filter.1 (mem_of_getLast? hp)).1
  rw [value, code]
  cases gs with
  | nil =>
    rw [if_pos isEmpty_nil]
    cases hd : default? with
    | none => exact ⟨emits_nil, rfl⟩
    | some p =>
      refine .of_chain ?_ (by simp)
      exact (last p hd).block
  | cons g gs =>
    rw [if_neg (by simp)]
    have chain := @emitsBranch_chain g gs
      (default?.map fun p => (statementsOf p.drafts.run ctx).value)
      (Code.texts ((default?.map fun p => lowerAll reg node s p.form.run).getD [])) ?_ ?_
    · rw [Option.map_map] at chain
      refine .of_chain ?_ ?_
      · rw [codes]
        exact chain.emits
      · obtain ⟨p, ps, hp⟩ : ∃ p ps, tested = p :: ps :=
          exists_cons_of_ne_nil (by simpa using sameLength)
        simp [hp]
    · intro texts ht
      obtain ⟨p, hp, rfl⟩ := Option.map_eq_some_iff.1 ht
      rw [hp]
      exact last p hp
    · intro none
      rw [Option.map_eq_none_iff.1 none]
      rfl

/-! ## The whole switch -/

theorem emits_enclose {label? : Option String} (hl : ∀ label ∈ label?, IsLabel label)
    {binding : List String} {b : Draft.Branches} {bind chain : Code α}
    (hb : Emits binding bind.texts) (hbe : binding.isEmpty = bind.isEmpty)
    (hc : ChainReadsAs b chain) :
    Emits (asStatements (enclose label? binding b.chain))
      (encloseCode label? bind chain).texts := by
  rw [encloseCode.eq_def, ← hc.isEmpty_eq, ← hbe]
  by_cases empty : b.chain = ""
  · have none : b.texts = [] := by simp [Draft.Branches.texts, empty]
    simp only [enclose, empty, none, isEmpty_nil, if_true, beq_self_eq_true]
    by_cases hn : binding = []
    · subst hn
      rw [hb.eq_nil]
      exact emits_nil
    · exact (hb.stacked hn).asStatements
  · have one : b.texts = [b.chain] := by simp [Draft.Branches.texts, empty]
    have chained : Emits [b.chain] chain.texts := one ▸ hc.emits
    have both : Emits (binding ++ [b.chain]) (Code.texts (bind ++ chain)) :=
      Code.texts_append _ _ ▸ hb.append chained
    simp only [enclose, one, isEmpty_cons, Bool.false_eq_true, if_false,
      beq_iff_eq, empty]
    cases label? with
    | some label => exact (emits_labelled (hl label rfl) both).asStatements
    | none =>
      dsimp only
      split
      · exact chained.asStatements
      · exact both.block.asStatements

/-- The text of a switch over a block. -/
theorem switchStatement_value {test body : Draft} (compound : body.node.kind = .compoundStmt)
    {value : String} (hv : (test.expression ctx).value = value) :
    (switchStatement [test, body] ctx).value =
      let name := "switch_value" ++ ctx.switchSuffix
      let arms := (SwitchArm.group body.parts).2
      let label? := if arms.any SwitchArm.breaksEarly then some ("'switch" ++ ctx.switchSuffix)
        else none
      enclose label?
        (if isRepeatable test.node then [] else ["let " ++ name ++ " = " ++ value ++ ";"])
        (armBranches (if isRepeatable test.node then value else name)
          (ctx.inSwitch label?) arms).value.chain := by
  have ofBody : SwitchArm.ofBody body = SwitchArm.group body.parts := by
    rw [SwitchArm.ofBody, if_pos compound]
  simp only [switchStatement, value_bind, ofBody, hv]
  cases isRepeatable test.node <;> rfl

theorem emits_binding (s : Setting α) {x : α} (isUsed : IsUsed reg node x) :
    Emits (if isRepeatable (node x) then []
        else ["let " ++ s.valueName ++ " = " ++ (node x).expressionText reg ++ ";"])
      (s.binding reg node x).texts := by
  rw [Setting.binding]
  split
  · exact emits_nil
  · have first : s.valueName.toList.head? = some 's' := by simp [Setting.valueName]
    refine emits_capture s.isWordChar_valueName ?_ ?_
      (Node.neat_expressionText isUsed.simple).toFlat ?_ ?_
    · intro he
      simp [he] at first
    · intro he
      simp [he] at first
    · rw [Node.expressionText, Fragment.asExpression, Text.toList_onChars, asExpression_eq]
      exact trimEnd_trimEnd _
    · have nonempty := isUsed.nonempty
      intro he
      refine nonempty ?_
      rw [Fragment.asExpression, Text.onChars, asExpression_eq, trimStart_expressionText, he,
        String.ofList_nil]

theorem flat_scrutinee (s : Setting α) {x : α} (isUsed : IsUsed reg node x) :
    Flat (s.scrutinee reg node x) := by
  rw [Setting.scrutinee]
  split
  · exact (Node.neat_expressionText isUsed.simple).toFlat
  · exact flat_of_word s.isWordChar_valueName

theorem Setting.isLabel_of_mem_switchLabel? (s : Setting α) (items : List (CStmt α)) :
    ∀ label ∈ s.switchLabel? items, IsLabel label := by
  intro label hl
  rw [Setting.switchLabel?] at hl
  split at hl
  · obtain rfl : s.labelName = label := by simpa using hl
    exact s.isLabel_labelName
  · simp at hl

/-- **A switch is read back as its lowered statements.** -/
theorem readsAs_switch {n body : Node} {x : α} {items : List (CStmt α)} (fits : Fits ctx s)
    (kind : n.kind = .switchStmt) (children : n.children = [node x, body])
    (isUsed : IsUsed reg node x) (compound : body.kind = .compoundStmt)
    (all : HasItems reg node body.children items)
    (each : ∀ arm ∈ CStmt.arms items, ∀ c ∈ arm.body, ∀ n ctx s, HasForm reg node n c →
      Fits ctx s → ReadsAs reg n ctx c (c.lower reg node s)) :
    ReadsAs reg n ctx (.switch x items) (CStmt.lower reg node s (.switch x items)) := by
  refine .of_compose (by simp [kind]) (by simp) ?_
  obtain ⟨before, pairs, -, -, drafts, forms⟩ := exists_pairedArms all
  have label : (if (pairs.map PairedArm.drafts).any SwitchArm.breaksEarly then
      some ("'switch" ++ ctx.switchSuffix) else none) = s.switchLabel? items := by
    rw [Setting.switchLabel?, CStmt.arms, forms, fits.suffix_eq, any_map, any_map]
    simp only [Function.comp_def, PairedArm.breaksEarly_eq, Setting.labelName]
  have isLabel := s.isLabel_of_mem_switchLabel? items
  have inside := fits.inSwitch isLabel
  have arms : ∀ p ∈ pairs, Emits
      (statementsOf p.drafts.run (ctx.inSwitch (s.switchLabel? items))).value
      (CStmt.lowerAll reg node (s.inSwitch (s.switchLabel? items)) p.form.run).texts := by
    intro p hp
    have mem : p.form ∈ CStmt.arms items := by
      rw [CStmt.arms, forms]
      exact mem_map_of_mem hp
    rw [p.drafts_run]
    refine emits_forms p.hasForms_run fun c hc n form => each p.form mem c ?_ n _ _ form inside
    exact takeWhile_subset _ hc
  have chain := chainReadsAs (flat_scrutinee s isUsed) (scrutineeSites node x) arms
  have name : "switch_value" ++ ctx.switchSuffix = s.valueName := by
    rw [fits.suffix_eq, Setting.valueName]
  have bindingEmpty : (if isRepeatable (node x) then []
      else ["let " ++ s.valueName ++ " = " ++ (node x).expressionText reg ++ ";"]).isEmpty =
      (s.binding reg node x).isEmpty := by
    rw [Setting.binding]
    split <;> rfl
  have lowered : (CStmt.arms items).map
        (CStmt.lowerArm reg node (s.inSwitch (s.switchLabel? items))) =
      pairs.map fun p => CStmt.lowerArm reg node (s.inSwitch (s.switchLabel? items)) p.form := by
    rw [CStmt.arms, forms, map_map]
    rfl
  rw [CStmt.lower_switch, lowered, switchCode]
  simp only [compose, kind, children, map_cons, map_nil]
  rw [switchStatement_value (by simpa using compound) (Node.expression_value isUsed.simple ctx)]
  simp only [node_ofNode, parts_ofNode, drafts, label, name]
  exact emits_enclose isLabel (emits_binding s isUsed) bindingEmpty chain

/-! ## All statements -/

/-- **Every statement is read back as its lowered statements.** -/
theorem readsAs_lower {n : Node} {c : CStmt α} (form : HasForm reg node n c) (fits : Fits ctx s) :
    ReadsAs reg n ctx c (c.lower reg node s) := by
  induction c using CStmt.inductArms generalizing n ctx s with
  | null =>
    cases form with
    | null kind => exact readsAs_null kind
  | simple operands =>
    cases form with
    | simple simple eq => exact readsAs_simple simple eq
  | decl vars =>
    cases form with
    | decl kind eq each => exact readsAs_decl fits.phase kind eq each
  | block body ih =>
    cases form with
    | block kind all =>
      rw [lower_block]
      exact readsAs_block kind (emits_forms all fun c hc n form => ih c hc form fits)
  | ifThen test yes ih =>
    cases form with
    | ifThen kind children condition form =>
      exact readsAs_ifThen kind children condition (ih form fits)
  | ifElse test yes no ihy ihn =>
    cases form with
    | ifElse kind children condition formYes formNo =>
      refine readsAs_ifElse kind children condition (ihy formYes fits) (ihn formNo fits) ?_
      -- an `else` with braces of its own is no `else if`
      rintro chain body rfl
      rw [formNo.kind_eq_compound.2 ⟨body, rfl⟩] at chain
      exact absurd chain (by decide)
  | whileLoop test body ih =>
    cases form with
    | whileLoop kind children condition form =>
      exact readsAs_while kind children condition (ih form fits.inLoop_nil)
  | doLoop body test ih =>
    cases form with
    | doLoop kind children condition form =>
      have check : Emits [exitCheck ((node test).conditionText reg)]
          (Code.texts [exitCode reg node test]) := emits_exitCheck condition.flat
      exact readsAs_do kind children condition (ih form (fits.inLoop_step check))
  | forLoop init test? step body ihi ihb =>
    cases form with
    | forLoop kind header children hasInit condition hasStep form =>
      exact readsAs_for fits kind header children hasInit condition hasStep fun _ inside =>
        ihb form inside
  | ret value? =>
    cases form with
    | retNone kind children => exact readsAs_ret_none kind children
    | retSome kind children isUsed => exact readsAs_ret fits kind children isUsed
  | brk =>
    cases form with
    | brk kind => exact readsAs_brk fits kind
  | cont =>
    cases form with
    | cont kind => exact readsAs_cont fits kind
  | switch x items ih =>
    cases form with
    | switch kind children isUsed compound all =>
      exact readsAs_switch fits kind children isUsed compound all fun arm harm c hc n ctx s form
        fits => ih arm harm c hc form fits
  | labelled => exact absurd rfl form.ne_labelled

theorem fits_ofFunction (result : CType) :
    Fits (Context.ofFunction result) ({ result } : Setting α) where
  phase := rfl
  result := rfl
  depth := rfl
  label := rfl
  isLabel := by simp
  noStep _ := rfl
  step := by simp [Context.ofFunction]

/-- **The text of a statement of a function is read back as its lowered statements.** -/
theorem read?_emitStatements {n : Node} {c : CStmt α} (form : HasForm reg node n c)
    (result : CType) :
    RustStmt.read? (Text.stacked (n.emitStatements reg (Context.ofFunction result)).value) =
      some (c.lower reg node { result }).texts :=
  (readsAs_lower form (fits_ofFunction result)).statements.read?_stacked

end Chain

end Ferric
