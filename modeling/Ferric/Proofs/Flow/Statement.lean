import Ferric.Proofs.Flow.CStmt

/-!
# The text of a statement is read as its lowered statements

One lemma for each construct: if the texts of the parts are read as given statements, then the text
of the whole is read as the statement put together from them.

## Main results

* `emits_simpleCodes`, `emits_declare`: expressions and variables.
* `emits_while`, `emits_loop`, `emits_exitCheck`: loops.
* `emitsBranch_chain`, `emits_capture`, `emits_labelled`: the parts of a switch.
* `emits_break`, `emits_continue`, `emits_return`: jumps.
-/

namespace Ferric

open Chars Fragment

section

open Draft

/-- The texts of the leaves of lowered statements. -/
def Code.texts {α : Type} (code : Code α) : List (RustStmt String) :=
  RustStmt.mapAll Leaf.text code

namespace Code

variable {α : Type}

@[simp] theorem texts_nil : texts ([] : Code α) = [] := rfl

@[simp] theorem texts_cons (s : RustStmt (Leaf α)) (code : Code α) :
    texts (s :: code) = s.map Leaf.text :: texts code := rfl

@[simp] theorem texts_append (a b : Code α) : texts (a ++ b) = a.texts ++ b.texts :=
  RustStmt.mapAll_append _ a b

@[simp] theorem map_text_block (label? : Option String) (body : Code α) :
    (RustStmt.block label? body).map Leaf.text = .block label? body.texts := rfl

@[simp] theorem map_text_branch (test : Leaf α) (yes no : Code α) :
    (RustStmt.branch test yes no).map Leaf.text = .branch test.text yes.texts no.texts := rfl

@[simp] theorem map_text_while (test : Leaf α) (body : Code α) :
    (RustStmt.whileLoop test body).map Leaf.text = .whileLoop test.text body.texts := rfl

@[simp] theorem map_text_loop (body : Code α) :
    (RustStmt.loop body).map Leaf.text = .loop body.texts := rfl

theorem texts_eq_nil {code : Code α} : code.texts = [] ↔ code = [] := by
  cases code <;> simp

end Code

/-! ## Simple statements -/

variable {t : String} {code : List (RustStmt String)}

/-- A statement that is not empty is one line. -/
theorem Neat.tidy_asStatement (h : Neat t) (hn : Fragment.asStatement t ≠ "") :
    Tidy (Fragment.asStatement t).toList where
  single := h.toFlat.asStatement.single
  ends := by
    have nonempty : (Fragment.asStatement t).toList ≠ [] := by simpa using hn
    obtain ⟨c, hc⟩ := Option.isSome_iff_exists.1 (List.getLast?_isSome.2 nonempty)
    refine ⟨c, hc, ?_⟩
    rw [Fragment.asStatement, Text.toList_onChars] at hc
    exact getLast?_asStatement hc

theorem emits_asStatements (h : Neat t) :
    Emits (asStatements t)
      (((asStatements t).map Text.trimStart).map .simple) := by
  simp only [asStatements]
  split
  · exact emits_nil
  · rename_i nonempty
    have nonempty : asStatement t ≠ "" := by simpa using nonempty
    refine emits_line (h.tidy_asStatement nonempty) ?_ h.asStatement.read?_eq
    rw [Fragment.asStatement, Text.toList_onChars]
    exact isTerminated_asStatement _

section Leaves

variable {α : Type} {reg : Registry} {node : α → Node}

theorem texts_simpleCode (a : α) :
    (simpleCode reg node a).texts = ((node a).statementTexts reg).map .simple := by
  rw [simpleCode, Code.texts]
  induction (node a).statementTexts reg with
  | nil => rfl
  | cons t ts ih => simp [ih, RustStmt.map]

/-- Expressions in statement position. -/
theorem emits_simpleCodes {as : List α} (h : ∀ a ∈ as, (node a).IsSimple reg) :
    Emits (as.flatMap fun a => asStatements ((node a).plainText reg))
      (simpleCodes reg node as).texts := by
  induction as with
  | nil => exact emits_nil
  | cons a as ih =>
    have first := emits_asStatements (Node.neat_plainText (h a (by simp)))
    have rest := ih fun b hb => h b (by simp [hb])
    rw [List.flatMap_cons, simpleCodes, List.flatMap_cons, Code.texts_append, texts_simpleCode]
    exact first.append rest

end Leaves

/-- A text and the statement that it becomes. -/
theorem Emits.of_asStatement {u : String} (h : Emits [u] code) (hu : asStatement t = u) :
    Emits (asStatements t) code := by
  have nonempty : u ≠ "" := by
    rintro rfl
    exact IsTidy.ne_nil (h.tidy "" (by simp)) rfl
  simp only [asStatements, hu]
  rw [if_neg (by simpa using nonempty)]
  exact h

theorem Emits.asStatement_eq (h : Emits [t] code) : Fragment.asStatement t = t := by
  rw [Fragment.asStatement, Text.onChars,
    asStatement_of_isTerminated (h.terminated t (by simp)), String.ofList_toList]

/-- A text that is a statement already. -/
theorem Emits.asStatements (h : Emits [t] code) : Emits (asStatements t) code :=
  h.of_asStatement h.asStatement_eq

/-! ## Statements with a reserved word -/

theorem tidy_of_isTerminated {cs : List Char} (hs : '\n' ∉ cs) (hn : cs ≠ [])
    (h : isTerminated cs = true) : Tidy cs where
  single := hs
  ends := by
    obtain ⟨c, hc⟩ := Option.isSome_iff_exists.1 (List.getLast?_isSome.2 hn)
    simp only [isTerminated, hc, Bool.or_eq_true, beq_iff_eq] at h
    refine ⟨c, hc, ?_⟩
    rcases h with rfl | rfl <;> decide

theorem emits_worded {word rest : List Char} {s : RustStmt String} (flat : Flat t)
    (ht : t.toList = word ++ rest) (hw : ∀ c ∈ word, isWordChar c = true) (hn : word ≠ [])
    (hr : ∀ c, rest.head? = some c → isWordChar c = false) (he : isTerminated t.toList = true)
    (h : Line.worded? word rest = some s) : Emits [t] [s] := by
  have start : trimStart t.toList = word ++ rest := by
    obtain ⟨c, cs, rfl⟩ := List.exists_cons_of_ne_nil hn
    rw [ht]
    exact trimStart_cons (isBlank_of_isWordChar (hw c (by simp))) _
  have nonempty : t.toList ≠ [] := by simp [ht, hn]
  refine emits_line (tidy_of_isTerminated flat.single nonempty he) he ?_
  rw [start, Line.read?_word hw hr (ht ▸ flat.nested), h]
  rfl

theorem emits_asStatements_worded {word rest : List Char} {s : RustStmt String} (flat : Flat t)
    (ht : t.toList = word ++ ' ' :: rest) (hw : ∀ c ∈ word, isWordChar c = true) (hn : word ≠ [])
    (hr : ∃ c ∈ rest, isBlank c = false)
    (h : Line.worded? word (' ' :: asStatement rest) = some s) :
    Emits (asStatements t) [s] := by
  have kept : trimEnd rest ≠ [] := by
    obtain ⟨c, hc, hb⟩ := hr
    intro he
    rw [dropEndWhile_eq_nil.1 he c hc] at hb
    exact absurd hb (by decide)
  have shape : (asStatement t).toList = word ++ ' ' :: asStatement rest := by
    rw [Fragment.asStatement, Text.toList_onChars, ht, List.append_cons, asStatement_append kept,
      ← List.append_cons]
  refine Emits.of_asStatement (emits_worded flat.asStatement shape hw hn ?_ ?_ h) rfl
  · intro c hc
    obtain rfl : ' ' = c := by simpa using hc
    decide
  · rw [Fragment.asStatement, Text.toList_onChars]
    exact isTerminated_asStatement _

/-- The label of a switch. -/
structure IsLabel (label : String) : Prop where
  quoted : label.toList.head? = some '\''
  word : ∀ c ∈ label.toList, c = '\'' ∨ isWordChar c = true

theorem IsLabel.flat {label : String} (h : IsLabel label) : Flat label where
  nested := nested_of_not_bracket fun c hc => by
    rcases h.word c hc with rfl | hw
    · decide
    · exact isBracket_of_isWordChar hw
  single hc := by
    rcases h.word _ hc with hq | hw
    · exact absurd hq (by decide)
    · exact absurd hw (by decide)

theorem emits_break {ctx : Context} (h : ∀ label ∈ ctx.breakLabel, IsLabel label) :
    Emits (asStatements (breakText ctx)) [.brk ctx.breakLabel] := by
  rw [breakText]
  cases hl : ctx.breakLabel with
  | none =>
    have line : Emits ["break;"] [.brk none] :=
      @emits_worded _ "break".toList [';'] _ (by decide) rfl (by decide) (by decide) (by decide)
        rfl rfl
    exact line
  | some label =>
    have isLabel := h label (by simp [hl])
    have plain : ∀ c ∈ label.toList, isBlank c = false ∧ c ≠ ';' := by
      intro c hc
      rcases isLabel.word c hc with rfl | hw
      · decide
      · exact ⟨isBlank_of_isWordChar hw, fun he => absurd (he ▸ hw) (by decide)⟩
    have visible : ∃ c ∈ label.toList, isBlank c = false :=
      ⟨'\'', List.mem_of_head? isLabel.quoted, by decide⟩
    refine emits_asStatements_worded (Flat.append (by decide) isLabel.flat)
      (by simp : _ = "break".toList ++ ' ' :: label.toList) (by decide) (by decide) visible ?_
    rw [Line.worded?, if_pos rfl, asExpression_blank_cons (by decide), asExpression_asStatement,
      asExpression_of_forall plain, Line.nonempty?_of_ne (List.ne_nil_of_mem visible.choose_spec.1),
      String.ofList_toList]

theorem emits_continue : Emits ["continue;"] [.cont] :=
  @emits_worded _ "continue".toList [';'] _ (by decide) rfl (by decide) (by decide) (by decide)
    rfl rfl

theorem emits_continue_after {step : String} (h : Emits [step] code) :
    Emits (asStatements (asStatement step ++ "\ncontinue")) (code ++ [.cont]) := by
  have text : asStatement (step ++ "\ncontinue") =
      Text.stacked [step, "continue;"] := by
    refine String.toList_inj.1 ?_
    rw [Fragment.asStatement, Text.toList_onChars, String.toList_append,
      asStatement_append (by decide), toList_stacked]
    rfl
  rw [h.asStatement_eq]
  exact ((h.append emits_continue).stacked (by simp)).of_asStatement text

theorem emits_return : Emits (asStatements "return") [.ret none] :=
  @emits_worded "return;" "return".toList [';'] _ (by decide) rfl (by decide) (by decide)
    (by decide) rfl rfl

theorem emits_return_value {value : String} (h : Flat value)
    (hn : asExpression value ≠ "") :
    Emits (asStatements ("return " ++ value))
      [.ret (some (asExpression value))] := by
  have nonempty : asExpression value.toList ≠ [] := by
    simpa [Fragment.asExpression, Text.onChars] using hn
  refine emits_asStatements_worded (Flat.append (by decide) h)
    (by simp : _ = "return".toList ++ ' ' :: value.toList) (by decide) (by decide)
    (exists_of_asExpression_ne_nil nonempty) ?_
  rw [Line.worded?, if_neg (by decide), if_neg (by decide), if_pos rfl,
    asExpression_blank_cons (by decide), asExpression_asStatement, Line.nonempty?_of_ne nonempty]
  rfl

theorem emits_return_after {value : String} (h : Neat value) (hn : value ≠ "")
    (hs : trimStart value.toList = value.toList) :
    Emits (asStatements (value ++ ";\nreturn")) [.simple (value ++ ";"), .ret none] := by
  have semicolon : Neat (value ++ ";") := h.append (by decide) ⟨';', [], rfl, by decide⟩
  have terminated : isTerminated (value ++ ";").toList = true := by
    rw [String.toList_append]
    exact isTerminated_append (by decide) _
  have start : trimStart (value ++ ";").toList = (value ++ ";").toList := by
    obtain ⟨c, cs, hc⟩ := List.exists_cons_of_ne_nil (by simpa using hn : value.toList ≠ [])
    rw [hc] at hs
    rw [String.toList_append, hc]
    exact trimStart_cons (head?_trimStart (by rw [hs]; rfl)) _
  have reads := semicolon.read?_eq
  rw [Text.trimStart, Text.onChars, start, String.ofList_toList] at reads
  have first : Emits [value ++ ";"] [.simple (value ++ ";")] :=
    emits_line (tidy_of_isTerminated semicolon.single (by simp) terminated) terminated
      (by rw [start]; exact reads)
  have last : Emits ["return;"] [.ret none] := emits_return
  refine ((first.append last).stacked (by simp)).of_asStatement ?_
  refine String.toList_inj.1 ?_
  rw [Fragment.asStatement, Text.toList_onChars, String.toList_append,
    asStatement_append (by decide), toList_stacked]
  have ends : asStatement ";\nreturn".toList = ";\nreturn;".toList := rfl
  rw [ends]
  simp [unlines, List.intercalate_cons_cons]

/-! ## Variables -/

section Variables

variable {reg : Registry} {n : Node}

theorem initializer?_drafts :
    ((n.children.map (ofNode reg)).getLast?.filter fun d => d.node.kind.isInitializer n.type) =
      n.initializer?.map (ofNode reg) := by
  rw [List.getLast?_map, Node.initializer?, Option.filter_map]
  simp only [Function.comp_def, node_ofNode]

/-- The value that a variable starts with, without the notes. -/
theorem initialValue_value (ctx : Context) :
    (initialValue reg n (n.children.map (ofNode reg)) ctx).value =
      if isLocalArray n ctx then uninitialized
      else match n.initializer? with
        | none => zeroValue reg.recordName n.type
        | some init =>
          if ((ofNode reg init).expression ctx).value == "" then
            zeroValue reg.recordName n.type
          else nullIfZero ((ofNode reg init).expression ctx).value n.type := by
  simp only [initialValue, initializer?_drafts]
  split
  · split <;> rfl
  · cases n.initializer? with
    | none => simp
    | some init => simp

variable (hi : ∀ init ∈ n.initializer?, init.IsSimple reg)

include hi

theorem initialValue_eq {ctx : Context} (hc : ctx.phase = .functions) :
    (initialValue reg n (n.children.map (ofNode reg)) ctx).value =
      n.initialText reg := by
  rw [Node.initialText, initialValue_value, initialValue_value, isLocalArray, hc,
    isLocalArray]
  cases init : n.initializer? with
  | none => rfl
  | some init' =>
    have simple := hi init' (by simp [init])
    simp only [Node.expression_value simple]

theorem flat_initialText (ht : n.type.HasNeatNames reg.recordName) : Flat (n.initialText reg) := by
  have zero := (neat_zeroValue n.type ht).toFlat
  rw [Node.initialText, initialValue_value]
  split
  · decide
  · split
    · exact zero
    · rename_i init hs
      have simple := hi init (by simp [hs])
      split
      · exact zero
      · rw [Node.expression_value simple]
        exact (expressionsClosed_neat.nullIfZero (Node.neat_expressionText simple) n.type).toFlat

/-- **A declaration of a variable.** -/
theorem emits_varDeclaration {ctx : Context} (hc : ctx.phase = .functions)
    (hn : sanitize n.spelling ≠ "")
    (hw : ∀ c ∈ (sanitize n.spelling).toList, isWordChar c = true)
    (ht : n.type.HasNeatNames reg.recordName) :
    Emits (asStatements
        (varDeclaration reg n (n.children.map (ofNode reg)) ctx).value)
      [.declare (sanitize n.spelling) (n.variableText reg)] := by
  have type : Flat (reg.renderType n.type) := (neat_render ht).toFlat
  have value := flat_initialText hi ht
  have text : (varDeclaration reg n (n.children.map (ofNode reg)) ctx).value =
      "let mut " ++ (sanitize n.spelling ++ ": " ++ reg.renderType n.type ++ " = " ++
        n.initialText reg ++ ";") := by
    simp only [varDeclaration, Logged.value_bind, Logged.value_pure, initialValue_eq hi hc,
      if_pos hc]
  have flat : Flat ("let mut " ++ (sanitize n.spelling ++ ": " ++ reg.renderType n.type ++ " = " ++
      n.initialText reg ++ ";")) := by
    have name := flat_of_word hw
    exact Flat.append (by decide) (((((name.append (by decide)).append type).append
      (by decide)).append value).append (by decide))
  let tail := reg.renderType n.type ++ " = " ++ n.initialText reg ++ ";"
  have equals : '=' ∈ tail.toList := by simp [tail]
  rw [text]
  refine emits_asStatements_worded flat
    (by simp [tail] : _ = "let".toList ++ ' ' ::
      ("mut ".toList ++ (sanitize n.spelling).toList ++ ": ".toList ++ tail.toList))
    (by decide) (by decide) ⟨'=', by simp [equals], by decide⟩ ?_
  have rest : unterminated tail.toList ≠ [] := unterminated_ne_nil equals (by decide) (by decide)
  rw [Line.worded?, if_neg (by decide), if_neg (by decide), if_neg (by decide), if_pos rfl,
    asExpression_blank_cons (by decide), asExpression_asStatement, asExpression_eq]
  have start : trimStart ("mut ".toList ++ (sanitize n.spelling).toList ++ ": ".toList ++
      tail.toList) = "mut ".toList ++ (sanitize n.spelling).toList ++ ": ".toList ++
      tail.toList := trimStart_cons (by decide) _
  rw [start, unterminated_append rest, Line.binding?_declare hw (by simpa using hn),
    String.ofList_toList]
  rfl

end Variables

end

section

open Fragment

section Loops

variable {test : String} {texts : List String} {code : List (RustStmt String)}

theorem emits_while (ht : Flat test) (hn : test ≠ "") (h : Emits texts code) :
    Emits ["while " ++ test ++ " " ++ block texts] [.whileLoop test code] := by
  have line : ("while " ++ test ++ " ").toList ++ ['\x7b'] =
      "while ".toList ++ test.toList ++ [' ', '\x7b'] := by simp
  have reads := Line.read?_while ht.nested (by simpa using hn)
  rw [String.ofList_toList, ← line] at reads
  refine h.opening _ (by simp [ht.single]) ?_ reads
  rw [line]
  exact trimStart_cons (by decide) _

theorem emits_loop (h : Emits texts code) :
    Emits ["loop " ++ block texts] [.loop code] :=
  h.opening "loop " (by decide) rfl Line.read?_loop

/-- The check at the end of a `do` loop. -/
theorem emits_exitCheck (ht : Flat test) :
    Emits [Draft.exitCheck test]
      [.branch ("!(" ++ ungrouped test ++ ")") [.brk none] []] := by
  have negated : Flat ("!(" ++ ungrouped test ++ ")") :=
    ht.ungrouped.wrap _ _ rfl rfl (by decide) (by decide)
  have nonempty : "!(" ++ ungrouped test ++ ")" ≠ "" := by
    intro h
    have := congrArg String.toList h
    simp at this
  have leave : Emits ["break;"] [.brk none] := @emits_break {} (by simp)
  have shape : Draft.exitCheck test =
      branchText ("!(" ++ ungrouped test ++ ")") ["break;"] := by
    have body : block ["break;"] = "\x7b\n    break;\n\x7d" := by decide
    refine String.toList_inj.1 ?_
    simp [Draft.exitCheck, branchText, body]
  rw [shape]
  exact (emitsBranch_single negated.nested negated.single nonempty leave).emits

end Loops

/-! ## Parts of a switch -/

theorem emits_labelled {label : String} (hl : IsLabel label) {texts : List String}
    {code : List (RustStmt String)} (h : Emits texts code) :
    Emits [label ++ ": " ++ block texts] [.block (some label) code] := by
  have line : (label ++ ": ").toList ++ ['\x7b'] = label.toList ++ [':'] ++ [' ', '\x7b'] := by
    simp
  have reads := Line.read?_label hl.flat.nested hl.quoted
  rw [String.ofList_toList, ← line] at reads
  refine h.opening _ (by simp [hl.flat.single]) ?_ reads
  rw [line]
  obtain ⟨rest, hr⟩ := List.head?_eq_some_iff.1 hl.quoted
  rw [hr]
  exact trimStart_cons (by decide) _

/-- The binding of the value of a switch. -/
theorem emits_capture {name value : String} (hn : ∀ c ∈ name.toList, isWordChar c = true)
    (h0 : name ≠ "") (hm : name ≠ "mut") (hv : Flat value)
    (he : trimEnd value.toList = value.toList) (hu : unterminated value.toList ≠ []) :
    Emits ["let " ++ name ++ " = " ++ value ++ ";"]
      [.capture name (Text.onChars unterminated value)] := by
  have flat : Flat ("let " ++ name ++ " = " ++ value ++ ";") :=
    ((((by decide : Flat "let ").append (flat_of_word hn)).append (by decide)).append hv).append
      (by decide)
  have shape : ("let " ++ name ++ " = " ++ value ++ ";").toList =
      "let".toList ++ ' ' :: (name.toList ++ " = ".toList ++ (value.toList ++ [';'])) := by
    simp
  have ends : unterminated (value.toList ++ [';']) = unterminated value.toList :=
    unterminated_semicolon he
  have start : trimStart (name.toList ++ " = ".toList ++ (value.toList ++ [';'])) =
      name.toList ++ " = ".toList ++ (value.toList ++ [';']) := by
    obtain ⟨c, cs, hc⟩ := List.exists_cons_of_ne_nil (by simpa using h0 : name.toList ≠ [])
    rw [hc]
    exact trimStart_cons (isBlank_of_isWordChar (hn c (by simp [hc]))) _
  refine emits_worded flat shape (by decide) (by decide) (by simp [isWordChar]) ?_ ?_
  · rw [String.toList_append]
    exact isTerminated_append (by decide) _
  · rw [Line.worded?, if_neg (by decide), if_neg (by decide), if_neg (by decide), if_pos rfl,
      asExpression_blank_cons (by decide), asExpression_eq, start,
      unterminated_append (by rw [ends]; exact hu), ends,
      Line.binding?_capture hn (by simpa [← String.toList_inj] using hm), String.ofList_toList]
    rfl

theorem joined_cons_cons (separator a b : String) (rest : List String) :
    Text.joined separator (a :: b :: rest) =
      a ++ separator ++ Text.joined separator (b :: rest) := by
  simp [Text.joined]

/-- A test, the statements it guards, and what these are read as. -/
structure Guarded where
  test : String
  texts : List String
  code : List (RustStmt String)
  flat : Flat test
  nonempty : test ≠ ""
  emits : Emits texts code

/-- **A chain of branches**, with a last block that may be absent. -/
theorem emitsBranch_chain (first : Guarded) (rest : List Guarded) (last? : Option (List String))
    {code : List (RustStmt String)} (hl : ∀ last ∈ last?, Emits last code)
    (hn : last? = none → code = []) :
    EmitsBranch
      (Text.joined " else " ((first :: rest).map (fun g => branchText g.test g.texts) ++
        (last?.map Fragment.block).toList))
      ((first :: rest).foldr (fun g no => [.branch g.test g.code no]) code) := by
  induction rest generalizing first with
  | nil =>
    cases last? with
    | none =>
      obtain rfl := hn rfl
      have single := emitsBranch_single first.flat.nested first.flat.single first.nonempty
        first.emits
      simpa [Text.joined] using single
    | some last =>
      have both := emitsBranch_else first.flat.nested first.flat.single first.nonempty first.emits
        (hl last (by simp))
      simpa [Text.joined] using both
  | cons second rest ih =>
    have both := emitsBranch_elseIf first.flat.nested first.flat.single first.nonempty first.emits
      (ih second)
    rw [List.map_cons, List.map_cons, List.cons_append, List.cons_append, joined_cons_cons]
    exact both

end

end Ferric
