import Ferric.Conversion.Functions
import Ferric.Proofs.ControlFlow
import Ferric.Proofs.Scope.Lowered

/-!
# Statements keep the bindings of variables

The text of a function body, and that of a switch at every place of it, is read back as structured
statements in which every reference resolves as in the program, if the check of captured names
succeeds.  It fails where it has to: the variables of a `for` header stay visible after the loop,
and braces that are taken away from an arm leave their variables to the rest of it.

## Main results

* `resolved_function`: references in the text of a function body.
* `not_resolved_leaking`: a variable of a `for` header captures a reference after the loop.
* `resolved_switchStmt`: references in the text of a switch.
* `not_resolved_unbraced`: a variable of a block in an arm captures a reference after the block.
-/

namespace Ferric

section

variable {α : Type} {reg : Registry} {node : α → Node}

/-- The text of a function body is read back as its lowered statements. -/
theorem read?_statements {body : Node} {cs : List (CStmt α)}
    (forms : HasForms reg node body.children cs) (entry : FunctionEntry) :
    RustStmt.read? (Text.stacked (Function.statements reg entry body).value) =
      some (CStmt.lowerAll reg node { result := entry.signature.result } cs).texts := by
  have emits := emits_forms forms fun c _ n form =>
    readsAs_lower form (fits_ofFunction entry.signature.result)
  rw [Draft.value_statementsOf, List.flatMap_map] at emits
  rw [Function.statements, Logged.value_flatMapList]
  exact emits.read?_stacked

/-- **Loops keep the bindings of variables.**  The text of a function body is read back as its
lowered statements.  If the check finds no captured name and different names are emitted
differently, then every reference in them, in the conditions, steps, checks and bodies of loops and
after them, is bound to the `let` of the declaration that the program binds it to; a name that the
program binds outside of the body is not bound by a `let`. -/
theorem resolved_function {body : Node} {cs : List (CStmt α)}
    (forms : HasForms reg node body.children cs) (entry : FunctionEntry)
    (apartNames : EmittedApart (vocabulary node (CStmt.usesAll node .empty cs)))
    (clear : CStmt.allClear node {} cs = true) :
    let code := CStmt.lowerAll reg node { result := entry.signature.result } cs
    RustStmt.read? (Text.stacked (Function.statements reg entry body).value) = some code.texts ∧
      code.Resolved reg node (CStmt.usesAll node .empty cs) .empty :=
  ⟨read?_statements forms entry,
    resolved_lowerAll forms (fun c _ => keepsBindings apartNames c)
      (Sound.start entry.signature.result) apartNames clear fun _ hu => hu⟩

/-- A variable that holds a number. -/
def Node.intVar (name : String) : Node :=
  { kind := .varDecl false false, spelling := name, type := .int true }

theorem isVariable_intVar {v : α} {name : String} (h : node v = .intVar name)
    (word : sanitize name ≠ "" ∧ ∀ c ∈ (sanitize name).toList, Chars.isWordChar c = true) :
    IsVariable reg node v where
  kind := ⟨false, false, by rw [h]; rfl⟩
  name := by rw [h]; exact word
  type := by
    rw [h]
    exact fun name hn => absurd hn List.not_mem_nil
  init := by
    intro init hi
    rw [h] at hi
    exact absurd hi (by simp [Node.initializer?, Node.intVar])
  stays := by rw [h]; rfl

def shortNames : List String :=
  ["g", "i", "j", "w", "y", "z"]

theorem isSimple_shortName {name : String} (h : name ∈ shortNames) :
    (Node.ref name).IsSimple {} := by
  have words : ∀ name ∈ shortNames, ∀ c ∈ name.toList, Chars.isWordChar c = true := by decide
  exact Node.isSimple_ref (words name h)

/-- The texts of a reference: as a statement, as a condition and as a value. -/
theorem texts_shortName : ∀ name ∈ shortNames,
    (Node.ref name).statementTexts {} = [name ++ ";"] ∧ (Node.ref name).conditionText {} ≠ "" ∧
      Fragment.asExpression ((Node.ref name).expressionText {}) ≠ "" := by
  decide +kernel

/-- A reference is its own only operand. -/
theorem operands_ref (name : String) : (Node.ref name).operands = [.ref name] := by
  simp [Node.operands_eq, Node.ref]

section Leaves

variable {leaf : Nat → Node} {k : Nat} {name : String} (h : name ∈ shortNames)

include h

theorem isVariable_shortName (hk : leaf k = .intVar name) : IsVariable {} leaf k := by
  have words : ∀ name ∈ shortNames,
      sanitize name ≠ "" ∧ ∀ c ∈ (sanitize name).toList, Chars.isWordChar c = true := by decide
  exact isVariable_intVar hk (words name h)

theorem hasForm_variable (hk : leaf k = .intVar name) :
    HasForm {} leaf { kind := .declStmt, children := [.intVar name] } (.decl [k]) := by
  refine .decl rfl (by rw [List.map_singleton, hk]) fun v hv => ?_
  rw [List.mem_singleton.1 hv]
  exact isVariable_shortName h hk

theorem hasForm_reference (hk : leaf k = .ref name) :
    HasForm {} leaf (.ref name) (.simple [k]) :=
  .simple (isSimple_shortName h) (by rw [List.map_singleton, hk, operands_ref])

theorem isTested_reference (hk : leaf k = .ref name) : IsTested {} leaf k where
  simple := by rw [hk]; exact isSimple_shortName h
  nonempty := by rw [hk]; exact (texts_shortName name h).2.1

end Leaves

/-- The leaves of a body, in order. -/
def loopLeaves : List Node :=
  [.intVar "i", .intVar "i", .ref "i", .ref "i", .intVar "j", .ref "j", .ref "j", .intVar "i",
    .ref "i", .ref "g"]

/-- A leaf by its number, so that equal leaves are told apart. -/
def loopLeaf (k : Nat) : Node :=
  loopLeaves.getD k { kind := .nullStmt }

/-- Loops in which names are declared again: `int i; for (int i; i; i) { int j; if (j) continue;
j; } do { int i; i; } while (g);` -/
def loopBody : Node :=
  { kind := .compoundStmt, children :=
    [{ kind := .declStmt, children := [.intVar "i"] },
      { kind := .forStmt, tokens := ["for", "(", "int", "i", ";", "i", ";", "i", ")", "\x7b"],
        children := [{ kind := .declStmt, children := [.intVar "i"] }, .ref "i", .ref "i",
          { kind := .compoundStmt, children :=
            [{ kind := .declStmt, children := [.intVar "j"] },
              { kind := .ifStmt, children := [.ref "j", { kind := .continueStmt }] },
              .ref "j"] }] },
      { kind := .doStmt, children :=
        [{ kind := .compoundStmt, children :=
          [{ kind := .declStmt, children := [.intVar "i"] }, .ref "i"] }, .ref "g"] }] }

/-- The statements of the body. -/
def loopStmts : List (CStmt Nat) :=
  [.decl [0], .forLoop (.decl [1]) (some 2) [3] (.block [.decl [4], .ifThen 5 .cont, .simple [6]]),
    .doLoop (.block [.decl [7], .simple [8]]) 9]

theorem hasForms_loopStmts : HasForms {} loopLeaf loopBody.children loopStmts := by
  have isI : "i" ∈ shortNames := by decide
  have isJ : "j" ∈ shortNames := by decide
  have isG : "g" ∈ shortNames := by decide
  refine .cons (hasForm_variable isI rfl) (.cons ?_ (.cons ?_ .nil))
  · refine @HasForm.forLoop Nat {} loopLeaf _ _
      (some { kind := .declStmt, children := [.intVar "i"] }) (some (.ref "i")) (some 2) _ _ [3] rfl
      ⟨["int", "i"], ["i"], ["i"], ["\x7b"], rfl, by decide, by decide, by decide, rfl⟩ rfl
      (.decl rfl rfl fun v hv => ?_) ?_ (.some (isSimple_shortName isI) (operands_ref "i").symm)
      (.block rfl (.cons (hasForm_variable isJ rfl) (.cons ?_ (.cons
        (hasForm_reference isJ rfl) .nil))))
    · rw [List.mem_singleton.1 hv]
      exact isVariable_shortName isI rfl
    · rintro test ⟨⟩
      exact isTested_reference isI rfl
    · exact .ifThen rfl rfl (isTested_reference isJ rfl) (.cont rfl rfl)
  · exact .doLoop rfl rfl (isTested_reference isG rfl) (.block rfl
      (.cons (hasForm_variable isI rfl) (.cons (hasForm_reference isI rfl) .nil)))

/-- A function without parameters and result. -/
def plainEntry : FunctionEntry :=
  ⟨"f", ⟨"f", [], .void, false⟩, .into "out"⟩

theorem resolved_function_redeclaring :
    HasForms {} loopLeaf loopBody.children loopStmts ∧
      EmittedApart (vocabulary loopLeaf (CStmt.usesAll loopLeaf .empty loopStmts)) ∧
      CStmt.allClear loopLeaf {} loopStmts = true ∧
      RustStmt.read? (Text.stacked (Function.statements {} plainEntry loopBody).value) =
        some (CStmt.lowerAll {} loopLeaf {} loopStmts).texts ∧
      Code.Resolved {} loopLeaf (CStmt.usesAll loopLeaf .empty loopStmts) .empty
        (CStmt.lowerAll {} loopLeaf {} loopStmts) := by
  have apartNames : EmittedApart
      (vocabulary loopLeaf (CStmt.usesAll loopLeaf .empty loopStmts)) := by decide
  have clear : CStmt.allClear loopLeaf {} loopStmts = true := by decide
  exact ⟨hasForms_loopStmts, apartNames, clear,
    resolved_function hasForms_loopStmts plainEntry apartNames clear⟩

/-! ## Variables of a header after the loop -/

/-- A `let` tells which declaration it comes from. -/
theorem declareCode_injective {v w : α} (h : declareCode reg node v = declareCode reg node w) :
    v = w := by
  have leaf := (RustStmt.declare.inj h).2
  exact List.singleton_inj.1 (congrArg Leaf.sites leaf)

/-- A declaration, a loop that declares the name again, and a reference to the first one. -/
def leakLeaf (k : Nat) : Node :=
  [Node.intVar "i", .intVar "i", .ref "i", .ref "i"].getD k { kind := .nullStmt }

/-- A body with these leaves: `int i; for (int i; i; ) ; i;` -/
def leakBody : Node :=
  { kind := .compoundStmt, children :=
    [{ kind := .declStmt, children := [.intVar "i"] },
      { kind := .forStmt, tokens := ["for", "(", "int", "i", ";", "i", ";", ")", ";"],
        children := [{ kind := .declStmt, children := [.intVar "i"] }, .ref "i",
          { kind := .nullStmt }] },
      .ref "i"] }

/-- The statements of the body. -/
def leakStmts : List (CStmt Nat) :=
  [.decl [0], .forLoop (.decl [1]) (some 2) [] .null, .simple [3]]

theorem hasForms_leakStmts : HasForms {} leakLeaf leakBody.children leakStmts := by
  have isI : "i" ∈ shortNames := by decide
  refine .cons (hasForm_variable isI rfl) (.cons ?_ (.cons (hasForm_reference isI rfl) .nil))
  refine @HasForm.forLoop Nat {} leakLeaf _ _
    (some { kind := .declStmt, children := [.intVar "i"] }) none (some 2) _ _ [] rfl
    ⟨["int", "i"], ["i"], [], [";"], rfl, by decide, by decide, by decide, rfl⟩ rfl
    (.decl rfl rfl fun v hv => ?_) ?_ .none (.null rfl rfl)
  · rw [List.mem_singleton.1 hv]
    exact isVariable_shortName isI rfl
  · rintro test ⟨⟩
    exact isTested_reference isI rfl

/-- **A variable of a `for` header captures a reference after the loop.**  The program binds the
last reference to the first declaration; the text binds it to the `let` of the header, which stands
beside the loop. -/
theorem not_resolved_leaking :
    HasForms {} leakLeaf leakBody.children leakStmts ∧
      EmittedApart (vocabulary leakLeaf (CStmt.usesAll leakLeaf .empty leakStmts)) ∧
      RustStmt.read? (Text.stacked (Function.statements {} plainEntry leakBody).value) =
        some (CStmt.lowerAll {} leakLeaf {} leakStmts).texts ∧
      ¬ Code.Resolved {} leakLeaf (CStmt.usesAll leakLeaf .empty leakStmts) .empty
        (CStmt.lowerAll {} leakLeaf {} leakStmts) := by
  refine ⟨hasForms_leakStmts, by decide, read?_statements hasForms_leakStmts plainEntry,
    fun resolved => ?_⟩
  -- the `let` of the header stands beside the one before it, and the last reference after both
  have texts : (leakLeaf 3).statementTexts {} = ["i;"] := (texts_shortName "i" (by decide)).1
  have shape : CStmt.lowerAll {} leakLeaf {} leakStmts =
      [declareCode {} leakLeaf 0, declareCode {} leakLeaf 1,
        .whileLoop (testLeaf {} leakLeaf 2) [], .simple (.ofText "i;" 3)] := by
    simp only [CStmt.lowerAll, leakStmts, CStmt.lower, CStmt.bodyOf, loopCode, simpleCodes,
      simpleCode, texts, List.flatMap_cons, List.flatMap_nil, List.map_cons, List.map_nil,
      List.append_nil, List.cons_append, List.nil_append]
  have last : (.ofText "i;" 3, RustStmt.scopeAll .empty
      [declareCode {} leakLeaf 0, declareCode {} leakLeaf 1]) ∈
        RustStmt.usesAll .empty (CStmt.lowerAll {} leakLeaf {} leakStmts) := by
    rw [shape]
    simp [RustStmt.usesAll, RustStmt.uses, declareCode, RustStmt.scope]
  obtain ⟨γ, mem, alike⟩ := resolved _ last 3 (List.mem_singleton.2 rfl)
  have program : γ = Scope.empty.set "i" 0 := by
    have places : CStmt.usesAll leakLeaf .empty leakStmts =
        [(0, Scope.empty.set "i" 0), (1, (Scope.empty.set "i" 0).set "i" 1),
          (2, (Scope.empty.set "i" 0).set "i" 1), (3, Scope.empty.set "i" 0)] := rfl
    simpa [places] using mem
  have same : some (declareCode {} leakLeaf 1) = some (declareCode {} leakLeaf 0) :=
    calc some (declareCode {} leakLeaf 1)
      _ = RustStmt.scopeAll .empty [declareCode {} leakLeaf 0, declareCode {} leakLeaf 1]
          (sanitize "i") := by
        rw [RustStmt.scopeAll_cons, RustStmt.scopeAll_cons, RustStmt.scopeAll_nil]
        exact (Scope.set_self _ (sanitize "i") _).symm
      _ = (γ "i").map (declareCode {} leakLeaf) := alike "i" (List.mem_singleton.2 rfl)
      _ = some (declareCode {} leakLeaf 0) := by rw [program, Scope.set_self]; rfl
  exact absurd (declareCode_injective (Option.some.inj same)) (by decide)

end

section

variable {α : Type} {reg : Registry} {node : α → Node} {U : List (α × Scope α)} {ctx : Context}
  {s : Setting α} {p : Place} {γ : Scope α} {ρ : Scope (RustStmt (Leaf α))}

/-- **Switches keep the bindings of variables.**  `U` holds the leaves of the program, each with the
scope it stands in, and the switch stands at any place at which `p` tells where the scope `γ` of the
program and the scope `ρ` of the text differ.  If the check finds no captured name and different
names are emitted differently, then every reference in the emitted switch is bound to the `let` of
the declaration that the program binds it to: by the text of the switch, or by what stands before
it; a name that the program binds outside of the body is not bound by a `let`. -/
theorem resolved_switchStmt {n : Node} {x : α} {items : List (CStmt α)}
    (form : HasForm reg node n (.switch x items)) (fits : Fits ctx s)
    (sound : Sound reg node U s p γ ρ) (apartNames : EmittedApart (vocabulary node U))
    (clear : (CStmt.switch x items).isClear node p = true)
    (uses : ∀ u ∈ (CStmt.switch x items).uses node γ, u ∈ U) :
    let code := (CStmt.switch x items).lower reg node s
    RustStmt.read? (Text.stacked (n.emitStatements reg ctx).value) = some code.texts ∧
      code.Resolved reg node U ρ :=
  ⟨(readsAs_lower form fits).statements.read?_stacked,
    (keepsBindings apartNames (.switch x items) form sound clear uses).1⟩

end

/-- The leaves of a switch, after the declaration of a variable. -/
def armLeaves : List Node :=
  [.intVar "y", .callOf "f", .constant "1", .intVar "y", .ref "y", .constant "2", .intVar "z",
    .intVar "w", .ref "w", .ref "z", .ref "y"]

def armLeaf (k : Nat) : Node :=
  armLeaves.getD k { kind := .nullStmt }

/-- A switch in which names are declared again: `switch (f()) { case 1: { int y; y; } break;
case 2: int z; { int w; w; } z; break; default: y; }` -/
def armNode : Node :=
  { kind := .switchStmt, children := [.callOf "f", { kind := .compoundStmt, children :=
    [{ kind := .caseStmt, children := [.constant "1", { kind := .compoundStmt, children :=
        [{ kind := .declStmt, children := [.intVar "y"] }, .ref "y"] }] },
      { kind := .breakStmt },
      { kind := .caseStmt, children := [.constant "2",
        { kind := .declStmt, children := [.intVar "z"] }] },
      { kind := .compoundStmt, children :=
        [{ kind := .declStmt, children := [.intVar "w"] }, .ref "w"] },
      .ref "z", { kind := .breakStmt },
      { kind := .defaultStmt, children := [.ref "y"] }] }] }

def armItems : List (CStmt Nat) :=
  [.labelled [2] false true [.decl [3], .simple [4]], .brk, .labelled [5] false false [.decl [6]],
    .block [.decl [7], .simple [8]], .simple [9], .brk, .labelled [] true false [.simple [10]]]

theorem hasForm_armNode : HasForm {} armLeaf armNode (.switch 1 armItems) := by
  have isW : "w" ∈ shortNames := by decide
  have isY : "y" ∈ shortNames := by decide
  have isZ : "z" ∈ shortNames := by decide
  have value : IsUsed {} armLeaf 1 :=
    ⟨isSimple_callOf "f" (by simp), (texts_callOf "f" (by simp)).1⟩
  refine .switch rfl rfl value rfl ?_
  refine .braced rfl (.case rfl rfl (isSimple_constant _ (by simp)) (.stop rfl)) rfl
    (.cons (hasForm_variable isY rfl) (.cons (hasForm_reference isY rfl) .nil)) ?_
  refine .plain rfl (.brk rfl rfl) ?_
  refine .labelled rfl (.case rfl rfl (isSimple_constant _ (by simp)) (.stop rfl)) (by simp)
    (hasForm_variable isZ rfl) ?_
  refine .plain rfl (.block rfl
    (.cons (hasForm_variable isW rfl) (.cons (hasForm_reference isW rfl) .nil))) ?_
  refine .plain rfl (hasForm_reference isZ rfl) (.plain rfl (.brk rfl rfl) ?_)
  exact .labelled rfl (.default rfl rfl (.stop rfl)) (by simp [Node.ref])
    (hasForm_reference isY rfl) .nil

/-- The leaves of the switch with their scopes, in the scope of the variable before it. -/
def armUses : List (Nat × Scope Nat) :=
  (CStmt.switch 1 armItems).uses armLeaf (Scope.empty.set "y" 0)

theorem resolved_switchStmt_redeclaring :
    HasForm {} armLeaf armNode (.switch 1 armItems) ∧
      Sound {} armLeaf armUses {} (CStmt.afterVariable armLeaf {} 0) (Scope.empty.set "y" 0)
        (Scope.empty.set (sanitize "y") (declareCode {} armLeaf 0)) ∧
      EmittedApart (vocabulary armLeaf armUses) ∧
      (CStmt.switch 1 armItems).isClear armLeaf (CStmt.afterVariable armLeaf {} 0) = true ∧
      RustStmt.read? (Text.stacked
          (armNode.emitStatements {} (Context.ofFunction .void)).value) =
        some ((CStmt.switch 1 armItems).lower {} armLeaf {}).texts ∧
      Code.Resolved {} armLeaf armUses
        (Scope.empty.set (sanitize "y") (declareCode {} armLeaf 0))
        ((CStmt.switch 1 armItems).lower {} armLeaf {}) := by
  have apartNames : EmittedApart (vocabulary armLeaf armUses) := by decide
  have clear : (CStmt.switch 1 armItems).isClear armLeaf (CStmt.afterVariable armLeaf {} 0) =
      true := by decide
  have sound : Sound {} armLeaf armUses {} (CStmt.afterVariable armLeaf {} 0)
      (Scope.empty.set "y" 0) (Scope.empty.set (sanitize "y") (declareCode {} armLeaf 0)) :=
    (Sound.start .void).declare apartNames (by decide)
  exact ⟨hasForm_armNode, sound, apartNames, clear,
    resolved_switchStmt hasForm_armNode (fits_ofFunction .void) sound apartNames clear
      fun _ hu => hu⟩

/-! ## Variables of a block in an arm -/

/-- The value of a switch, a label, a declaration in a block and a reference after the block. -/
def unbracedLeaf (k : Nat) : Node :=
  [Node.ref "i", .constant "1", .intVar "y", .ref "y"].getD k { kind := .nullStmt }

/-- A switch with these leaves: `switch (i) { case 1: { int y; } y; }` -/
def unbracedNode : Node :=
  { kind := .switchStmt, children := [.ref "i", { kind := .compoundStmt, children :=
    [{ kind := .caseStmt, children := [.constant "1", { kind := .compoundStmt, children :=
        [{ kind := .declStmt, children := [.intVar "y"] }] }] },
      .ref "y"] }] }

/-- The statement that it is. -/
def unbracedStmt : CStmt Nat :=
  .switch 0 [.labelled [1] false true [.decl [2]], .simple [3]]

theorem hasForm_unbraced : HasForm {} unbracedLeaf unbracedNode unbracedStmt := by
  have isI : "i" ∈ shortNames := by decide
  have isY : "y" ∈ shortNames := by decide
  refine .switch rfl rfl ⟨isSimple_shortName isI, (texts_shortName "i" isI).2.2⟩ rfl ?_
  refine .braced rfl (.case rfl rfl (isSimple_constant _ (by simp)) (.stop rfl)) rfl
    (.cons (hasForm_variable isY rfl) .nil) ?_
  exact .plain rfl (hasForm_reference isY rfl) .nil

/-- **A variable of a block in an arm captures a reference after the block.**  The program binds the
reference outside of the switch; the text binds it to the `let` of the block, whose braces are taken
away. -/
theorem not_resolved_unbraced :
    HasForm {} unbracedLeaf unbracedNode unbracedStmt ∧
      EmittedApart (vocabulary unbracedLeaf (unbracedStmt.uses unbracedLeaf .empty)) ∧
      RustStmt.read? (Text.stacked
          (unbracedNode.emitStatements {} (Context.ofFunction .void)).value) =
        some (unbracedStmt.lower {} unbracedLeaf {}).texts ∧
      ¬ Code.Resolved {} unbracedLeaf (unbracedStmt.uses unbracedLeaf .empty) .empty
        (unbracedStmt.lower {} unbracedLeaf {}) := by
  refine ⟨hasForm_unbraced, by decide, read?_emitStatements hasForm_unbraced .void,
    fun resolved => ?_⟩
  -- the `let` of the block and the reference after it stand side by side in the branch
  have texts : (unbracedLeaf 3).statementTexts {} = ["y;"] := (texts_shortName "y" (by decide)).1
  have shape : unbracedStmt.lower {} unbracedLeaf {} =
      [.branch (armTest {} unbracedLeaf ((unbracedLeaf 0).expressionText {}) [0] [1])
        [declareCode {} unbracedLeaf 2, .simple (.ofText "y;" 3)] []] := by
    have arm : CStmt.lowerAll {} unbracedLeaf (Setting.inSwitch {} none)
        [.decl [2], .simple [3]] =
          [declareCode {} unbracedLeaf 2, .simple (.ofText "y;" 3)] := by
      simp only [CStmt.lowerAll, CStmt.lower, simpleCodes, simpleCode, texts, List.flatMap_cons,
        List.flatMap_nil, List.map_cons, List.map_nil, List.append_nil, List.cons_append,
        List.nil_append]
    rw [unbracedStmt, CStmt.lower_switch, ← arm]
    rfl
  have last : (.ofText "y;" 3, RustStmt.scopeAll .empty [declareCode {} unbracedLeaf 2]) ∈
      RustStmt.usesAll .empty (unbracedStmt.lower {} unbracedLeaf {}) := by
    rw [shape]
    simp [RustStmt.usesAll, RustStmt.uses, declareCode, RustStmt.scope]
  obtain ⟨γ, mem, alike⟩ := resolved _ last 3 (List.mem_singleton.2 rfl)
  have program : γ = Scope.empty := by
    have places : unbracedStmt.uses unbracedLeaf .empty =
        [(0, Scope.empty), (1, Scope.empty), (2, Scope.empty.set "y" 2), (3, Scope.empty)] := rfl
    simpa [places] using mem
  have captured : some (declareCode {} unbracedLeaf 2) = none :=
    calc some (declareCode {} unbracedLeaf 2)
      _ = RustStmt.scopeAll .empty [declareCode {} unbracedLeaf 2] (sanitize "y") := by
        rw [RustStmt.scopeAll_cons, RustStmt.scopeAll_nil]
        exact (Scope.set_self _ (sanitize "y") _).symm
      _ = (γ "y").map (declareCode {} unbracedLeaf) := alike "y" (List.mem_singleton.2 rfl)
      _ = none := by rw [program]; rfl
  exact absurd captured (Option.some_ne_none _)

end Ferric
