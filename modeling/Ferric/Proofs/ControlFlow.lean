import Ferric.Proofs.Flow.Switch
import Ferric.Proofs.Meaning.Faithful

/-!
# Statements keep their executions

The text of a statement, read back as structured control flow, has exactly the executions of the
statement, whatever its conditions and simple statements mean.  With switches this holds unless a
note reports an arm that falls through, or the program itself mentions a generated name where it is
bound.

## Main definitions

* `Interp.comparing`: an interpretation whose comparisons compare.

## Main results

* `exists_read_run_eq_meaning`: the executions of the text of a statement without switches.
* `exists_read_run_eq_meaning_of_silent`: those of the text of a statement with switches.
* `run_ne_meaning_captured`: a variable with the name of the bound value changes the executions.
-/

namespace Ferric

section

open CStmt Code

/-! ## Statements without generated names -/

section Clean

variable {α : Type}

/-- Statements that bind no generated name. -/
structure Code.Clean (code : Code α) : Prop where
  avoids_append : ∀ rest : Code α, rest.Avoids [] → Code.Avoids [] (code ++ rest)

theorem Code.clean_nil : Code.Clean ([] : Code α) :=
  ⟨fun _ h => h⟩

theorem Code.Clean.append {a b : Code α} (ha : a.Clean) (hb : b.Clean) : (a ++ b).Clean := by
  refine ⟨fun rest h => ?_⟩
  rw [List.append_assoc]
  exact ha.avoids_append _ (hb.avoids_append rest h)

theorem Code.Clean.avoids {code : Code α} (h : code.Clean) : code.Avoids [] := by
  have alone := h.avoids_append [] trivial
  rwa [List.append_nil] at alone

theorem Code.clean_single {s : RustStmt (Leaf α)} (hc : ∀ name value, s ≠ .capture name value)
    (h : s.Avoids []) : Code.Clean [s] := by
  refine ⟨fun rest hr => ?_⟩
  cases s with
  | capture name value => exact absurd rfl (hc name value)
  | _ => exact ⟨h, hr⟩

theorem Leaf.avoids_nil (l : Leaf α) : l.Avoids [] := by
  intro part _ name hn
  exact absurd hn (List.not_mem_nil)

theorem Code.clean_map {β : Type} {f : β → RustStmt (Leaf α)} (xs : List β)
    (h : ∀ x, Code.Clean [f x]) : Code.Clean (xs.map f) := by
  induction xs with
  | nil => exact clean_nil
  | cons x xs ih => exact (h x).append ih

variable {reg : Registry} {node : α → Node}

theorem clean_simpleCodes (xs : List α) : Code.Clean (simpleCodes reg node xs) := by
  induction xs with
  | nil => exact clean_nil
  | cons x xs ih =>
    have first : Code.Clean (simpleCode reg node x) :=
      clean_map _ fun text => clean_single (by simp) (Leaf.avoids_nil _)
    exact first.append ih

theorem clean_lowerAll {cs : List (CStmt α)} {s : Setting α}
    (h : ∀ c ∈ cs, (c.lower reg node s).Clean) : Code.Clean (lowerAll reg node s cs) := by
  rw [lowerAll]
  induction cs with
  | nil => exact clean_nil
  | cons c cs ih =>
    rw [List.flatMap_cons]
    exact (h c (by simp)).append (ih fun d hd => h d (by simp [hd]))

theorem clean_loopCode {test? : Option α} {body : Code α} (h : body.Clean) :
    Code.Clean [loopCode reg node test? body] := by
  cases test? with
  | some test => exact clean_single (by simp [loopCode]) ⟨Leaf.avoids_nil _, h.avoids⟩
  | none => exact clean_single (by simp [loopCode]) h.avoids

theorem clean_exitCode (test : α) : Code.Clean [exitCode reg node test] :=
  clean_single (by simp [exitCode]) ⟨Leaf.avoids_nil _, ⟨trivial, trivial⟩, trivial⟩

theorem clean_returnCode (result : CType) (value : α) :
    Code.Clean (returnCode reg node result value) := by
  rw [returnCode]
  split
  · have first : Code.Clean [.simple (.ofText ((node value).expressionText reg ++ ";") value)] :=
      clean_single (by simp) (Leaf.avoids_nil _)
    exact first.append (clean_single (by simp) trivial)
  · exact clean_single (by simp) (Leaf.avoids_nil _)

theorem clean_decl (vs : List α) : Code.Clean (vs.map (declareCode reg node)) :=
  clean_map vs fun v => clean_single (by simp [declareCode]) (Leaf.avoids_nil _)

/-- Without switches no name is generated. -/
theorem clean_lower {n : Node} {c : CStmt α} (form : HasForm reg node n c) (h : c.switches = [])
    {s : Setting α} (hs : s.step.Clean) :
    (c.lower reg node s).Clean ∧ (c.bodyOf (c.lower reg node s)).Clean := by
  induction c using CStmt.induct generalizing n s with
  | null =>
    rw [lower]
    exact and_bodyOf clean_nil (by simp)
  | simple operands =>
    rw [lower]
    exact and_bodyOf (clean_simpleCodes operands) (by simp)
  | decl vs =>
    rw [lower]
    exact and_bodyOf (clean_decl vs) (by simp)
  | block body ih =>
    cases form with | block kind all =>
    rw [switches, switchesAll_eq_flatMap, List.flatMap_eq_nil_iff] at h
    have inside : Code.Clean (lowerAll reg node s body) := by
      refine clean_lowerAll fun c hc => ?_
      obtain ⟨n, -, form⟩ := all.exists_of_mem hc
      exact (ih c hc form (h c hc) hs).1
    rw [lower_block]
    exact ⟨clean_single (by simp) inside.avoids, inside⟩
  | ifThen test yes ih =>
    cases form with | ifThen kind children condition form =>
    have inside := ih form h hs
    rw [lower]
    exact and_bodyOf (clean_single (by simp)
      ⟨Leaf.avoids_nil _, inside.2.avoids, trivial⟩) (by simp)
  | ifElse test yes no ihy ihn =>
    cases form with | ifElse kind children condition formYes formNo =>
    rw [switches, List.append_eq_nil_iff] at h
    have insideYes := ihy formYes h.1 hs
    have insideNo := ihn formNo h.2 hs
    rw [lower]
    exact and_bodyOf (clean_single (by simp)
      ⟨Leaf.avoids_nil _, insideYes.2.avoids, insideNo.2.avoids⟩) (by simp)
  | whileLoop test body ih =>
    cases form with | whileLoop kind children condition form =>
    have inside := ih (s := s.inLoop []) form h clean_nil
    rw [lower]
    exact and_bodyOf (@clean_loopCode _ reg node (some test) _ inside.2) (by simp)
  | doLoop body test ih =>
    cases form with | doLoop kind children condition form =>
    have check : Code.Clean [exitCode reg node test] := clean_exitCode test
    have inside := ih (s := s.inLoop _) form h check
    rw [lower]
    exact and_bodyOf (@clean_loopCode _ reg node none _ (inside.2.append check)) (by simp)
  | forLoop init test? steps body ihi ihb =>
    cases form with | forLoop kind header children hasInit condition hasStep form =>
    rw [switches, List.append_eq_nil_iff] at h
    have step : Code.Clean (simpleCodes reg node steps) := clean_simpleCodes steps
    have first : (init.lower reg node s).Clean := by
      cases hasInit with
      | none => exact clean_nil
      | simple => exact clean_simpleCodes _
      | decl => exact clean_decl _
    have inside := ihb (s := s.inLoop _) form h.2 step
    rw [lower]
    exact and_bodyOf (first.append (clean_loopCode (inside.2.append step))) (by simp)
  | ret value? =>
    cases value? with
    | none =>
      rw [lower]
      exact and_bodyOf (clean_single (by simp) trivial) (by simp)
    | some value =>
      rw [lower]
      exact and_bodyOf (clean_returnCode s.result value) (by simp)
  | brk =>
    rw [lower]
    exact and_bodyOf (clean_single (by simp) trivial) (by simp)
  | cont =>
    rw [lower]
    exact and_bodyOf (hs.append (clean_single (by simp) trivial)) (by simp)
  | switch x items => simp [switches] at h
  | labelled => exact absurd rfl form.ne_labelled

end Clean

/-! ## Executions of the emitted text -/

/-- **Loops and branches keep their executions.**  The text of a statement without switches is read
back as structured statements, and whatever its conditions, values and simple statements mean, these
have exactly the executions of the statement: a `continue` runs the step of its `for` or the check
of its `do`, and jumps concern the innermost loop. -/
theorem exists_read_run_eq_meaning {reg : Registry} {n : Node} {c : CStmt Node}
    (form : HasForm reg id n c) (noSwitch : c.switches = []) (result : CType) :
    ∃ prog, RustStmt.read?
        (Text.stacked (n.emitStatements reg (Context.ofFunction result)).value) = some prog ∧
      ∀ (σ V : Type) [DecidableEq V] (I : Interp σ V),
        RustStmt.run I .empty prog = c.meaning reg id I result := by
  refine ⟨_, read?_emitStatements form result, fun σ V _ I => ?_⟩
  have clean := (clean_lower form noSwitch (s := { result }) Code.clean_nil).1
  have none : ∀ sw, sw ∉ c.switches := by simp [noSwitch]
  exact run_lower form (CStmt.quiet_of_switches_eq_nil form noSwitch)
    (fun sw hs => absurd hs (none sw)) (fun sw hs => absurd hs (none sw)) clean.avoids

/-- A reference to a number. -/
def Node.ref (name : String) : Node :=
  { kind := .declRefExpr, spelling := name, type := .int true }

theorem Node.isSimple_ref {name : String} (h : ∀ c ∈ name.toList, Chars.isWordChar c = true) :
    (Node.ref name).IsSimple {} := by
  intro m hm
  obtain rfl : m = Node.ref name := by
    rw [Node.walk_eq] at hm
    simpa [Node.ref] using hm
  refine ⟨rfl, fun word hw => ?_⟩
  obtain rfl : word = sanitize name := List.mem_singleton.1 hw
  exact neat_sanitize h

/-- A loop with every kind of jump: `for (i; j; k, l) do { if (a) continue; while (b) { if (c)
break; else return; } continue; } while (e);` -/
def jumpingNode : Node :=
  { kind := .forStmt,
    tokens := ["for", "(", "i", ";", "j", ";", "k", ",", "l", ")", "do"],
    children := [.ref "i", .ref "j",
      { kind := .binaryOperator .comma, children := [.ref "k", .ref "l"] },
      { kind := .doStmt, children :=
        [{ kind := .compoundStmt, children :=
          [{ kind := .ifStmt, children := [.ref "a", { kind := .continueStmt }] },
            { kind := .whileStmt, children := [.ref "b",
              { kind := .ifStmt, children :=
                [.ref "c", { kind := .breakStmt }, { kind := .returnStmt }] }] },
            { kind := .continueStmt }] },
          .ref "e"] }] }

/-- The statement that it is. -/
def jumpingStmt : CStmt Node :=
  .forLoop (.simple [.ref "i"]) (some (.ref "j")) [.ref "k", .ref "l"] <|
    .doLoop (.block [.ifThen (.ref "a") .cont,
      .whileLoop (.ref "b") (.ifElse (.ref "c") .brk (.ret none)), .cont]) (.ref "e")

theorem hasForm_jumping : HasForm {} id jumpingNode jumpingStmt := by
  have words : ∀ name ∈ ["i", "j", "a", "b", "c", "e"], ∀ c ∈ name.toList,
      Chars.isWordChar c = true := by decide
  have simple : ∀ name ∈ ["i", "j", "a", "b", "c", "e"], (Node.ref name).IsSimple {} :=
    fun name hn => Node.isSimple_ref (words name hn)
  have condition : ∀ name ∈ ["j", "a", "b", "c", "e"], IsTested {} id (Node.ref name) := by
    intro name hn
    refine ⟨simple name (List.mem_cons_of_mem _ hn), ?_⟩
    have texts : ∀ name ∈ ["j", "a", "b", "c", "e"], (Node.ref name).conditionText {} ≠ "" := by
      decide +kernel
    exact texts name hn
  refine @HasForm.forLoop Node {} id jumpingNode _ (some (.ref "i"))
    (some { kind := .binaryOperator .comma, children := [.ref "k", .ref "l"] })
    (some (.ref "j")) _ _ [.ref "k", .ref "l"] rfl
    ⟨["i"], ["j"], ["k", ",", "l"], ["do"], rfl, by decide, by decide, by decide, rfl⟩ rfl
    (.simple (simple "i" (by simp)) (by simp [Node.operands_eq, Node.ref])) ?_
    (.some ?_ (by simp [Node.operands_eq, Node.ref])) ?_
  · rintro test ⟨⟩
    exact condition "j" (by simp)
  · decide
  · refine .doLoop rfl rfl (condition "e" (by simp))
      (.block rfl (.cons ?_ (.cons ?_ (.cons ?_ .nil))))
    · exact .ifThen rfl rfl (condition "a" (by simp)) (.cont rfl rfl)
    · refine .whileLoop rfl rfl (condition "b" (by simp)) ?_
      exact .ifElse rfl rfl (condition "c" (by simp)) (.brk rfl rfl) (.retNone rfl rfl)
    · exact .cont rfl rfl

theorem exists_read_run_eq_meaning_jumping :
    HasForm {} id jumpingNode jumpingStmt ∧ jumpingStmt.switches = [] ∧
      ∃ prog, RustStmt.read?
          (Text.stacked (jumpingNode.emitStatements {} (Context.ofFunction .void)).value) =
            some prog ∧
        ∀ (σ V : Type) [DecidableEq V] (I : Interp σ V),
          RustStmt.run I .empty prog = jumpingStmt.meaning {} id I .void :=
  ⟨hasForm_jumping, rfl, exists_read_run_eq_meaning hasForm_jumping rfl .void⟩

end

section

open Behaviour Node

/-! ## Comparisons that compare -/

namespace Interp

variable {σ V : Type}

/-- The interpretation with comparisons as they are. -/
def comparing (I : Interp σ V) : Interp σ V :=
  { I with test := fun ρ a =>
      match a with
      | .oneOf text values => I.compare ρ text values
      | .text _ => I.test ρ a }

theorem compares_comparing (I : Interp σ V) : I.comparing.Compares := by
  intro ρ text values
  show I.compare ρ text values = I.comparing.compare ρ text values
  induction values with
  | nil => rfl
  | cons value values ih =>
    funext st b st'
    rw [compare, compare, ih]
    rfl

/-- An interpretation in which every expression is its own text, and nothing is done. -/
def textual : Interp Unit String :=
  comparing
    { act := fun _ _ _ _ => True
      eval := fun _ text => readOff fun _ => text
      test := fun _ _ => .always
      label := id }

theorem switchLaws_textual {α : Type} {reg : Registry} {node : α → Node}
    {sw : α × List (CStmt α)}
    (h : ((sw.2.flatMap CStmt.itemLabels).map fun l => (node l).expressionText reg).Nodup) :
    SwitchLaws textual reg node sw where
  compares := compares_comparing _
  values := h
  const _ _ := rfl
  reads _ := ⟨_, rfl⟩

end Interp

/-! ## Executions of the emitted text -/

/-- **Switches keep their executions**, unless an arm falls through and is reported, or the program
mentions the name of the value of a switch where that name is bound.  The text is read back as
structured statements.  Under every interpretation in which comparisons compare, labels are
different constants and variables may be read again, these have exactly the executions of the
statement: the value is evaluated once, the arm with that value is chosen, else the default, and a
`break` leaves the switch. -/
theorem exists_read_run_eq_meaning_of_silent {reg : Registry} {n : Node} {c : CStmt Node}
    (form : HasForm reg id n c) (texts : ∀ sw ∈ c.switches, SwitchTexts reg id sw)
    (result : CType) (silent : (n.emitStatements reg (Context.ofFunction result)).Silent)
    (avoids : (c.lower reg id { result }).Avoids []) :
    ∃ prog, RustStmt.read?
        (Text.stacked (n.emitStatements reg (Context.ofFunction result)).value) = some prog ∧
      ∀ (σ V : Type) [DecidableEq V] (I : Interp σ V),
        (∀ sw ∈ c.switches, SwitchLaws I reg id sw) →
          RustStmt.run I .empty prog = c.meaning reg id I result :=
  ⟨_, read?_emitStatements form result, fun _ _ _ _ laws =>
    run_lower form (quiet_of_silent form silent) texts laws avoids⟩

def Node.constant (token : String) : Node :=
  { kind := .integerLiteral, type := .int true, tokens := [token] }

def Node.callOf (name : String) : Node :=
  { kind := .callExpr, spelling := name, type := .int true, children := [.ref name] }

theorem isSimple_constant : ∀ token ∈ ["1", "2", "3"], (constant token).IsSimple {} := by
  decide

theorem isSimple_callOf : ∀ name ∈ ["f", "h"], (callOf name).IsSimple {} := by
  decide

/-- The texts of a call: as a value, as the value of a switch and as a statement. -/
theorem texts_callOf : ∀ name ∈ ["f", "h"],
    Fragment.asExpression ((callOf name).expressionText {}) ≠ "" ∧
      (callOf name).scrutineeText {} = name ++ "()" ∧
      (callOf name).statementTexts {} = [name ++ "();"] := by
  decide +kernel

/-- A switch in a loop, with a second one in its default: `while (w) switch (f()) { case 1: case 2:
if (a) break; continue; default: switch (x) { case 3: { h; break; } } break; case 3: return; }` -/
def selectingNode : Node :=
  { kind := .whileStmt, children := [.ref "w",
    { kind := .switchStmt, children := [.callOf "f", { kind := .compoundStmt, children :=
      [{ kind := .caseStmt, children := [.constant "1",
          { kind := .caseStmt, children := [.constant "2",
            { kind := .ifStmt, children := [.ref "a", { kind := .breakStmt }] }] }] },
        { kind := .continueStmt },
        { kind := .defaultStmt, children :=
          [{ kind := .switchStmt, children := [.ref "x", { kind := .compoundStmt, children :=
            [{ kind := .caseStmt, children := [.constant "3",
              { kind := .compoundStmt, children := [.ref "h", { kind := .breakStmt }] }] }] }] }] },
        { kind := .breakStmt },
        { kind := .caseStmt, children := [.constant "3", { kind := .returnStmt }] }] }] }] }

/-- The statement that it is. -/
def selectingStmt : CStmt Node :=
  .whileLoop (.ref "w") <| .switch (.callOf "f")
    [.labelled [.constant "1", .constant "2"] false false [.ifThen (.ref "a") .brk], .cont,
      .labelled [] true false
        [.switch (.ref "x") [.labelled [.constant "3"] false true [.simple [.ref "h"], .brk]]],
      .brk, .labelled [.constant "3"] false false [.ret none]]

theorem texts_selecting :
    (∀ name ∈ ["w", "a"], (ref name).conditionText {} ≠ "") ∧
      Fragment.asExpression ((ref "x").expressionText {}) ≠ "" ∧
      (∀ sw ∈ selectingStmt.switches, SwitchTexts {} id sw) ∧
      (selectingStmt.lower {} id {}).Avoids [] ∧
      ∀ sw ∈ selectingStmt.switches, ((sw.2.flatMap CStmt.itemLabels).map fun l =>
        (id l : Node).expressionText {}).Nodup := by
  decide +kernel

theorem hasForm_selecting : HasForm {} id selectingNode selectingStmt := by
  have words : ∀ name ∈ ["w", "a", "x", "h"], ∀ c ∈ name.toList, Chars.isWordChar c = true := by
    decide
  have simple : ∀ name ∈ ["w", "a", "x", "h"], (ref name).IsSimple {} :=
    fun name hn => isSimple_ref (words name hn)
  obtain ⟨nonempty, nonempty', -⟩ := texts_selecting
  have condition : ∀ name ∈ ["w", "a"], IsTested {} id (ref name) := by
    intro name hn
    exact ⟨simple name (List.mem_append_left ["x", "h"] hn), nonempty name hn⟩
  have value : IsUsed {} id (callOf "f") :=
    ⟨isSimple_callOf "f" (by simp), (texts_callOf "f" (by simp)).1⟩
  have value' : IsUsed {} id (ref "x") := ⟨simple "x" (by simp), nonempty'⟩
  refine .whileLoop rfl rfl (condition "w" (by simp)) (.switch rfl rfl value rfl ?_)
  refine .labelled rfl (.case rfl rfl (isSimple_constant "1" (by simp))
    (.case rfl rfl (isSimple_constant "2" (by simp)) (.stop rfl))) (by simp)
    (.ifThen rfl rfl (condition "a" (by simp)) (.brk rfl rfl)) ?_
  refine .plain rfl (.cont rfl rfl) ?_
  refine .labelled rfl (.default rfl rfl (.stop rfl)) (by simp) (.switch rfl rfl value' rfl ?_)
    (.plain rfl (.brk rfl rfl) (.labelled rfl
      (.case rfl rfl (isSimple_constant "3" (by simp)) (.stop rfl)) (by simp) (.retNone rfl rfl)
      .nil))
  exact .braced rfl (.case rfl rfl (isSimple_constant "3" (by simp)) (.stop rfl)) rfl
    (.cons (.simple (simple "h" (by simp)) (by simp [operands_eq, ref]))
      (.cons (.brk rfl rfl) .nil)) .nil

theorem exists_read_run_eq_meaning_of_silent_selecting :
    HasForm {} id selectingNode selectingStmt ∧
      (∀ sw ∈ selectingStmt.switches, SwitchTexts {} id sw) ∧
      (selectingNode.emitStatements {} (Context.ofFunction .void)).Silent ∧
      (selectingStmt.lower {} id {}).Avoids [] ∧
      (∀ sw ∈ selectingStmt.switches, SwitchLaws Interp.textual {} id sw) ∧
      ∃ prog, RustStmt.read?
          (Text.stacked (selectingNode.emitStatements {} (Context.ofFunction .void)).value) =
            some prog ∧
        RustStmt.run Interp.textual .empty prog =
          selectingStmt.meaning {} id Interp.textual .void := by
  have silent : (selectingNode.emitStatements {} (Context.ofFunction .void)).Silent := by decide
  obtain ⟨-, -, texts, avoids, values⟩ := texts_selecting
  have laws : ∀ sw ∈ selectingStmt.switches, SwitchLaws Interp.textual {} id sw :=
    fun sw hs => Interp.switchLaws_textual (values sw hs)
  obtain ⟨prog, read, same⟩ :=
    exists_read_run_eq_meaning_of_silent hasForm_selecting texts .void silent avoids
  exact ⟨hasForm_selecting, texts, silent, avoids, laws, prog, read, same _ _ _ laws⟩

/-! ## Captured names -/

/-- A switch whose arm asks for a variable with the name of the bound value:
`switch (f()) { case 1: if (switch_value) h(); }` -/
def capturingNode : Node :=
  { kind := .switchStmt, children := [.callOf "f", { kind := .compoundStmt, children :=
    [{ kind := .caseStmt, children := [.constant "1",
      { kind := .ifStmt, children := [.ref "switch_value", .callOf "h"] }] }] }] }

def capturingItems : List (CStmt Node) :=
  [.labelled [.constant "1"] false false
    [.ifThen (.ref "switch_value") (.simple [.callOf "h"])]]

/-- The statement that it is. -/
def capturingStmt : CStmt Node :=
  .switch (.callOf "f") capturingItems

theorem texts_capturing :
    (ref "switch_value").conditionText {} = "switch_value != 0" ∧
      (armTest {} id "switch_value" [] [constant "1"]).text = "switch_value == 1" ∧
      Test.ofText "switch_value == 1" = .atom (.oneOf "switch_value" ["1"]) ∧
      Test.ofText "switch_value != 0" = .atom (.text "switch_value != 0") ∧
      ∀ sw ∈ capturingStmt.switches, SwitchTexts {} id sw := by
  decide +kernel

theorem hasForm_capturing : HasForm {} id capturingNode capturingStmt := by
  have nonempty : (ref "switch_value").conditionText {} ≠ "" := by
    rw [texts_capturing.1]
    decide
  refine .switch rfl rfl ⟨isSimple_callOf "f" (by simp), (texts_callOf "f" (by simp)).1⟩ rfl ?_
  refine .labelled rfl (.case rfl rfl (isSimple_constant "1" (by simp)) (.stop rfl)) (by simp) ?_
    .nil
  refine .ifThen rfl rfl ⟨isSimple_ref (by decide), nonempty⟩ ?_
  exact .simple (isSimple_callOf "h" (by simp)) (by simp [operands_eq, callOf])

/-- Calls give one and are recorded; the variables of the program are zero, and a condition holds
only if it asks for a generated name. -/
def Interp.recording : Interp Bool Nat :=
  comparing
    { act := fun _ _ _ st' => st' = true
      eval := fun _ _ => readOff fun _ => 1
      test := fun ρ _ => readOff fun _ => (ρ "switch_value").isSome
      label := fun _ => 1 }

theorem texts_lower_capturing : Code.texts (capturingStmt.lower {} id {}) =
    [.block none [.capture "switch_value" "f()",
      .branch "switch_value == 1" [.branch "switch_value != 0" [.simple "h();"] []] []]] := by
  have value : (callOf "f").scrutineeText {} = "f()" := (texts_callOf "f" (by simp)).2.1
  obtain ⟨condition, test, -⟩ := texts_capturing
  have call : Code.texts (simpleCodes {} id [callOf "h"]) = [.simple "h();"] := by
    have texts : (id (callOf "h")).statementTexts {} = ["h();"] :=
      (texts_callOf "h" (by simp)).2.2
    rw [simpleCodes, List.flatMap_singleton, texts_simpleCode, texts, List.map_singleton]
  rw [← value, ← test, ← condition, ← call]
  rfl

/-! The conditions of both sides under this interpretation. -/

namespace Interp

theorem compares_recording : recording.Compares :=
  compares_comparing _

theorem recording_chosen : recording.check (Env.empty.set "switch_value" 1) "switch_value == 1" =
    readOff fun _ => true := by
  obtain ⟨-, -, read, -⟩ := texts_capturing
  have one : ∀ ρ text, (∀ v, ρ text = some v → v = 1) →
      recording.operand ρ text = readOff fun _ => 1 := by
    intro ρ text h
    rw [operand]
    split
    · rename_i v hv
      rw [h v hv]
    · rfl
  have bound : ∀ text x v, (Env.empty.set "switch_value" 1).visible text x = some v → v = 1 := by
    intro text x v h
    simp only [Env.visible, Env.set, Env.empty] at h
    split at h
    · split at h
      · exact (Option.some.inj h).symm
      · simp at h
    · simp at h
  rw [check, read]
  show recording.test _ (.oneOf "switch_value" ["1"]) = _
  rw [compares_recording, compare_eq (one _ _ (bound _ _)) fun value _ => one _ _ (bound _ _)]
  rfl

theorem recording_asked : recording.check (Env.empty.set "switch_value" 1) "switch_value != 0" =
    readOff fun _ => true := by
  obtain ⟨-, -, -, read, -⟩ := texts_capturing
  have mentioned : Mentions "switch_value != 0" "switch_value" := by decide
  have bound : (Env.empty.set "switch_value" 1).visible "switch_value != 0" "switch_value" =
      some 1 := by
    rw [Env.visible, if_pos mentioned, Env.set, if_pos rfl]
  rw [check, read]
  show (readOff fun _ => ((Env.empty.set "switch_value" 1).visible _ "switch_value").isSome) = _
  rw [bound]
  rfl

theorem recording_unasked :
    recording.check .empty "switch_value != 0" = readOff fun _ => false := by
  obtain ⟨-, -, -, read, -⟩ := texts_capturing
  rw [check, read, Env.visible_empty]
  rfl

end Interp

/-- **A variable with the name of the bound value changes the executions**: the statement does
nothing, and the emitted text calls a function. -/
theorem run_ne_meaning_captured :
    HasForm {} id capturingNode capturingStmt ∧
      (capturingNode.emitStatements {} (Context.ofFunction .void)).Silent ∧
      (∀ sw ∈ capturingStmt.switches, SwitchTexts {} id sw) ∧
      (∀ sw ∈ capturingStmt.switches, SwitchLaws Interp.recording {} id sw) ∧
      ∃ prog, RustStmt.read?
          (Text.stacked (capturingNode.emitStatements {} (Context.ofFunction .void)).value) =
            some prog ∧
        RustStmt.run Interp.recording .empty prog false .normal true ∧
        ¬ capturingStmt.meaning {} id Interp.recording .void false .normal true := by
  have silent : (capturingNode.emitStatements {} (Context.ofFunction .void)).Silent := by decide
  obtain ⟨asked, -, -, -, texts⟩ := texts_capturing
  have laws : ∀ sw ∈ capturingStmt.switches, SwitchLaws Interp.recording {} id sw := by
    have one : capturingStmt.switches = [(.callOf "f", capturingItems)] := rfl
    intro sw hs
    rw [one, List.mem_singleton] at hs
    subst hs
    exact ⟨Interp.compares_recording, List.nodup_singleton _, fun _ _ => rfl,
      fun _ => ⟨_, rfl⟩⟩
  refine ⟨hasForm_capturing, silent, texts, laws, _,
    read?_emitStatements hasForm_capturing .void, ?_, ?_⟩
  · rw [texts_lower_capturing]
    refine ⟨.normal, true, ⟨1, false, ⟨rfl, rfl⟩, .normal, true, ?_, rfl, rfl⟩, rfl, rfl⟩
    show choose (Interp.recording.check _ _) _ _ _ _ _
    rw [Interp.recording_chosen, choose_readOff_iff]
    refine ⟨.normal, true, ?_, rfl, rfl⟩
    show choose (Interp.recording.check _ _) _ _ _ _ _
    rw [Interp.recording_asked, choose_readOff_iff]
    exact ⟨.normal, true, ⟨rfl, rfl⟩, rfl, rfl⟩
  · have ends : CStmt.ArmsEnd (CStmt.arms capturingItems) := trivial
    have distinct : CStmt.Distinct {} id Interp.recording capturingItems :=
      ⟨List.nodup_singleton _, by decide⟩
    intro h
    rw [capturingStmt, CStmt.meaning_switch ends distinct] at h
    obtain ⟨v, m, ⟨rfl, rfl⟩, x, m', inside, leaves⟩ := h
    -- the condition is asked outside of the scope of the generated name, where it fails
    have none : (choose (Interp.recording.check .empty "switch_value != 0")
        (act (Interp.recording.acts (CStmt.simpleTexts {} id [.callOf "h"]))) skip).seq skip
        false x m' := by
      rw [← asked]
      exact inside
    rw [seq_skip, Interp.recording_unasked, choose_readOff_iff] at none
    obtain ⟨rfl, rfl⟩ := none
    obtain ⟨-, changed⟩ := leaves
    simp at changed

end

end Ferric
