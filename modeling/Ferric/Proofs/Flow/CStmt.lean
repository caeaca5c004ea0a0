import Ferric.Proofs.Flow.Simple

/-!
# Structured C statements and their lowering

The statements of a function body as C's grammar has them, with expressions and variables as opaque
leaves.  `HasForm` says which statement a syntax node is.

The items of a switch are statements, some of them labelled; a label stands directly in the body of
its switch.  A labelled compound statement keeps its statements as a list, with a mark that they
were in braces.

A C statement is lowered to structured Rust statements, without their text: the step of a `for` and
the check of a `do` are copied before each `continue`, a `switch` becomes a chain of branches, and a
`break` below the top level of an arm names the block around the chain.  A leaf keeps the source
expressions it was made of beside its text.

## Main definitions

* `CStmt`: statements, with leaves of a given type.
* `CStmt.arms`: the items of a switch by the labels in front of them.
* `HasForm`: a node and the statement it is.
* `ForHeader`: tokens that show which clauses a `for` has.
* `Setting`: what jumps mean at a place: the step of the loop and the label of the switch around it.
* `CStmt.lower`: the lowered statements.

## Main results

* `CStmt.induct`, `CStmt.inductItems`, `CStmt.inductArms`: induction on statements, with one
  hypothesis for each statement of a list, of an item or of an arm.
* `ForHeader.ofTokens?_eq`: the slots of a header are read from its tokens.
* `CStmt.lower_switch`: a lowered switch, in terms of its lowered arms.
-/

namespace Ferric

section

open List

/-- **A structured C statement**, with leaves of type `α`. -/
inductive CStmt (α : Type) where
  | null
  /-- An expression statement, by the operands of its commas. -/
  | simple (operands : List α)
  | decl (vars : List α)
  | block (body : List (CStmt α))
  | ifThen (test : α) (yes : CStmt α)
  | ifElse (test : α) (yes no : CStmt α)
  | whileLoop (test : α) (body : CStmt α)
  | doLoop (body : CStmt α) (test : α)
  /-- A `for`; an absent initialisation is the null statement, an absent step has no operands. -/
  | forLoop (init : CStmt α) (test? : Option α) (step : List α) (body : CStmt α)
  | ret (value? : Option α)
  | brk
  | cont
  | switch (scrutinee : α) (items : List (CStmt α))
  /-- An item of a switch after its labels: whether `default` is among them, and whether the
  statements stand in braces. -/
  | labelled (labels : List α) (isDefault braced : Bool) (body : List (CStmt α))

namespace CStmt

variable {α : Type}

/-! ## Arms -/

/-- Whether a statement is a `break`. -/
def isBrk : CStmt α → Bool
  | .brk => true
  | _ => false

/-- Whether a statement ends an arm without a `break`. -/
def endsArm : CStmt α → Bool
  | .ret _ | .cont => true
  | _ => false

mutual

/-- Whether a `break` in this statement leaves the switch around it. -/
def leaves : CStmt α → Bool
  | .brk => true
  | .block body => anyLeaves body
  | .ifThen _ yes => yes.leaves
  | .ifElse _ yes no => yes.leaves || no.leaves
  | .forLoop init _ _ _ => init.leaves
  | .labelled _ _ _ body => anyLeaves body
  | _ => false

/-- Whether a `break` in one of some statements leaves the switch around them. -/
def anyLeaves : List (CStmt α) → Bool
  | [] => false
  | c :: cs => c.leaves || anyLeaves cs

end

theorem anyLeaves_eq (cs : List (CStmt α)) : anyLeaves cs = cs.any leaves := by
  induction cs with
  | nil => rfl
  | cons c cs ih => simp [anyLeaves, ih]

end CStmt

open CStmt

/-- **An arm**: labels, and what stands between them and the next labels. -/
structure Arm (α γ : Type) where
  labels : List α
  isDefault : Bool
  body : List γ

namespace Arm

variable {α γ δ : Type}

/-- Apply a function to what stands in the arm. -/
def map (f : γ → δ) (arm : Arm α γ) : Arm α δ :=
  ⟨arm.labels, arm.isDefault, arm.body.map f⟩

/-- The statements of an arm up to its first `break`. -/
def run (arm : Arm α (CStmt α)) : List (CStmt α) :=
  arm.body.takeWhile fun c => !c.isBrk

/-- Whether the arm ends before the next one begins. -/
def isTerminated (arm : Arm α (CStmt α)) : Bool :=
  arm.run.length < arm.body.length || arm.run.getLast?.any endsArm

/-- Whether a `break` below the top level of the arm leaves the switch. -/
def breaksEarly (arm : Arm α (CStmt α)) : Bool :=
  arm.run.any leaves

end Arm

namespace CStmt

variable {α : Type}

/-- The items of a switch by their labels, one level of braces taken away, after the statements that
stand before the first label. -/
def group : List (CStmt α) → List (CStmt α) × List (Arm α (CStmt α))
  | [] => ([], [])
  | .labelled labels isDefault _ body :: rest =>
    ([], ⟨labels, isDefault, body ++ (group rest).1⟩ :: (group rest).2)
  | .block body :: rest => (body ++ (group rest).1, (group rest).2)
  | c :: rest => (c :: (group rest).1, (group rest).2)

/-- **The arms of a switch.** -/
def arms (items : List (CStmt α)) : List (Arm α (CStmt α)) :=
  (group items).2

/-- A statement without one level of braces, and without its labels. -/
def unbraced : CStmt α → List (CStmt α)
  | .block body | .labelled _ _ _ body => body
  | c => [c]

/-- What stands in an arm stands in an item of the switch. -/
theorem mem_unbraced_of_mem_group (items : List (CStmt α)) :
    (∀ c ∈ (group items).1, ∃ item ∈ items, c ∈ item.unbraced) ∧
      ∀ arm ∈ (group items).2, ∀ c ∈ arm.body, ∃ item ∈ items, c ∈ item.unbraced := by
  fun_induction group items with
  | case1 => simp
  | case2 labels isDefault braced body rest ih =>
    refine ⟨by simp, ?_⟩
    intro arm harm c hc
    rcases mem_cons.1 harm with rfl | harm
    · rcases mem_append.1 hc with hc | hc
      · exact ⟨_, mem_cons_self, hc⟩
      · obtain ⟨item, hi, hc⟩ := ih.1 c hc
        exact ⟨item, mem_cons_of_mem _ hi, hc⟩
    · obtain ⟨item, hi, hc⟩ := ih.2 arm harm c hc
      exact ⟨item, mem_cons_of_mem _ hi, hc⟩
  | case3 body rest ih =>
    refine ⟨fun c hc => ?_, fun arm harm c hc => ?_⟩
    · rcases mem_append.1 hc with hc | hc
      · exact ⟨_, mem_cons_self, hc⟩
      · obtain ⟨item, hi, hc⟩ := ih.1 c hc
        exact ⟨item, mem_cons_of_mem _ hi, hc⟩
    · obtain ⟨item, hi, hc⟩ := ih.2 arm harm c hc
      exact ⟨item, mem_cons_of_mem _ hi, hc⟩
  | case4 c rest hl hb ih =>
    refine ⟨fun d hd => ?_, fun arm harm d hd => ?_⟩
    · rcases mem_cons.1 hd with rfl | hd
      · refine ⟨d, mem_cons_self, ?_⟩
        cases d with
        | block body => exact absurd rfl (hb body)
        | labelled labels isDefault braced body =>
          exact absurd rfl (hl labels isDefault braced body)
        | _ => exact mem_singleton.2 rfl
      · obtain ⟨item, hi, hd⟩ := ih.1 d hd
        exact ⟨item, mem_cons_of_mem _ hi, hd⟩
    · obtain ⟨item, hi, hd⟩ := ih.2 arm harm d hd
      exact ⟨item, mem_cons_of_mem _ hi, hd⟩

/-! ## Induction -/

section Induction

variable {P : CStmt α → Prop}
  (null : P .null)
  (simple : ∀ operands, P (.simple operands))
  (decl : ∀ vars, P (.decl vars))
  (block : ∀ body, (∀ c ∈ body, P c) → P (.block body))
  (ifThen : ∀ test yes, P yes → P (.ifThen test yes))
  (ifElse : ∀ test yes no, P yes → P no → P (.ifElse test yes no))
  (whileLoop : ∀ test body, P body → P (.whileLoop test body))
  (doLoop : ∀ body test, P body → P (.doLoop body test))
  (forLoop : ∀ init test? step body, P init → P body → P (.forLoop init test? step body))
  (ret : ∀ value?, P (.ret value?))
  (brk : P .brk)
  (cont : P .cont)

include null simple decl block ifThen ifElse whileLoop doLoop forLoop ret brk cont

/-- **Induction on statements**, with a hypothesis for each statement of a list. -/
theorem induct
    (switch : ∀ scrutinee items, (∀ c ∈ items, P c) → P (.switch scrutinee items))
    (labelled : ∀ labels isDefault braced body, (∀ c ∈ body, P c) →
      P (.labelled labels isDefault braced body))
    (c : CStmt α) : P c :=
  @rec α P (fun cs => ∀ c ∈ cs, P c) null simple decl block ifThen ifElse whileLoop doLoop
    forLoop ret brk cont switch labelled (by simp)
    (fun c cs first rest => by simpa using ⟨first, rest⟩) c

/-- **Induction on statements, by the items of switches**, with a hypothesis for each statement of
an item. -/
theorem inductItems
    (switch : ∀ scrutinee items, (∀ item ∈ items, ∀ c ∈ item.unbraced, P c) →
      P (.switch scrutinee items))
    (labelled : ∀ labels isDefault braced body, (∀ c ∈ body, P c) →
      P (.labelled labels isDefault braced body))
    (c : CStmt α) : P c := by
  -- The statements of an item stand without its braces, so these are carried along.
  have both : P c ∧ ∀ d ∈ c.unbraced, P d := by
    have alone : ∀ {c : CStmt α}, P c → c.unbraced = [c] → P c ∧ ∀ d ∈ c.unbraced, P d := by
      intro c hc hu
      exact ⟨hc, by simpa [hu] using hc⟩
    induction c using induct with
    | null => exact alone null rfl
    | simple operands => exact alone (simple operands) rfl
    | decl vars => exact alone (decl vars) rfl
    | block body ih => exact ⟨block body fun c hc => (ih c hc).1, fun c hc => (ih c hc).1⟩
    | ifThen test yes ih => exact alone (ifThen test yes ih.1) rfl
    | ifElse test yes no ihy ihn => exact alone (ifElse test yes no ihy.1 ihn.1) rfl
    | whileLoop test body ih => exact alone (whileLoop test body ih.1) rfl
    | doLoop body test ih => exact alone (doLoop body test ih.1) rfl
    | forLoop init test? step body ihi ihb =>
      exact alone (forLoop init test? step body ihi.1 ihb.1) rfl
    | ret value? => exact alone (ret value?) rfl
    | brk => exact alone brk rfl
    | cont => exact alone cont rfl
    | switch x items ih => exact alone (switch x items fun item hi => (ih item hi).2) rfl
    | labelled labels isDefault braced body ih =>
      exact ⟨labelled labels isDefault braced body fun c hc => (ih c hc).1,
        fun c hc => (ih c hc).1⟩
  exact both.1

/-- **Induction on statements, by the arms of switches.** -/
theorem inductArms
    (switch : ∀ scrutinee items, (∀ arm ∈ arms items, ∀ c ∈ arm.body, P c) →
      P (.switch scrutinee items))
    (labelled : ∀ labels isDefault braced body, (∀ c ∈ body, P c) →
      P (.labelled labels isDefault braced body))
    (c : CStmt α) : P c := by
  refine inductItems null simple decl block ifThen ifElse whileLoop doLoop forLoop ret brk cont
    (fun x items ih => switch x items fun arm harm c hc => ?_) labelled c
  obtain ⟨item, hi, hc⟩ := (mem_unbraced_of_mem_group items).2 arm harm c hc
  exact ih item hi c hc

end Induction

end CStmt

/-! ## Headers of `for` loops -/

/-- The depth of open brackets after some tokens; none where a semicolon stands outside of brackets
or a bracket is closed that was not opened. -/
def bracketDepth : Nat → List String → Option Nat
  | depth, [] => some depth
  | depth, token :: rest =>
    if token = ")" ∨ token = "]" ∨ token = "\x7d" then
      match depth with
      | 0 => none
      | depth + 1 => bracketDepth depth rest
    else if token = "(" ∨ token = "[" ∨ token = "\x7b" then bracketDepth (depth + 1) rest
    else if token = ";" ∧ depth = 0 then none
    else bracketDepth depth rest

/-- **Tokens that show which clauses a `for` has**: `for ( init ; condition ; step )`, where a
clause that is absent has no tokens. -/
structure ForHeader (tokens : List String) (slots : ForSlots) : Prop where
  shows : ∃ init condition step rest,
    tokens = "for" :: "(" :: (init ++ ";" :: (condition ++ ";" :: (step ++ ")" :: rest))) ∧
    bracketDepth 0 init = some 0 ∧ bracketDepth 0 condition = some 0 ∧
    bracketDepth 0 step = some 0 ∧
    slots = ⟨!init.isEmpty, !condition.isEmpty, !step.isEmpty⟩

namespace ForSlots

@[simp] theorem fill_fill (s : ForSlots) (slot : ForSlot) :
    (s.fill slot).fill slot = s.fill slot := by
  cases slot <;> rfl

theorem readFrom_append {depth left : Nat} {tokens : List String}
    (h : bracketDepth depth tokens = some left) (s : ForSlots) (slot : ForSlot)
    (rest : List String) :
    s.readFrom slot depth (tokens ++ rest) =
      (if tokens.isEmpty then s else s.fill slot).readFrom slot left rest := by
  induction tokens generalizing depth s with
  | nil =>
    obtain rfl : depth = left := by simpa [bracketDepth] using h
    rfl
  | cons token tokens ih =>
    have filled : ∀ t : List String, (if t.isEmpty then s.fill slot else (s.fill slot).fill slot) =
        s.fill slot := by
      intro t
      split
      · rfl
      · exact fill_fill s slot
    simp only [bracketDepth] at h
    simp only [cons_append, readFrom, isEmpty_cons, Bool.false_eq_true, if_false]
    split at h
    · rename_i closing
      rw [if_pos closing]
      cases depth with
      | zero => simp at h
      | succ depth => simpa only [filled] using ih h (s.fill slot)
    · rename_i closing
      rw [if_neg closing]
      split at h
      · rename_i opening
        rw [if_pos opening]
        simpa only [filled] using ih h (s.fill slot)
      · rename_i opening
        rw [if_neg opening]
        split at h
        · simp at h
        · rename_i semicolon
          rw [if_neg semicolon]
          simpa only [filled] using ih h (s.fill slot)

end ForSlots

theorem ForHeader.ofTokens?_eq {tokens : List String} {slots : ForSlots}
    (h : ForHeader tokens slots) : ForSlots.ofTokens? tokens = some slots := by
  obtain ⟨init, condition, step, rest, rfl, hi, hc, hs, rfl⟩ := h.shows
  have toCondition : ∀ (s : ForSlots) (rest : List String),
      s.readFrom .init 0 (";" :: rest) = s.readFrom .condition 0 rest := by
    intro s rest
    simp [ForSlots.readFrom]
  have toStep : ∀ (s : ForSlots) (rest : List String),
      s.readFrom .condition 0 (";" :: rest) = s.readFrom .step 0 rest := by
    intro s rest
    simp [ForSlots.readFrom]
  have toEnd : ∀ (s : ForSlots) (rest : List String),
      s.readFrom .step 0 (")" :: rest) = some s := by
    intro s rest
    simp [ForSlots.readFrom]
  rw [ForSlots.ofTokens?, ForSlots.readFrom_append hi, toCondition, ForSlots.readFrom_append hc,
    toStep, ForSlots.readFrom_append hs, toEnd]
  cases init.isEmpty <;> cases condition.isEmpty <;> cases step.isEmpty <;> rfl

/-- The clauses in the slots they were written in. -/
theorem assign?_toList {β : Type} (init? test? step? : Option β) :
    ForClauses.assign? ⟨init?.isSome, test?.isSome, step?.isSome⟩
      (init?.toList ++ test?.toList ++ step?.toList) = some ⟨init?, test?, step?⟩ := by
  cases init? <;> cases test? <;> cases step? <;> rfl

/-! ## The statement that a node is -/

section Form

variable {α : Type} (reg : Registry) (node : α → Node)

/-- An expression that is tested; its text is not empty. -/
structure IsTested (test : α) : Prop where
  simple : (node test).IsSimple reg
  nonempty : (node test).conditionText reg ≠ ""

/-- An expression whose value is used; its text is not empty. -/
structure IsUsed (value : α) : Prop where
  simple : (node value).IsSimple reg
  nonempty : Fragment.asExpression ((node value).expressionText reg) ≠ ""

/-- A declaration of a variable, whose name is a word. -/
structure IsVariable (v : α) : Prop where
  kind : ∃ isConst isExtern, (node v).kind = .varDecl isConst isExtern
  name : sanitize (node v).spelling ≠ "" ∧
    ∀ c ∈ (sanitize (node v).spelling).toList, Chars.isWordChar c = true
  type : (node v).type.HasNeatNames reg.recordName
  init : ∀ init ∈ (node v).initializer?, init.IsSimple reg
  stays : (node v).leavesSwitch = false

/-- The clause of a header that comes first: a declaration or an expression. -/
inductive HasInit : Option Node → CStmt α → Prop
  | none : HasInit none .null
  | simple {n : Node} {operands : List α} (simple : n.IsSimple reg)
    (eq : operands.map node = n.operands) : HasInit (some n) (.simple operands)
  | decl {n : Node} {vars : List α} (kind : n.kind = .declStmt)
    (eq : vars.map node = n.children) (each : ∀ v ∈ vars, IsVariable reg node v) :
    HasInit (some n) (.decl vars)

/-- The clause of a header that comes last: an expression. -/
inductive HasStep : Option Node → List α → Prop
  | none : HasStep none []
  | some {n : Node} {operands : List α} (simple : n.IsSimple reg)
    (eq : operands.map node = n.operands) : HasStep (some n) operands

/-- The labels in front of a statement. -/
inductive HasLabels : Node → List α → Bool → Node → Prop
  | stop {n : Node} (kind : n.kind.isCaseLabel = false) : HasLabels n [] false n
  | case {n inner last : Node} {label : α} {labels : List α} {isDefault : Bool}
    (kind : n.kind = .caseStmt) (children : n.children = [node label, inner])
    (value : (node label).IsSimple reg) (rest : HasLabels inner labels isDefault last) :
    HasLabels n (label :: labels) isDefault last
  | default {n inner last : Node} {labels : List α} {isDefault : Bool}
    (kind : n.kind = .defaultStmt) (children : n.children = [inner])
    (rest : HasLabels inner labels isDefault last) : HasLabels n labels true last

mutual

/-- **A node and the statement it is.**  Expressions are simple, conditions are not empty, the
header of a `for` shows its clauses, and the labels of a switch stand directly in its body. -/
inductive HasForm : Node → CStmt α → Prop
  | null {n : Node} (kind : n.kind = .nullStmt) (children : n.children = []) : HasForm n .null
  | simple {n : Node} {operands : List α} (simple : n.IsSimple reg)
    (eq : operands.map node = n.operands) : HasForm n (.simple operands)
  | decl {n : Node} {vars : List α} (kind : n.kind = .declStmt)
    (eq : vars.map node = n.children) (each : ∀ v ∈ vars, IsVariable reg node v) :
    HasForm n (.decl vars)
  | block {n : Node} {body : List (CStmt α)} (kind : n.kind = .compoundStmt)
    (all : HasForms n.children body) : HasForm n (.block body)
  | ifThen {n yes : Node} {test : α} {c : CStmt α} (kind : n.kind = .ifStmt)
    (children : n.children = [node test, yes]) (condition : IsTested reg node test)
    (form : HasForm yes c) : HasForm n (.ifThen test c)
  | ifElse {n yes no : Node} {test : α} {c d : CStmt α} (kind : n.kind = .ifStmt)
    (children : n.children = [node test, yes, no]) (condition : IsTested reg node test)
    (formYes : HasForm yes c) (formNo : HasForm no d) : HasForm n (.ifElse test c d)
  | whileLoop {n body : Node} {test : α} {c : CStmt α} (kind : n.kind = .whileStmt)
    (children : n.children = [node test, body]) (condition : IsTested reg node test)
    (form : HasForm body c) : HasForm n (.whileLoop test c)
  | doLoop {n body : Node} {test : α} {c : CStmt α} (kind : n.kind = .doStmt)
    (children : n.children = [body, node test]) (condition : IsTested reg node test)
    (form : HasForm body c) : HasForm n (.doLoop c test)
  | forLoop {n body : Node} {init? step? : Option Node} {test? : Option α} {init c : CStmt α}
    {step : List α} (kind : n.kind = .forStmt)
    (header : ForHeader n.tokens ⟨init?.isSome, test?.isSome, step?.isSome⟩)
    (children : n.children =
      init?.toList ++ (test?.map node).toList ++ step?.toList ++ [body])
    (hasInit : HasInit reg node init? init)
    (condition : ∀ test ∈ test?, IsTested reg node test)
    (hasStep : HasStep reg node step? step) (form : HasForm body c) :
    HasForm n (.forLoop init test? step c)
  | retNone {n : Node} (kind : n.kind = .returnStmt) (children : n.children = []) :
    HasForm n (.ret none)
  | retSome {n : Node} {value : α} (kind : n.kind = .returnStmt)
    (children : n.children = [node value]) (isUsed : IsUsed reg node value) :
    HasForm n (.ret (some value))
  | brk {n : Node} (kind : n.kind = .breakStmt) (children : n.children = []) : HasForm n .brk
  | cont {n : Node} (kind : n.kind = .continueStmt) (children : n.children = []) :
    HasForm n .cont
  | switch {n body : Node} {scrutinee : α} {items : List (CStmt α)}
    (kind : n.kind = .switchStmt) (children : n.children = [node scrutinee, body])
    (isUsed : IsUsed reg node scrutinee) (compound : body.kind = .compoundStmt)
    (all : HasItems body.children items) : HasForm n (.switch scrutinee items)

/-- Some nodes and the statements they are. -/
inductive HasForms : List Node → List (CStmt α) → Prop
  | nil : HasForms [] []
  | cons {n : Node} {ns : List Node} {c : CStmt α} {cs : List (CStmt α)} (form : HasForm n c)
    (forms : HasForms ns cs) : HasForms (n :: ns) (c :: cs)

/-- The nodes in the body of a switch and the items they are. -/
inductive HasItems : List Node → List (CStmt α) → Prop
  | nil : HasItems [] []
  | plain {n : Node} {ns : List Node} {c : CStmt α} {cs : List (CStmt α)}
    (kind : n.kind.isCaseLabel = false) (form : HasForm n c) (items : HasItems ns cs) :
    HasItems (n :: ns) (c :: cs)
  | labelled {n last : Node} {ns : List Node} {labels : List α} {isDefault : Bool} {c : CStmt α}
    {cs : List (CStmt α)} (kind : n.kind.isCaseLabel = true)
    (hasLabels : HasLabels reg node n labels isDefault last)
    (single : last.kind ≠ .compoundStmt) (form : HasForm last c) (items : HasItems ns cs) :
    HasItems (n :: ns) (.labelled labels isDefault false [c] :: cs)
  | braced {n last : Node} {ns : List Node} {labels : List α} {isDefault : Bool}
    {body cs : List (CStmt α)} (kind : n.kind.isCaseLabel = true)
    (hasLabels : HasLabels reg node n labels isDefault last)
    (compound : last.kind = .compoundStmt) (forms : HasForms last.children body)
    (items : HasItems ns cs) :
    HasItems (n :: ns) (.labelled labels isDefault true body :: cs)

end

end Form

end

/-- **A leaf of a lowered statement.** -/
structure Leaf (α : Type) where
  text : String
  sites : List α
  /-- The parts of the text that come from the program. -/
  parts : List String

/-- A leaf that comes from one expression. -/
def Leaf.ofText {α : Type} (text : String) (a : α) : Leaf α :=
  ⟨text, [a], [text]⟩

@[simp] theorem Leaf.text_ofText {α : Type} (text : String) (a : α) :
    (Leaf.ofText text a).text = text := rfl

/-- Lowered statements. -/
abbrev Code (α : Type) := List (RustStmt (Leaf α))

/-- **The setting of a statement.** -/
structure Setting (α : Type) where
  /-- What has to run before a `continue`. -/
  step : Code α := []
  /-- The label that a `break` leaves through. -/
  label? : Option String := none
  depth : Nat := 0
  result : CType := .void

namespace Setting

variable {α : Type}

def inLoop (s : Setting α) (step : Code α) : Setting α :=
  { s with step, label? := none }

def inSwitch (s : Setting α) (label? : Option String) : Setting α :=
  { s with depth := s.depth + 1, label? }

/-- The digits that tell nested switches apart; the outermost one has none. -/
def suffix (s : Setting α) : String :=
  if s.depth = 0 then "" else toString s.depth

def valueName (s : Setting α) : String :=
  "switch_value" ++ s.suffix

def labelName (s : Setting α) : String :=
  "'switch" ++ s.suffix

end Setting

section Lowering

variable {α : Type} (reg : Registry) (node : α → Node)

/-! ## Leaves -/

/-- An expression as a statement. -/
def simpleCode (a : α) : Code α :=
  ((node a).statementTexts reg).map fun text => .simple (.ofText text a)

/-- Expressions as statements, in order. -/
def simpleCodes (as : List α) : Code α :=
  as.flatMap (simpleCode reg node)

/-- An expression as a condition. -/
def testLeaf (a : α) : Leaf α :=
  .ofText ((node a).conditionText reg) a

@[simp] theorem text_testLeaf (a : α) :
    (testLeaf reg node a).text = (node a).conditionText reg := rfl

/-- The check at the end of a `do` loop. -/
def exitCode (a : α) : RustStmt (Leaf α) :=
  .branch (.ofText ("!(" ++ Fragment.ungrouped ((node a).conditionText reg) ++ ")") a)
    [.brk none] []

/-- A `return` with a value; without a result the value is only evaluated. -/
def returnCode (result : CType) (a : α) : Code α :=
  let value := (node a).expressionText reg
  if result.isVoid then [.simple (.ofText (value ++ ";") a), .ret none]
  else [.ret (some (.ofText (Fragment.asExpression (Fragment.nullIfZero value result)) a))]

/-- The value that a variable starts with. -/
def Node.initialText (n : Node) : String :=
  (Draft.initialValue reg n (n.children.map (Draft.ofNode reg)) {}).value

/-- The type of a variable and the value it starts with. -/
def Node.variableText (n : Node) : String :=
  Text.onChars Chars.unterminated (reg.renderType n.type ++ " = " ++ n.initialText reg ++ ";")

/-- A declaration of a variable. -/
def declareCode (v : α) : RustStmt (Leaf α) :=
  .declare (sanitize (node v).spelling) (.ofText ((node v).variableText reg) v)

/-! ## Switches -/

/-- The comparisons that choose an arm; `sites` is what the compared value comes from. -/
def armTest (scrutinee : String) (sites labels : List α) : Leaf α :=
  ⟨Text.joined " || " (labels.map fun l => scrutinee ++ " == " ++ (node l).expressionText reg),
    sites ++ labels, (sites ++ labels).map fun a => (node a).expressionText reg⟩

/-- The chain of some arms: those with a test, in order, and the last default. -/
def chainCode (scrutinee : String) (sites : List α)
    (arms : List (Arm α (RustStmt (Leaf α)))) : Code α :=
  let tested := arms.filter fun arm => !arm.isDefault
  let default? := (arms.filter fun arm => arm.isDefault).getLast?.map Arm.body
  if tested.isEmpty then default?.toList.map (.block none)
  else tested.foldr
    (fun arm no => [.branch (armTest reg node scrutinee sites arm.labels) arm.body no])
    (default?.getD [])

/-- The text by which the value of a switch is compared. -/
def Setting.scrutinee (s : Setting α) (x : α) : String :=
  if Draft.isRepeatable (node x) then (node x).expressionText reg else s.valueName

/-- The text of the value of a switch. -/
def Node.scrutineeText (n : Node) : String :=
  Text.onChars Chars.unterminated (n.expressionText reg)

/-- The binding of the value of a switch, unless the value may be repeated. -/
def Setting.binding (s : Setting α) (x : α) : Code α :=
  if Draft.isRepeatable (node x) then []
  else [.capture s.valueName (.ofText ((node x).scrutineeText reg) x)]

/-- What the comparisons of a switch mention of its value. -/
def scrutineeSites (x : α) : List α :=
  if Draft.isRepeatable (node x) then [x] else []

/-- A chain with the binding before it, in a block of its own when there is a binding or a label. -/
def encloseCode (label? : Option String) (binding chain : Code α) : Code α :=
  if chain.isEmpty then binding
  else match label? with
    | some label => [.block (some label) (binding ++ chain)]
    | none => if binding.isEmpty then chain else [.block none (binding ++ chain)]

def switchCode (s : Setting α) (x : α) (label? : Option String)
    (arms : List (Arm α (RustStmt (Leaf α)))) : Code α :=
  encloseCode label? (s.binding reg node x)
    (chainCode reg node (s.scrutinee reg node x) (scrutineeSites node x) arms)

def Setting.switchLabel? (s : Setting α) (items : List (CStmt α)) : Option String :=
  if (CStmt.arms items).any Arm.breaksEarly then some s.labelName else none

/-! ## Statements -/

/-- The statements of a body; the braces of a block are taken away. -/
def CStmt.bodyOf : CStmt α → Code α → Code α
  | .block _, [.block none body] => body
  | _, code => code

/-- Only a block has braces to be taken away. -/
theorem CStmt.and_bodyOf {p : Code α → Prop} {c : CStmt α} {code : Code α} (h : p code)
    (hc : ∀ body, c ≠ .block body) : p code ∧ p (c.bodyOf code) := by
  have same : c.bodyOf code = code := by
    cases c with
    | block body => exact absurd rfl (hc body)
    | _ => rfl
  rw [same]
  exact ⟨h, h⟩

/-- A loop with a condition that may be absent. -/
def loopCode (test? : Option α) (body : Code α) : RustStmt (Leaf α) :=
  match test? with
  | some test => .whileLoop (testLeaf reg node test) body
  | none => .loop body

mutual

/-- **The lowered statements of a statement.** -/
def CStmt.lower (s : Setting α) : CStmt α → Code α
  | .null => []
  | .simple operands => simpleCodes reg node operands
  | .decl vars => vars.map (declareCode reg node)
  | .block body => [.block none ((lowerEach s body).flatMap (·.2))]
  | .ifThen test yes => [.branch (testLeaf reg node test) (yes.bodyOf (lower s yes)) []]
  | .ifElse test yes no =>
    [.branch (testLeaf reg node test) (yes.bodyOf (lower s yes))
      (no.bodyOf (lower s no))]
  | .whileLoop test body =>
    [.whileLoop (testLeaf reg node test) (body.bodyOf (lower (s.inLoop []) body))]
  | .doLoop body test =>
    let check := exitCode reg node test
    [.loop (body.bodyOf (lower (s.inLoop [check]) body) ++ [check])]
  | .forLoop init test? step body =>
    let step := simpleCodes reg node step
    lower s init ++
      [loopCode reg node test? (body.bodyOf (lower (s.inLoop step) body) ++ step)]
  | .ret none => [.ret none]
  | .ret (some value) => returnCode reg node s.result value
  | .brk => [.brk s.label?]
  | .cont => s.step ++ [.cont]
  | .switch x items =>
    let label? := s.switchLabel? items
    let arms := (lowerItems (s.inSwitch label?) items).2
    switchCode reg node s x label? <| arms.map fun arm =>
      ⟨arm.labels, arm.isDefault,
        (arm.body.takeWhile fun piece => !piece.1.isBrk).flatMap (·.2)⟩
  | .labelled _ _ _ body => (lowerEach s body).flatMap (·.2)

/-- Some statements, each with its lowered statements. -/
def CStmt.lowerEach (s : Setting α) : List (CStmt α) → List (CStmt α × Code α)
  | [] => []
  | c :: cs => (c, lower s c) :: lowerEach s cs

/-- The items of a switch by their labels, with what they are lowered to. -/
def CStmt.lowerItems (s : Setting α) :
    List (CStmt α) → List (CStmt α × Code α) × List (Arm α (CStmt α × Code α))
  | [] => ([], [])
  | .labelled labels isDefault _ body :: rest =>
    ([], ⟨labels, isDefault, lowerEach s body ++ (lowerItems s rest).1⟩ ::
      (lowerItems s rest).2)
  | .block body :: rest =>
    (lowerEach s body ++ (lowerItems s rest).1, (lowerItems s rest).2)
  | c :: rest =>
    ((c, lower s c) :: (lowerItems s rest).1, (lowerItems s rest).2)

end

/-! ## Lowered lists -/

variable {reg node} {s : Setting α}

namespace CStmt

/-- The lowered statements of some statements. -/
def lowerAll (reg : Registry) (node : α → Node) (s : Setting α) (cs : List (CStmt α)) : Code α :=
  cs.flatMap (lower reg node s)

theorem lowerEach_eq_map (cs : List (CStmt α)) :
    lowerEach reg node s cs = cs.map fun c => (c, lower reg node s c) := by
  induction cs with
  | nil => rfl
  | cons c cs ih => rw [lowerEach, ih, List.map_cons]

theorem flatMap_lowerEach (cs : List (CStmt α)) :
    (lowerEach reg node s cs).flatMap (·.2) = lowerAll reg node s cs := by
  rw [lowerEach_eq_map, List.flatMap_map, lowerAll]

theorem lower_block (body : List (CStmt α)) :
    lower reg node s (.block body) = [.block none (lowerAll reg node s body)] := by
  rw [lower, flatMap_lowerEach]

/-- Lowering the items of a switch does not change how they are grouped. -/
theorem lowerItems_eq (items : List (CStmt α)) :
    lowerItems reg node s items =
      ((group items).1.map fun c => (c, lower reg node s c),
        (group items).2.map (Arm.map fun c => (c, lower reg node s c))) := by
  fun_induction group items with
  | case1 => rfl
  | case2 labels isDefault braced body rest ih =>
    rw [lowerItems, ih, lowerEach_eq_map]
    simp [Arm.map]
  | case3 body rest ih =>
    rw [lowerItems, ih, lowerEach_eq_map]
    simp
  | case4 c rest hl hb ih =>
    rw [lowerItems, ih]
    · rfl
    · exact hl
    · exact hb

/-- The lowered statements of an arm: those up to its first `break`. -/
def lowerArm (reg : Registry) (node : α → Node) (s : Setting α) (arm : Arm α (CStmt α)) :
    Arm α (RustStmt (Leaf α)) :=
  ⟨arm.labels, arm.isDefault, lowerAll reg node s arm.run⟩

/-- **A lowered switch.** -/
theorem lower_switch (x : α) (items : List (CStmt α)) :
    lower reg node s (.switch x items) =
      switchCode reg node s x (s.switchLabel? items)
        ((arms items).map (lowerArm reg node (s.inSwitch (s.switchLabel? items)))) := by
  rw [lower, lowerItems_eq, arms, List.map_map]
  congr 1
  refine List.map_congr_left fun arm _ => ?_
  simp only [Function.comp_apply, Arm.map, lowerArm, Arm.run, lowerAll, List.takeWhile_map,
    List.flatMap_map]
  rfl

end CStmt

end Lowering

end Ferric
