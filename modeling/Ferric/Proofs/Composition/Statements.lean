import Ferric.Proofs.Jumps.Blocks

/-!
# Texts of statements

The parts of a statement stand in front of its blocks or inside of them, are the clauses of a loop
or belong to the arms of a switch.  What holds of all parts holds of them in each of these roles.

Inside of a block other texts may stand than around it: inside of a loop every jump is at home, and
inside of a labelled block a jump has to name its label.  What stands in front of the block of a
loop must not hold a block itself.  So the classes of texts are graded, and closed under the forms
of statements if each block holds texts of the grade that it admits.

## Main definitions

* `ForClauses.All`, `SwitchArm.All`: what holds of every clause of a loop, and of every statement of
  an arm.
* `StatementsClosed`: graded classes of texts that are closed under the forms of statements.
* `Draft.StandsIn`: a draft whose texts are in a class, also as statements and as a body.

## Main results

* `ForClauses.all_ofHeader`, `SwitchArm.all_ofBody`: what holds of all parts holds of clauses and
  arms.
* `StatementsClosed.compose`: the text of a node, given its parts.
-/

namespace Ferric

open List

/-! ## Headers -/

/-- **The parts in front of the blocks of a statement**: tests, clauses and labels.  A loop or a
switch that lacks a part has no block. -/
def Kind.headers {α : Type} (k : Kind) (parts : List α) : List α :=
  match k, parts with
  | .whileStmt, test :: _ :: _ | .switchStmt, test :: _ :: _ | .doStmt, _ :: test :: _ => [test]
  | .whileStmt, parts | .switchStmt, parts | .doStmt, parts => parts
  | .forStmt, parts => parts.dropLast
  | .caseStmt, parts => parts.take 1
  | _, _ => []

theorem Kind.headers_map {α β : Type} (f : α → β) (k : Kind) (parts : List α) :
    k.headers (parts.map f) = (k.headers parts).map f := by
  cases k with
  | whileStmt | switchStmt | doStmt =>
    cases parts with
    | nil => rfl
    | cons first parts => cases parts <;> rfl
  | forStmt => simp [headers]
  | caseStmt => simp [headers]
  | _ => rfl

theorem Kind.mem_of_mem_headers {α : Type} {k : Kind} {parts : List α} {a : α}
    (h : a ∈ k.headers parts) : a ∈ parts := by
  cases k with
  | whileStmt | switchStmt | doStmt =>
    cases parts with
    | nil => exact h
    | cons first parts =>
      cases parts with
      | nil => exact h
      | cons second parts => simp_all [headers]
  | forStmt => exact (dropLast_sublist _).subset h
  | caseStmt => exact mem_of_mem_take h
  | _ => exact absurd h not_mem_nil

/-- A statement that lacks a part has nothing else. -/
theorem Kind.headers_short {α : Type} {k : Kind}
    (hk : k = .whileStmt ∨ k = .doStmt ∨ k = .switchStmt) {parts : List α}
    (short : ∀ a b rest, parts = a :: b :: rest → False) : k.headers parts = parts := by
  cases parts with
  | nil => rcases hk with rfl | rfl | rfl <;> rfl
  | cons a parts =>
    cases parts with
    | nil => rcases hk with rfl | rfl | rfl <;> rfl
    | cons b parts => exact (short a b parts rfl).elim

/-! ## The clauses of a `for` -/

/-- What holds of every clause holds of every clause in its role. -/
structure ForClauses.All {α : Type} (p : α → Prop) (clauses : ForClauses α) : Prop where
  init : ∀ a ∈ clauses.init, p a
  condition : ∀ a ∈ clauses.condition, p a
  step : ∀ a ∈ clauses.step, p a

namespace ForClauses

variable {α : Type} {p : α → Prop} {clauses : List α} (h : ∀ a ∈ clauses, p a)

include h

theorem all_take (filled : Bool) :
    (∀ a ∈ (take filled clauses).1, p a) ∧ ∀ a ∈ (take filled clauses).2, p a := by
  unfold take
  split
  · exact ⟨fun a ha => h a (mem_of_head? ha), fun a ha => h a (mem_of_mem_tail ha)⟩
  · exact ⟨nofun, h⟩

theorem all_assign {slots : ForSlots} {assigned : ForClauses α}
    (found : assign? slots clauses = some assigned) : All p assigned := by
  unfold assign? at found
  split at found
  · obtain rfl := Option.some.inj found
    obtain ⟨init, rest⟩ := all_take h slots.init
    obtain ⟨condition, rest⟩ := all_take rest slots.condition
    obtain ⟨step, -⟩ := all_take rest slots.step
    exact ⟨init, condition, step⟩
  · simp at found

theorem all_guess (node : α → Node) : All p (guess node clauses) := by
  have kept : ∀ b ∈ clauses, ∀ a ∈ some b, p a := by
    rintro b hb a ⟨⟩
    exact h b hb
  unfold guess
  split
  · exact ⟨nofun, nofun, nofun⟩
  · rename_i only
    have only := kept only (by simp)
    split
    · exact ⟨nofun, only, nofun⟩
    · split
      · exact ⟨only, nofun, nofun⟩
      · exact ⟨nofun, nofun, only⟩
  · rename_i first second
    have first := kept first (by simp)
    have second := kept second (by simp)
    split
    · exact ⟨nofun, first, second⟩
    · split
      · exact ⟨first, second, nofun⟩
      · exact ⟨first, nofun, second⟩
  · rename_i init condition step rest
    exact ⟨kept init (by simp), kept condition (by simp), kept step (by simp)⟩

theorem all_ofHeader (node : α → Node) (tokens : List String) :
    All p (ofHeader node tokens clauses) := by
  unfold ofHeader
  split
  · rename_i assigned found
    obtain ⟨slots, -, found⟩ := Option.bind_eq_some_iff.1 found
    exact all_assign h found
  · exact all_guess h node

end ForClauses

/-! ## The arms of a switch -/

/-- What holds of the labels of an arm, and what holds of its statements. -/
structure SwitchArm.All (l p : Draft → Prop) (arm : SwitchArm) : Prop where
  labels : ∀ d ∈ arm.labels, l d
  body : ∀ d ∈ arm.body, p d

namespace SwitchArm

variable {l p : Draft → Prop}

theorem all_openArmOfLast {labels parts : List Draft} {isDefault : Bool}
    (hl : ∀ d ∈ labels, l d) (h : ∀ d ∈ parts, All l p (d.openArm labels isDefault)) :
    All l p (Draft.openArmOfLast labels isDefault parts) := by
  induction parts with
  | nil => exact ⟨hl, nofun⟩
  | cons d parts ih =>
    cases parts with
    | nil => exact h d mem_cons_self
    | cons e parts => exact ih fun f hf => h f (mem_cons_of_mem _ hf)

section Bodies

variable (opens : ∀ d, p d → All l p (d.openArm [] false))

include opens

theorem all_group {statements : List Draft} (h : ∀ d ∈ statements, p d) :
    (∀ d ∈ (group statements).1, p d) ∧ ∀ arm ∈ (group statements).2, All l p arm := by
  induction statements with
  | nil =>
    exact ⟨fun d hd => absurd hd not_mem_nil, fun arm ha => absurd ha not_mem_nil⟩
  | cons d statements ih =>
    obtain ⟨pending, arms⟩ := ih fun e he => h e (mem_cons_of_mem _ he)
    have hd := h d mem_cons_self
    rw [group, foldr_cons]
    dsimp only
    -- a label opens an arm, which takes up the statements behind it
    split
    · refine ⟨fun e he => absurd he not_mem_nil, forall_mem_cons.2 ⟨?_, arms⟩⟩
      obtain ⟨labels, body⟩ := opens d hd
      exact ⟨labels, fun e he => (mem_append.1 he).elim (body e) (pending e)⟩
    · exact ⟨forall_mem_cons.2 ⟨hd, pending⟩, arms⟩

theorem all_ofBody {body : Draft} (h : p body)
    (parts : body.node.kind = .compoundStmt → ∀ d ∈ body.parts, p d) :
    ∀ arm ∈ (ofBody body).2, All l p arm := by
  unfold ofBody
  split
  · rename_i compound
    exact (all_group opens (parts compound)).2
  · exact (all_group opens (by simpa using h)).2

end Bodies

/-- The statements of an arm are those of its body, or stand in a block of its body. -/
theorem All.run {arm : SwitchArm} (h : All l p arm)
    (parts : ∀ d, p d → d.node.kind = .compoundStmt → ∀ q ∈ d.parts, p q) :
    ∀ d ∈ arm.run, p d := by
  intro d hd
  obtain ⟨e, he, hd⟩ := mem_flatMap.1 ((takeWhile_sublist _).subset hd)
  split at hd
  · rename_i compound
    exact parts e (h.body e he) compound d hd
  · obtain rfl := mem_singleton.1 hd
    exact h.body d he

end SwitchArm

section

open Logged

/-- Whether a node of this kind jumps or has a block. -/
def Kind.hasBlock : Kind → Bool
  | .compoundStmt | .ifStmt | .whileStmt | .doStmt | .forStmt | .switchStmt | .breakStmt
  | .continueStmt => true
  | _ => false

/-- Whether a `break` in a node of this kind stays inside. -/
def Kind.catchesBreak : Kind → Bool
  | .whileStmt | .doStmt | .forStmt | .switchStmt => true
  | _ => false

theorem Kind.catchesBreak_of_isExpression {k : Kind} (h : k.isExpression = true) :
    k.catchesBreak = false := by
  cases k with
  | whileStmt | doStmt | forStmt | switchStmt => cases h
  | _ => rfl

/-- The label of a switch, if a `break` has to name one. -/
def switchLabel? (ctx : Context) (arms : List SwitchArm) : Option String :=
  if arms.any SwitchArm.breaksEarly then some ("'switch" ++ ctx.switchSuffix) else none

def switchHead (label? : Option String) : BlockHead :=
  if label?.isSome then .label else .none

/-- **Graded classes of texts that are closed under the forms of statements.**  The names, literals
and types are in the class `L`, and what stands in front of a block is in `H`. -/
structure StatementsClosed (L : String → Prop) (P : Grade → String → Prop)
    (H : BlockHead → String → Prop) : Prop where
  expressions : ∀ g, ExpressionsClosed L (P g)
  of_quiet : ∀ {g : Grade} {s : String}, P .quiet s → P g s
  stacked : ∀ {g : Grade} {texts : List String}, AllOf (P g) texts → P g (Text.stacked texts)
  fixed : ∀ {g : Grade}, ∀ s ∈ [Draft.uninitialized, "return"], P g s
  introduced : ∀ {g : Grade} {s : String}, P g s → ∀ word ∈ ["let mut ", "return ", "goto "],
    P g (word ++ s)
  returned : ∀ {g : Grade} {s : String}, P g s → P g (s ++ ";\nreturn")
  typed : ∀ {g : Grade} {a t v : String}, L a → L t → P g v →
    P g (a ++ ": " ++ t ++ " = " ++ v ++ ";")
  named : ∀ {g : Grade} {a : String}, L a → P g (a ++ ":;")
  branch : ∀ {g : Grade} {c b : String}, P g c → P g b → P g ("if " ++ c ++ " " ++ b)
  orElse : ∀ {g : Grade} {a b : String}, P g a → P g b → P g (a ++ " else " ++ b)
  joined : ∀ {g : Grade} {texts : List String}, AllOf (P g) texts →
    ∀ link ∈ [" else ", " || "], P g (Text.joined link texts)
  exitCheck : ∀ {c : String}, P .quiet c → P .jumping (Draft.exitCheck c)
  switchName : ∀ {g : Grade} (ctx : Context), P g ("switch_value" ++ ctx.switchSuffix)
  bound : ∀ {a v : String}, P .quiet a → P .quiet v → P .quiet ("let " ++ a ++ " = " ++ v ++ ";")
  block : ∀ {g : Grade} {head : BlockHead} {a : String} {texts : List String}, H head a →
    g ≠ .quiet → AllOf (P (g.within head)) texts → P g (a ++ Fragment.block texts)
  bare : H .none ""
  loop : H .loop "loop "
  test : ∀ {c : String}, P .quiet c → H .loop ("while " ++ c ++ " ")
  label : ∀ ctx : Context, H .label ("'switch" ++ ctx.switchSuffix ++ ": ")

/-- **A draft whose texts are in a class**, also as statements and as a body. -/
structure Draft.StandsIn (P : String → Prop) (ctx : Context) (d : Draft) : Prop where
  text : P (d.text ctx).value
  statements : AllOf P (d.statements ctx).value
  body : AllOf P (d.bodyStatements ctx).value

theorem Draft.StandsIn.within {P : String → Prop} {ctx : Context} {d : Draft}
    (h : d.StandsIn P ctx) : d.Within P ctx ctx :=
  ⟨⟨h.text, rfl⟩, ⟨h.statements, rfl⟩⟩

/-- A draft whose own text is in the class, as are those of its parts where they become its
statements. -/
theorem ExpressionsClosed.standsIn {L P : String → Prop} (hP : ExpressionsClosed L P)
    {ctx : Context} {d : Draft} (text : P (d.text ctx).value)
    (parts : d.node.kind.catchesBreak = false → ∀ p ∈ d.parts, p.Within P ctx ctx) :
    d.StandsIn P ctx := by
  have within (hk : d.node.kind.catchesBreak = false) :
      AllOf P (Draft.statementsOf d.parts ctx).value := (statementsOf (parts hk)).1
  -- a comma is the statements of its operands, and a body has no braces of its own
  have statements : AllOf P (d.statements ctx).value := by
    rw [Draft.statements_eq]
    split
    · rename_i comma
      exact within (by rw [comma]; rfl)
    · rw [value_map]
      exact hP.allOf_asStatements text
  refine ⟨text, statements, ?_⟩
  unfold Draft.bodyStatements
  split
  · rename_i compound
    exact within (by rw [compound]; rfl)
  · exact statements

/-- **An arm whose statements are in a class.** -/
structure SwitchArm.StandsIn (P : Grade → String → Prop) (g : Grade) (ctx : Context)
    (arm : SwitchArm) : Prop where
  labels : ∀ d ∈ arm.labels, d.StandsIn (P .quiet) ctx
  run : ∀ d ∈ arm.run, d.StandsIn (P g) ctx

namespace StatementsClosed

open Draft

variable {L : String → Prop} {P : Grade → String → Prop} {H : BlockHead → String → Prop}
  (hP : StatementsClosed L P H) {g : Grade} {ctx : Context}

include hP

section Parts

variable {d : Draft} (h : d.StandsIn (P g) ctx)

include h

theorem expression : P g (d.expression ctx).value :=
  ((hP.expressions g).expression h.within).1

theorem condition : P g (d.condition ctx).value :=
  ((hP.expressions g).condition h.within).1

theorem branchText (hg : g ≠ .quiet) : P g (d.branch ctx).value := by
  have block := hP.block (g := g) hP.bare hg h.body
  rwa [String.empty_append] at block

end Parts

variable {parts : List Draft}

theorem lastText_of_quiet (h : ∀ d ∈ parts, d.StandsIn (P .quiet) ctx) :
    P g (lastText parts ctx).value :=
  hP.of_quiet ((hP.expressions .quiet).lastText fun d hd => (h d hd).within).1

/-! ## Variables and results -/

section Here

variable (h : ∀ d ∈ parts, d.StandsIn (P g) ctx)

include h

theorem initialValue {reg : Registry} {n : Node} (hz : L (zeroValue reg.recordName n.type)) :
    P g (initialValue reg n parts ctx).value := by
  have value {text : String} (ht : P g text) : P g (if text == "" then
      zeroValue reg.recordName n.type else Fragment.nullIfZero text n.type) := by
    split
    · exact (hP.expressions g).leaf hz
    · exact (hP.expressions g).nullIfZero ht _
  unfold Draft.initialValue
  dsimp only
  split
  · have fixed : P g uninitialized := hP.fixed _ (by simp)
    split
    · rw [value_bind]
      exact fixed
    · exact fixed
  · split
    · rename_i init found
      obtain ⟨last, -⟩ := Option.filter_eq_some_iff.1 found
      have text := hP.expression (h init (mem_of_getLast? last))
      rw [value_bind, value_pure]
      exact value text
    · rw [value_bind, value_pure]
      exact value (hP.expressions g).empty

theorem varDeclaration {reg : Registry} {n : Node} (hn : L (sanitize n.spelling))
    (ht : L (reg.renderType n.type)) (hz : L (zeroValue reg.recordName n.type)) :
    P g (varDeclaration reg n parts ctx).value := by
  have declaration := hP.typed hn ht (hP.initialValue h hz)
  simp only [Draft.varDeclaration, value_bind, value_pure]
  split
  · exact hP.introduced declaration _ (by simp)
  · exact declaration

theorem declarations : P g (declarations parts ctx).value := by
  simp only [Draft.declarations, value_bind, value_pure, value_flatMapList]
  refine hP.stacked fun s hs => ?_
  obtain ⟨d, hd, hs⟩ := mem_flatMap.1 hs
  rw [value_map] at hs
  exact (hP.expressions g).allOf_asStatements (h d hd).text s hs

theorem returnStatement : P g (returnStatement parts ctx).value := by
  have value := ((hP.expressions g).firstExpression fun d hd => (h d hd).within).1
  simp only [Draft.returnStatement, value_bind, value_pure]
  split
  · exact hP.fixed _ (by simp)
  · split
    · exact hP.returned value
    · exact hP.introduced ((hP.expressions g).nullIfZero value _) _ (by simp)

/-! ## Labels -/

theorem strayLabel (n : Node) : P g (strayLabel n parts ctx).value := by
  unfold Draft.strayLabel
  rw [value_bind]
  split
  · rename_i d last
    exact hP.stacked (h d (mem_of_getLast? last)).statements
  · exact (hP.expressions g).empty

theorem labelStatement {n : Node} (hn : L n.spelling) :
    P g (labelStatement n parts ctx).value := by
  have statements := (ExpressionsClosed.statementsOf fun d hd => (h d hd).within).1
  simp only [Draft.labelStatement, value_bind, value_pure]
  exact hP.stacked (forall_mem_cons.2 ⟨hP.named hn, statements⟩)

theorem ifStatement (hg : g ≠ .quiet) : P g (ifStatement parts ctx).value := by
  unfold Draft.ifStatement
  split
  · rename_i test yes rest
    have opening := hP.branch (hP.condition (h test (by simp)))
      (hP.branchText (h yes (by simp)) hg)
    simp only [value_bind]
    cases rest with
    | nil => exact opening
    | cons no rest =>
      have part := h no (by simp)
      dsimp only
      split
      · rw [value_bind, value_pure]
        exact hP.orElse opening part.text
      · rw [value_bind, value_pure]
        exact hP.orElse opening (hP.branchText part hg)
  · exact ((hP.expressions g).lastText fun d hd => (h d hd).within).1

end Here

/-! ## Loops -/

section Loops

variable (hg : g ≠ .quiet)

include hg

theorem whileLoop (hh : ∀ d ∈ Kind.headers .whileStmt parts, d.StandsIn (P .quiet) ctx)
    (hb : ∀ d ∈ parts, d.StandsIn (P .jumping) (ctx.inLoop none)) :
    P g (whileLoop parts ctx).value := by
  unfold Draft.whileLoop
  split
  · rename_i test body rest
    have head := hP.test (hP.condition (hh test mem_cons_self))
    simp only [value_bind, value_pure, Draft.branch, value_map]
    exact hP.block head hg (hb body (by simp)).body
  · rename_i short
    rw [Kind.headers_short (.inl rfl) short] at hh
    exact hP.lastText_of_quiet hh

theorem doLoop (hh : ∀ d ∈ Kind.headers .doStmt parts, d.StandsIn (P .quiet) ctx)
    (hb : ∀ step : Option String, (∀ s ∈ step, P .jumping s) →
      ∀ d ∈ parts, d.StandsIn (P .jumping) (ctx.inLoop step)) :
    P g (doLoop parts ctx).value := by
  unfold Draft.doLoop
  split
  · rename_i body test rest
    have check := hP.exitCheck (hP.condition (hh test mem_cons_self))
    -- the check stands at the end of the body and in the context, for those who continue
    have statements := (hb (some _) (by simpa using check) body (by simp)).body
    simp only [value_bind, value_pure]
    refine hP.block hP.loop hg fun s hs => ?_
    rcases mem_append.1 hs with hs | hs
    · exact statements s hs
    · obtain rfl := mem_singleton.1 hs
      exact check
  · rename_i short
    rw [Kind.headers_short (.inr (.inl rfl)) short] at hh
    exact hP.lastText_of_quiet hh

omit hP hg in
theorem clauseStatements {clause? : Option Draft} (hc : ∀ d ∈ clause?, d.StandsIn (P g) ctx) :
    AllOf (P g) (clauseStatements clause? ctx).value := by
  unfold Draft.clauseStatements
  split
  · exact (hc _ rfl).statements
  · exact allOf_nil

omit hg in
theorem loopHead {condition? : Option Draft}
    (hc : ∀ d ∈ condition?, d.StandsIn (P .quiet) ctx) :
    H .loop (loopHead condition? ctx).value := by
  unfold Draft.loopHead
  split
  · exact hP.test (hP.condition (hc _ rfl))
  · exact hP.loop

theorem forLoop (n : Node) (hh : ∀ d ∈ Kind.headers .forStmt parts, d.StandsIn (P .quiet) ctx)
    (hb : ∀ step : Option String, (∀ s ∈ step, P .jumping s) →
      ∀ d ∈ parts, d.StandsIn (P .jumping) (ctx.inLoop step)) :
    P g (forLoop n parts ctx).value := by
  unfold Draft.forLoop
  split
  · exact (hP.expressions g).empty
  · rename_i body last
    have clauses : (ForClauses.ofHeader Draft.node n.tokens parts.dropLast).All
        (StandsIn (P .quiet) ctx) := ForClauses.all_ofHeader hh _ _
    simp only [value_bind, value_pure]
    generalize ForClauses.ofHeader Draft.node n.tokens parts.dropLast = slots at clauses
    have init := clauseStatements clauses.init
    have step := clauseStatements clauses.step
    -- the body runs in a context that holds the step
    have inside := hb (if (Draft.clauseStatements slots.step ctx).value.isEmpty then none
        else some (Text.stacked (Draft.clauseStatements slots.step ctx).value)) (fun s hs => by
      split at hs
      · simp at hs
      · obtain rfl := Option.some.inj hs
        exact hP.of_quiet (hP.stacked step)) body (mem_of_getLast? last)
    have loop := hP.block (hP.loopHead clauses.condition) hg fun s hs =>
      (mem_append.1 hs).elim (inside.body s) fun hs => hP.of_quiet (step s hs)
    refine hP.stacked fun s hs => ?_
    rcases mem_append.1 hs with hs | hs
    · exact hP.of_quiet (init s hs)
    · obtain rfl := mem_singleton.1 hs
      exact loop

end Loops

/-! ## Switches -/

section Switches

theorem equal {a b : String} (ha : P g a) (hb : P g b) : P g (a ++ " == " ++ b) := by
  have whole := (hP.expressions g).between ha hb (.comparison .eq)
  have link : a ++ " == " = a ++ " " ++ (BinaryOp.comparison .eq).spelling ++ " " := by
    simp only [String.append_assoc]
    rfl
  rwa [link]

omit hP in
theorem armStatements {arm : SwitchArm} (h : arm.StandsIn P g ctx) (isLast : Bool) :
    AllOf (P g) (armStatements arm isLast ctx).value := by
  have statements := (ExpressionsClosed.statementsOf fun d hd => (h.run d hd).within).1
  unfold Draft.armStatements
  rw [value_bind]
  split
  · exact statements
  · exact statements

theorem armTest {arm : SwitchArm} (h : arm.StandsIn P g ctx) {scrutinee : String}
    (hs : P g scrutinee) : P g (Draft.armTest arm scrutinee ctx).value := by
  simp only [Draft.armTest, value_bind, value_pure, value_mapList]
  refine hP.joined (fun test ht => ?_) _ (by simp)
  obtain ⟨label, hl, rfl⟩ := mem_map.1 ht
  exact hP.equal hs (hP.of_quiet (hP.expression (h.labels label hl)))

/-- The branches of a chain, one after the other. -/
theorem armBranches (hg : g ≠ .quiet) {arms : List SwitchArm}
    (h : ∀ arm ∈ arms, arm.StandsIn P g ctx) {scrutinee : String} (hs : P g scrutinee) :
    AllOf (P g) (armBranches scrutinee ctx arms).value.tested ∧
      ∀ s ∈ (Draft.armBranches scrutinee ctx arms).value.default?, P g s := by
  induction arms with
  | nil => exact ⟨by simp [Draft.armBranches, AllOf], by simp [Draft.armBranches]⟩
  | cons arm arms ih =>
    obtain ⟨tested, default⟩ := ih fun a ha => h a (mem_cons_of_mem _ ha)
    have ha := h arm mem_cons_self
    have block := hP.block (g := g) hP.bare hg (armStatements ha arms.isEmpty)
    rw [String.empty_append] at block
    rw [Draft.armBranches, value_bind]
    split
    · rw [value_bind, value_pure]
      refine ⟨tested, fun s hm => ?_⟩
      rcases Option.or_eq_some_iff.1 hm with hm | ⟨-, hm⟩
      · exact default s hm
      · obtain rfl := Option.some.inj hm
        exact block
    · rw [value_bind, value_bind, value_pure]
      exact ⟨forall_mem_cons.2 ⟨hP.branch (hP.armTest ha hs) block, tested⟩, default⟩

theorem enclose (hg : g ≠ .quiet) (arms : List SwitchArm) {binding : List String}
    (hb : AllOf (P .quiet) binding) {chain : String}
    (hc : P (g.within (switchHead (switchLabel? ctx arms))) chain) :
    P g (enclose (switchLabel? ctx arms) binding chain) := by
  have inside : AllOf (P (g.within (switchHead (switchLabel? ctx arms)))) (binding ++ [chain]) := by
    intro s hs
    rcases mem_append.1 hs with hs | hs
    · exact hP.of_quiet (hb s hs)
    · obtain rfl := mem_singleton.1 hs
      exact hc
  unfold Draft.enclose
  split
  · exact hP.stacked fun s hs => hP.of_quiet (hb s hs)
  · unfold switchLabel? at hc inside ⊢
    by_cases early : arms.any SwitchArm.breaksEarly = true
    · rw [if_pos early] at inside ⊢
      exact hP.block (hP.label ctx) hg inside
    · rw [if_neg early] at inside hc ⊢
      have block := hP.block hP.bare hg inside
      rw [String.empty_append] at block
      dsimp only
      split
      · exact hc
      · exact block

/-- **A switch**: with a label, no jump in an arm may lack one. -/
theorem switchStatement (hg : g ≠ .quiet)
    (hh : ∀ d ∈ Kind.headers .switchStmt parts, d.StandsIn (P .quiet) ctx)
    (ha : ∀ test body rest, parts = test :: body :: rest →
      ∀ arm ∈ (SwitchArm.ofBody body).2,
        arm.StandsIn P (g.within (switchHead (switchLabel? ctx (SwitchArm.ofBody body).2)))
          (ctx.inSwitch (switchLabel? ctx (SwitchArm.ofBody body).2))) :
    P g (switchStatement parts ctx).value := by
  unfold Draft.switchStatement
  split
  · rename_i test body rest
    have value := hP.expression (hh test mem_cons_self)
    have arms := ha test body rest rfl
    have chain {scrutinee : String} (hs : P .quiet scrutinee) :
        P (g.within (switchHead (switchLabel? ctx (SwitchArm.ofBody body).2)))
          (Draft.armBranches scrutinee (ctx.inSwitch (switchLabel? ctx (SwitchArm.ofBody body).2))
            (SwitchArm.ofBody body).2).value.chain := by
      obtain ⟨tested, default⟩ :=
        hP.armBranches (Grade.within_ne_quiet hg _) arms (hP.of_quiet hs)
      refine hP.joined (fun s hs => ?_) _ (by simp)
      rcases mem_append.1 hs with hs | hs
      · exact tested s hs
      · exact default s (Option.mem_toList.1 hs)
    have name := hP.switchName (g := .quiet) ctx
    simp only [value_bind, value_pure]
    -- the tests repeat the value, or a name that it is bound to
    by_cases repeatable : isRepeatable test.node = true
    · simp only [if_pos repeatable]
      exact hP.enclose hg _ allOf_nil (chain value)
    · simp only [if_neg repeatable]
      exact hP.enclose hg _ (allOf_singleton (hP.bound name value)) (chain name)
  · rename_i short
    rw [Kind.headers_short (.inr (.inr rfl)) short] at hh
    exact hP.lastText_of_quiet hh

end Switches

/-! ## Nodes -/

/-- **The text of a node is in the class**, if its leaves and its parts are: those in front of a
block in the class of the lowest grade, and those in a block in that of the block. -/
theorem compose {reg : Registry} {n : Node} (leaves : AllOf L (n.leaves reg))
    (here : n.kind.catchesBreak = false → ∀ d ∈ parts, d.StandsIn (P g) ctx)
    (headers : ∀ d ∈ n.kind.headers parts, d.StandsIn (P .quiet) ctx)
    (bodies : ∀ step : Option String, (∀ s ∈ step, P .jumping s) →
      ∀ d ∈ parts, d.StandsIn (P .jumping) (ctx.inLoop step))
    (blocks : n.kind.hasBlock = true → g ≠ .quiet)
    (arms : n.kind = .switchStmt → ∀ test body rest, parts = test :: body :: rest →
      ∀ arm ∈ (SwitchArm.ofBody body).2,
        arm.StandsIn P (g.within (switchHead (switchLabel? ctx (SwitchArm.ofBody body).2)))
          (ctx.inSwitch (switchLabel? ctx (SwitchArm.ofBody body).2)))
    (breaks : n.kind = .breakStmt → P g (breakText ctx))
    (continues : n.kind = .continueStmt → P g (continueText ctx)) :
    P g (compose reg n parts ctx).value := by
  by_cases expression : n.kind.isExpression = true
  · have within := fun d hd => (here (Kind.catchesBreak_of_isExpression expression) d hd).within
    exact ((hP.expressions g).compose within expression leaves).1
  have empty : P g "" := (hP.expressions g).empty
  -- what a kind shows and holds is known once the kind is; then there is one lemma for each form
  cases kind : n.kind <;> simp only [Node.leaves, kind] at leaves <;>
    simp only [kind] at here headers blocks arms breaks continues expression <;>
    simp only [Draft.compose, kind]
  case unit => exact ((hP.expressions g).lastText fun d hd => (here rfl d hd).within).1
  case structDecl | unionDecl | enumDecl | typedefDecl | functionDecl | nullStmt => exact empty
  case enumConstantDecl =>
    exact ((hP.expressions g).firstExpression fun d hd => (here rfl d hd).within).1
  case fieldDecl =>
    exact (hP.expressions g).field (leaves _ (by simp))
      ((hP.expressions g).leaf (leaves _ (by simp)))
  case varDecl =>
    exact hP.varDeclaration (here rfl) (leaves _ (by simp)) (leaves _ (by simp))
      (leaves _ (by simp))
  case labelRef => exact (hP.expressions g).leaf (leaves _ (by simp))
  case compoundStmt =>
    have texts := (ExpressionsClosed.statementsOf fun d hd => (here rfl d hd).within).1
    have block := hP.block hP.bare (blocks rfl) texts
    rwa [String.empty_append] at block
  case declStmt => exact hP.declarations (here rfl)
  case returnStmt => exact hP.returnStatement (here rfl)
  case ifStmt => exact hP.ifStatement (here rfl) (blocks rfl)
  case whileStmt => exact hP.whileLoop (blocks rfl) headers (bodies none (by simp))
  case doStmt => exact hP.doLoop (blocks rfl) headers bodies
  case forStmt => exact hP.forLoop (blocks rfl) n headers bodies
  case switchStmt => exact hP.switchStatement (blocks rfl) headers (arms trivial)
  case caseStmt | defaultStmt => exact hP.strayLabel (here rfl) n
  case breakStmt => exact breaks trivial
  case continueStmt => exact continues trivial
  case gotoStmt =>
    exact hP.introduced ((hP.expressions g).leaf (leaves _ mem_cons_self)) _ (by simp)
  case labelStmt => exact hP.labelStatement (here rfl) (leaves _ (by simp))
  all_goals exact absurd rfl expression

end StatementsClosed

end

end Ferric
