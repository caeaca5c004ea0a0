import Ferric.Conversion.Functions
import Ferric.Proofs.Composition.Statements
import Ferric.Proofs.Flow.Arms

/-!
# Jumps in labelled blocks

A `break` that leaves a switch early goes through the label of a block around the chain.  Inside of
such a block Rust asks for a label at every jump that is not in a loop of its own.  The `break`s of
the switch have theirs.  A `continue` has none: it belongs to a loop around the switch, and that
loop has no label.  So the jumps of a function are legal as long as no labelled switch holds a
`continue` for a loop around it, and not always otherwise.

## Main definitions

* `Context.IsReadable`: what a jump takes from the context.
* `Node.continues`: whether a `continue` in a node belongs to a loop around it.
* `Node.strandsContinue`: a labelled switch with such a `continue` in an arm.
* `Node.Allows`: the grades of the text of a node.
* `Node.IsOrderly`: what is asked of every node of a tree.

## Main results

* `expressionsClosed_reads`, `statementsClosed_reads`: the forms of expressions and statements.
* `Draft.readsWell_of_mem_walk`: every tree can be read wherever it is allowed to stand.
* `labelled_jumps_legal`: the jumps of a function.
* `continue_lacks_label`: a function whose jumps are not all legal.
-/

namespace Ferric

open Chars

theorem isQuiet_spelling (op : BinaryOp) : isQuiet op.spelling = true := by
  cases op with
  | arithmetic op | comparison op | logical op => cases op <;> decide
  | assign op? =>
    cases op? with
    | none => decide
    | some op => cases op <;> decide
  | comma => decide

theorem Reads.between {g : Grade} {a b : String} (ha : Reads g a) (hb : Reads g b)
    (op : BinaryOp) : Reads g (a ++ " " ++ op.spelling ++ " " ++ b) := by
  have left : Opens g 0 (a ++ " ") := Ends.literal ha (by decide)
  exact ((left.text (reads_of_isQuiet (isQuiet_spelling op))).literal (by decide)).text hb

theorem Reads.conditional {g : Grade} {c a b : String} (hc : Reads g c) (ha : Reads g a)
    (hb : Reads g b) :
    Reads g ("if " ++ c ++ " \x7b " ++ a ++ " \x7d else \x7b " ++ b ++ " \x7d") := by
  have word : Opens g 0 "if " := opens_literal (by decide)
  have tested : Opens g 1 ("if " ++ c ++ " \x7b ") := Ends.literal (word.text hc) (by decide)
  have first : Opens g 1 ("if " ++ c ++ " \x7b " ++ a ++ " \x7d else \x7b ") :=
    Ends.literal (tested.text ha) (by decide)
  exact ((first.text hb).literal (by decide)).ends

/-- Texts with commas between them. -/
theorem Reads.list {g : Grade} {texts : List String} (h : AllOf (Reads g) texts) :
    Reads g (Text.joined ", " texts) :=
  Reads.joined (by decide) h

/-- **The forms of expressions can be read** wherever their operands can. -/
theorem expressionsClosed_reads (g : Grade) :
    ExpressionsClosed (fun s => isQuiet s = true) (Reads g) where
  leaf := reads_of_isQuiet
  empty := reads_of_isQuiet rfl
  null := reads_of_isQuiet (by decide)
  asExpression := Reads.asExpression
  asStatement := Reads.asStatement
  grouped := Reads.grouped
  before h mark hm :=
    have marks : ∀ mark ∈ ["-", "!"], literalDepth 0 mark = some 0 := by decide
    (opens_literal (marks mark hm)).text h
  behind h mark hm :=
    have marks : ∀ mark ∈ operandMarks, isQuiet mark = true ∧
      mark.toList.head?.all separates = true := by decide
    Ends.append h (reads_of_isQuiet (marks mark hm).1) (marks mark hm).2
  between := Reads.between
  member ha hb := (Ends.literal ha (by decide)).text (reads_of_isQuiet hb)
  index {a _} ha hb :=
    have opened : Opens g 0 (a ++ "[") := Ends.literal ha (by decide)
    ((opened.text hb).literal (by decide)).ends
  call {a _} ha h :=
    have opened : Opens g 0 (a ++ "(") := Ends.literal ha (by decide)
    ((opened.text (Reads.list h)).literal (by decide)).ends
  commas h :=
    have opened : Opens g 1 "\x7b " := opens_literal (by decide)
    ((opened.text (Reads.joined (by decide) h)).literal (by decide)).ends
  conditional := Reads.conditional
  parens := Reads.parens
  field ha hb := (opens_quiet_literal ha (by decide) (by decide)).text hb
  record {a _} ha h :=
    have opened : Opens g 1 (a ++ " \x7b ") := Ends.literal (reads_of_isQuiet ha) (by decide)
    ((opened.text (Reads.list h)).literal (by decide)).ends
  array h :=
    have opened : Opens g 0 "[" := opens_literal (by decide)
    ((opened.text (Reads.list h)).literal (by decide)).ends

section

open Fragment

/-- **What a jump takes from the context**: the step may stand in a loop, and the label is one. -/
structure Context.IsReadable (ctx : Context) : Prop where
  step : ∀ s ∈ ctx.loopStep, Reads .jumping s
  label : ∀ l ∈ ctx.breakLabel, IsBlockLabel l

variable (ctx : Context)

theorem Context.IsReadable.inLoop {step : Option String} (h : ∀ s ∈ step, Reads .jumping s) :
    (ctx.inLoop step).IsReadable where
  step := h
  label := by simp [Context.inLoop]

theorem Context.IsReadable.inSwitch {ctx : Context} (hctx : ctx.IsReadable)
    {label : Option String} (h : ∀ l ∈ label, IsBlockLabel l) :
    (ctx.inSwitch label).IsReadable where
  step := hctx.step
  label := h

/-- The digits behind the names of a switch. -/
theorem Context.isWordChar_switchSuffix : ∀ c ∈ ctx.switchSuffix.toList, isWordChar c = true := by
  unfold switchSuffix
  split
  · simp
  · intro c hc
    exact isWordChar_of_mem_toString hc

theorem Context.isBlockLabel_switch : IsBlockLabel ("'switch" ++ ctx.switchSuffix) := by
  refine ⟨"switch".toList ++ ctx.switchSuffix.toList, by simp, fun c hc => ?_, by simp⟩
  rcases List.mem_append.1 hc with hc | hc
  · have letters : ∀ c ∈ "switch".toList, isWordChar c = true := by decide
    exact letters c hc
  · exact ctx.isWordChar_switchSuffix c hc

theorem isBlockLabel_switchLabel? (arms : List SwitchArm) :
    ∀ l ∈ switchLabel? ctx arms, IsBlockLabel l := by
  intro l hl
  unfold switchLabel? at hl
  split at hl
  · obtain rfl := Option.some.inj hl
    exact ctx.isBlockLabel_switch
  · simp at hl

theorem reads_switchName (g : Grade) (ctx : Context) :
    Reads g ("switch_value" ++ ctx.switchSuffix) := by
  have words : ∀ w ∈ jumpWords ++ loopWords, '_' ∉ w := by decide
  have mark : '_' ∈ ("switch_value" ++ ctx.switchSuffix).toList := by simp
  refine reads_of_isQuiet (isQuiet_word (fun c hc => ?_) fun hw => words _ hw mark)
  rw [String.toList_append] at hc
  rcases List.mem_append.1 hc with hc | hc
  · have letters : ∀ c ∈ "switch_value".toList, isWordChar c = true := by decide
    exact letters c hc
  · exact ctx.isWordChar_switchSuffix c hc

namespace Draft

/-! ## Jumps -/

section Jumps

variable {g : Grade} {ctx : Context}

theorem reads_breakText (hctx : ctx.IsReadable)
    (hg : g = .jumping ∨ g = .safe ∧ ctx.breakLabel ≠ none) : Reads g (breakText ctx) := by
  unfold breakText
  split
  · rename_i label found
    have labelled := reads_break_label (hctx.label label found)
    rcases hg with rfl | ⟨rfl, -⟩
    · exact labelled.jumping
    · exact labelled
  · rename_i none
    rcases hg with rfl | ⟨rfl, some⟩
    · exact reads_break
    · exact absurd none some

theorem reads_continueText (hctx : ctx.IsReadable) : Reads .jumping (continueText ctx) := by
  unfold continueText
  split
  · rename_i step found
    have lines : Opens .jumping 0 (asStatement step ++ "\n") :=
      Ends.literal (hctx.step step found).asStatement (by decide)
    have shape : asStatement step ++ "\ncontinue" =
        asStatement step ++ "\n" ++ "continue" := by
      rw [String.append_assoc]
      rfl
    rw [shape]
    exact lines.text reads_continue
  · exact reads_continue

/-- The check at the end of a `do` loop. -/
theorem reads_exitCheck {condition : String} (hc : Reads .quiet condition) :
    Reads .jumping (exitCheck condition) := by
  have leave : Reads .jumping (block ["break;"]) :=
    reads_block (by decide) fun s hs => by
      obtain rfl := List.mem_singleton.1 hs
      exact (Ends.literal reads_break (b := ";") (by decide)).ends
  have body : block ["break;"] = "\x7b\n    break;\n\x7d" := by decide
  have word : Opens .jumping 0 "if !(" := opens_literal (by decide)
  have tested : Opens .jumping 0 ("if !(" ++ ungrouped condition ++ ") ") :=
    Ends.literal (word.text hc.ungrouped.of_quiet) (by decide)
  have shape : exitCheck condition =
      "if !(" ++ ungrouped condition ++ ") " ++ block ["break;"] := by
    rw [body]
    apply String.toList_inj.1
    simp [exitCheck]
  rw [shape]
  exact tested.text leave

end Jumps

end Draft

/-- **The forms of statements can be read** wherever their parts can, and blocks wherever their
statements have the grade that they admit. -/
theorem statementsClosed_reads :
    StatementsClosed (fun s => isQuiet s = true) Reads Heads where
  expressions := expressionsClosed_reads
  of_quiet := Reads.of_quiet
  stacked := Reads.stacked
  fixed s hs :=
    have quiet : ∀ s ∈ [Draft.uninitialized, "return"], isQuiet s = true := by decide
    reads_of_isQuiet (quiet s hs)
  introduced h word hw :=
    have words : ∀ word ∈ ["let mut ", "return ", "goto "], literalDepth 0 word = some 0 := by
      decide
    (opens_literal (words word hw)).text h
  returned h := Ends.append h (reads_of_isQuiet (by decide)) (by decide)
  typed {g a t _} ha ht hv :=
    have name : Opens g 0 (a ++ ": ") := opens_quiet_literal ha (by decide) (by decide)
    have typed : Opens g 0 (a ++ ": " ++ t ++ " = ") :=
      Ends.literal (name.text (reads_of_isQuiet ht)) (by decide)
    (Ends.literal (typed.text hv) (by decide)).ends
  named ha := (opens_quiet_literal ha (by decide) (by decide)).ends
  branch {g c _} hc hb :=
    have word : Opens g 0 "if " := opens_literal (by decide)
    have tested : Opens g 0 ("if " ++ c ++ " ") := Ends.literal (word.text hc) (by decide)
    tested.text hb
  orElse ha hb := (Ends.literal ha (by decide)).text hb
  joined h link hl :=
    have links : ∀ link ∈ [" else ", " || "], linkDepth 0 link = some 0 := by decide
    Reads.joined (links link hl) h
  exitCheck := Draft.reads_exitCheck
  switchName := reads_switchName _
  bound {a _} ha hv :=
    have word : Opens .quiet 0 "let " := opens_literal (by decide)
    have named : Opens .quiet 0 ("let " ++ a ++ " = ") := Ends.literal (word.text ha) (by decide)
    (Ends.literal (named.text hv) (by decide)).ends
  block ha hg h := ha.block hg h
  bare := Opens.heads (opens_literal rfl)
  loop := heads_loop
  test := heads_while
  label ctx := heads_label ctx.isBlockLabel_switch

end

section

open JumpReader Draft Node List Fragment

/-! ## Jumps of a tree -/

mutual

/-- Whether a `continue` in this node belongs to a loop around it. -/
def Node.continues : Node → Bool
  | ⟨kind, _, _, children, _, _, _, _, _⟩ =>
    match kind with
    | .continueStmt => true
    | .whileStmt | .doStmt | .forStmt => false
    | _ => Node.anyContinues children

/-- Whether a `continue` in one of some nodes belongs to a loop around them. -/
def Node.anyContinues : List Node → Bool
  | [] => false
  | c :: cs => c.continues || Node.anyContinues cs

end

namespace Node

/-- Whether a tree has neither jumps nor blocks. -/
def isPlain (n : Node) : Bool :=
  n.walk.all fun m => !m.kind.hasBlock

/-- **A labelled switch with a `continue` in an arm** that belongs to a loop around the switch. -/
def strandsContinue (reg : Registry) (n : Node) : Bool :=
  match n.kind, n.children with
  | .switchStmt, _ :: body :: _ =>
    let arms := (SwitchArm.ofBody (Draft.ofNode reg body)).2
    arms.any SwitchArm.breaksEarly && arms.any fun arm => arm.run.any (·.node.continues)
  | _, _ => false

/-- **The grades of the text of a node**: without jumps and blocks it may stand anywhere, and
without jumps that lack a label it may stand in a labelled block. -/
def Allows (ctx : Context) (n : Node) : Grade → Prop
  | .quiet => n.isPlain = true
  | .safe => n.continues = false ∧ (n.leavesSwitch = true → ctx.breakLabel ≠ none)
  | .jumping => True

theorem anyContinues_eq (ns : List Node) : anyContinues ns = ns.any continues := by
  induction ns with
  | nil => rfl
  | cons n ns ih => simp [anyContinues, ih]

theorem continues_eq (n : Node) :
    n.continues = match n.kind with
      | .continueStmt => true
      | .whileStmt | .doStmt | .forStmt => false
      | _ => n.children.any continues := by
  have children : n.continues = match n.kind with
      | .continueStmt => true
      | .whileStmt | .doStmt | .forStmt => false
      | _ => anyContinues n.children := by cases n; rfl
  rw [children, anyContinues_eq]

section Children

variable {ctx : Context} {n c : Node} (hc : c ∈ n.children)

include hc

theorem continues_of_child (hk : n.kind = .switchStmt ∨ n.kind.catchesBreak = false)
    (h : c.continues = true) : n.continues = true := by
  have some : n.children.any continues = true := any_eq_true.2 ⟨c, hc, h⟩
  rw [continues_eq]
  split
  · rfl
  · simp_all [Kind.catchesBreak]
  · simp_all [Kind.catchesBreak]
  · simp_all [Kind.catchesBreak]
  · exact some

theorem leavesSwitch_of_child (hk : n.kind.catchesBreak = false) (h : c.leavesSwitch = true) :
    n.leavesSwitch = true := by
  have some : n.children.any leavesSwitch = true := any_eq_true.2 ⟨c, hc, h⟩
  rw [leavesSwitch_eq]
  split
  · rfl
  · simp_all [Kind.catchesBreak]
  · simp_all [Kind.catchesBreak]
  · simp_all [Kind.catchesBreak]
  · simp_all [Kind.catchesBreak]
  · exact some

theorem isPlain_child (h : n.isPlain = true) : c.isPlain = true := by
  refine all_eq_true.2 fun m hm => ?_
  exact all_eq_true.1 h m (mem_walk_of_child hc hm)

/-- The children of a node that is neither a loop nor a switch stand where it stands. -/
theorem Allows.child {g : Grade} (h : n.Allows ctx g) (hk : n.kind.catchesBreak = false) :
    c.Allows ctx g := by
  cases g with
  | quiet => exact isPlain_child hc h
  | safe =>
    obtain ⟨stays, labelled⟩ := h
    refine ⟨?_, fun leaves => labelled (leavesSwitch_of_child hc hk leaves)⟩
    cases continues : c.continues with
    | false => rfl
    | true => rw [continues_of_child hc (.inr hk) continues] at stays; cases stays
  | jumping => trivial

end Children

end Node

/-! ## Arms -/

/-- The drafts below a node in which no other `continue` is free. -/
def Node.Holds (reg : Registry) (root : Node) (d : Draft) : Prop :=
  ∃ m ∈ root.walk, d = Draft.ofNode reg m ∧ (m.continues = true → root.continues = true)

/-- The drafts below a node that stand in front of a block. -/
def Node.HoldsHeader (reg : Registry) (root : Node) (d : Draft) : Prop :=
  ∃ m ∈ root.walk, ∃ c ∈ m.kind.headers m.children, d = Draft.ofNode reg c

section Arms

variable {reg : Registry} {root : Node}

theorem Node.Holds.part {d : Draft} (h : root.Holds reg d) (hk : d.node.kind.catchesBreak = false) :
    ∀ p ∈ d.parts, root.Holds reg p := by
  obtain ⟨m, hm, rfl, continues⟩ := h
  rw [node_ofNode] at hk
  intro p hp
  rw [parts_ofNode] at hp
  obtain ⟨c, hc, rfl⟩ := mem_map.1 hp
  exact ⟨c, mem_walk_trans hm (mem_walk_of_child hc c.mem_walk_self), rfl,
    fun hm => continues (continues_of_child hc (.inr hk) hm)⟩

/-- The labels and the statement that a labelled statement holds are below it. -/
theorem Node.all_openArm {m : Node} (hm : root.Holds reg (ofNode reg m)) {labels : List Draft}
    (hl : ∀ d ∈ labels, root.HoldsHeader reg d) (isDefault : Bool) :
    SwitchArm.All (root.HoldsHeader reg) (root.Holds reg)
      ((ofNode reg m).openArm labels isDefault) := by
  induction m using Node.induct generalizing labels isDefault with
  | h m ih =>
    rw [openArm_eq, node_ofNode]
    have last (hk : m.kind.catchesBreak = false) {labels : List Draft}
        (hl : ∀ d ∈ labels, root.HoldsHeader reg d) (isDefault : Bool) :
        SwitchArm.All (root.HoldsHeader reg) (root.Holds reg)
          (openArmOfLast labels isDefault (ofNode reg m).parts) := by
      refine SwitchArm.all_openArmOfLast hl fun d hd => ?_
      have held := hm.part (by rwa [node_ofNode]) d hd
      rw [parts_ofNode] at hd
      obtain ⟨c, hc, rfl⟩ := mem_map.1 hd
      exact ih c hc held hl isDefault
    split
    · rename_i kind
      -- the label is the first part of a case
      have more : ∀ d ∈ labels ++ (ofNode reg m).parts.head?.toList,
          root.HoldsHeader reg d := by
        intro d hd
        rcases mem_append.1 hd with hd | hd
        · exact hl d hd
        · obtain ⟨k, hk, same, -⟩ := hm
          obtain rfl : m = k := by simpa using congrArg node same
          rw [parts_ofNode, head?_map, Option.mem_toList, Option.map_eq_some_iff] at hd
          obtain ⟨c, first, rfl⟩ := hd
          refine ⟨m, hk, c, ?_, rfl⟩
          rw [kind, Kind.headers, take_one]
          exact Option.mem_toList.2 first
      split
      · exact last (by rw [kind]; rfl) more isDefault
      · exact ⟨more, fun d hd => absurd hd not_mem_nil⟩
    · split
      · rename_i kind
        exact last (by rw [kind]; rfl) hl true
      · exact ⟨hl, by simpa using hm⟩

theorem Node.all_ofBody (body : Node) :
    ∀ arm ∈ (SwitchArm.ofBody (ofNode reg body)).2,
      SwitchArm.All (body.HoldsHeader reg) (body.Holds reg) arm := by
  have held : body.Holds reg (ofNode reg body) := ⟨body, body.mem_walk_self, rfl, id⟩
  refine SwitchArm.all_ofBody (fun d hd => ?_) held fun compound =>
    held.part (by rw [compound]; rfl)
  obtain ⟨m, -, rfl, -⟩ := id hd
  exact all_openArm hd (by simp) false

theorem Node.holds_of_mem_run {body : Node} {arm : SwitchArm}
    (h : SwitchArm.All (body.HoldsHeader reg) (body.Holds reg) arm) :
    ∀ d ∈ arm.run, body.Holds reg d :=
  h.run fun _ hd compound => hd.part (by rw [compound]; rfl)

end Arms

/-! ## Trees -/

/-- **A node that is in order**: nothing jumps in what it shows, what stands in front of its blocks
is plain, and it leaves no `continue` in a labelled block. -/
structure Node.IsOrderly (reg : Registry) (n : Node) : Prop where
  leaves : ∀ s ∈ n.leaves reg, isQuiet s = true
  headers : ∀ c ∈ n.kind.headers n.children, c.isPlain = true
  continues : n.strandsContinue reg = false

/-- A tree can be read wherever it is allowed to stand. -/
def Node.ReadsWell (reg : Registry) (n : Node) : Prop :=
  ∀ ctx g, ctx.IsReadable → n.Allows ctx g → (Draft.ofNode reg n).StandsIn (Reads g) ctx

namespace Draft

variable {reg : Registry} {n : Node} {g : Grade} {ctx : Context}

/-- **Where the statements of an arm may stand**: with a label they hold no free `continue`, and
without one they hold no `break` that leaves the switch. -/
theorem allows_of_mem_run {test body : Node} {rest : List Node} (kind : n.kind = .switchStmt)
    (children : n.children = test :: body :: rest) (stays : n.strandsContinue reg = false)
    (hn : n.Allows ctx g) (hg : g ≠ .quiet) {arms : List SwitchArm}
    (harms : (SwitchArm.ofBody (ofNode reg body)).2 = arms) {arm : SwitchArm} (ha : arm ∈ arms)
    {m : Node} (hm : ofNode reg m ∈ arm.run)
    (continues : m.continues = true → body.continues = true) :
    m.Allows (ctx.inSwitch (switchLabel? ctx arms))
      (g.within (switchHead (switchLabel? ctx arms))) := by
  cases early : arms.any SwitchArm.breaksEarly with
  | true =>
    have label : switchLabel? ctx arms = some ("'switch" ++ ctx.switchSuffix) := if_pos early
    rw [label]
    refine ⟨?_, fun _ => Option.some_ne_none _⟩
    rw [strandsContinue, kind, children] at stays
    simp only [harms, early, Bool.true_and, any_eq_false, Bool.not_eq_true] at stays
    have none := stays arm ha (ofNode reg m) hm
    rwa [node_ofNode] at none
  | false =>
    have label : switchLabel? ctx arms = none := if_neg (by simp [early])
    rw [label]
    show m.Allows (ctx.inSwitch none) g
    cases g with
    | quiet => exact absurd rfl hg
    | safe =>
      refine ⟨?_, fun leaves => ?_⟩
      · cases free : m.continues with
        | false => rfl
        | true =>
          have child : body ∈ n.children := by simp [children]
          have whole := continues_of_child child (.inl kind) (continues free)
          exact absurd (whole.symm.trans hn.1) (by decide)
      · have leavesEarly : arms.any SwitchArm.breaksEarly = true :=
          any_eq_true.2 ⟨arm, ha, any_eq_true.2 ⟨_, hm, by rwa [node_ofNode]⟩⟩
        exact absurd (leavesEarly.symm.trans early) (by decide)
    | jumping => trivial

theorem standsIn_arms {test body : Node} {rest : List Node} (kind : n.kind = .switchStmt)
    (children : n.children = test :: body :: rest) (stays : n.strandsContinue reg = false)
    (headers : ∀ m ∈ body.walk, ∀ c ∈ m.kind.headers m.children, c.isPlain = true)
    (ih : ∀ m ∈ body.walk, m.ReadsWell reg) (hctx : ctx.IsReadable) (hn : n.Allows ctx g)
    (hg : g ≠ .quiet) {arms : List SwitchArm}
    (harms : (SwitchArm.ofBody (ofNode reg body)).2 = arms) :
    ∀ arm ∈ arms, arm.StandsIn Reads (g.within (switchHead (switchLabel? ctx arms)))
      (ctx.inSwitch (switchLabel? ctx arms)) := by
  intro arm ha
  have held := all_ofBody body arm (harms ▸ ha)
  have inside := hctx.inSwitch (isBlockLabel_switchLabel? ctx arms)
  refine ⟨fun d hd => ?_, fun d hd => ?_⟩
  · obtain ⟨m, hm, c, hc, rfl⟩ := held.labels d hd
    have below := mem_walk_of_child (Kind.mem_of_mem_headers hc) c.mem_walk_self
    exact ih c (mem_walk_trans hm below) _ _ inside (headers m hm c hc)
  · obtain ⟨m, hm, rfl, continues⟩ := holds_of_mem_run held d hd
    exact ih m hm _ _ inside
      (allows_of_mem_run kind children stays hn hg harms ha hd continues)

/-- **The text of a node can be read where the node is allowed**, if all nodes below it can. -/
theorem reads_compose (hn : ∀ m ∈ n.walk, m.IsOrderly reg)
    (ih : ∀ c ∈ n.children, ∀ m ∈ c.walk, m.ReadsWell reg) (hctx : ctx.IsReadable)
    (allows : n.Allows ctx g) :
    Reads g (compose reg n (n.children.map (ofNode reg)) ctx).value := by
  have child (c : Node) (hc : c ∈ n.children) : c.ReadsWell reg := ih c hc c c.mem_walk_self
  obtain ⟨leaves, plain, stays⟩ := hn n n.mem_walk_self
  have here (hk : n.kind.catchesBreak = false) :
      ∀ d ∈ n.children.map (ofNode reg), d.StandsIn (Reads g) ctx := by
    intro d hd
    obtain ⟨c, hc, rfl⟩ := mem_map.1 hd
    exact child c hc ctx g hctx (allows.child hc hk)
  have headers : ∀ d ∈ n.kind.headers (n.children.map (ofNode reg)),
      d.StandsIn (Reads .quiet) ctx := by
    rw [Kind.headers_map]
    intro d hd
    obtain ⟨c, hc, rfl⟩ := mem_map.1 hd
    exact child c (Kind.mem_of_mem_headers hc) ctx .quiet hctx (plain c hc)
  have bodies (step : Option String) (hs : ∀ s ∈ step, Reads .jumping s) :
      ∀ d ∈ n.children.map (ofNode reg), d.StandsIn (Reads .jumping) (ctx.inLoop step) := by
    intro d hd
    obtain ⟨c, hc, rfl⟩ := mem_map.1 hd
    exact child c hc _ _ (.inLoop ctx hs) trivial
  have blocks (hk : n.kind.hasBlock = true) : g ≠ .quiet := by
    rintro rfl
    have none := all_eq_true.1 allows n n.mem_walk_self
    rw [hk] at none
    cases none
  -- what is left are the arms of a switch and the two jumps, which depend on the grade
  refine statementsClosed_reads.compose leaves here headers bodies blocks ?_ ?_ ?_
  · intro kind test body rest same
    obtain ⟨t, others, children, rfl, others_eq⟩ := map_eq_cons_iff.1 same
    obtain ⟨b, others, rfl, rfl, rfl⟩ := map_eq_cons_iff.1 others_eq
    have mem : b ∈ n.children := by simp [children]
    exact standsIn_arms kind children stays
      (fun m hm => (hn m (mem_walk_of_child mem hm)).headers) (ih b mem) hctx allows
      (blocks (by rw [kind]; rfl)) rfl
  · intro kind
    have leaves : n.leavesSwitch = true := by rw [leavesSwitch_eq, kind]
    refine reads_breakText hctx ?_
    cases g with
    | quiet => exact absurd rfl (blocks (by rw [kind]; rfl))
    | safe => exact .inr ⟨rfl, allows.2 leaves⟩
    | jumping => exact .inl rfl
  · intro kind
    have continues : n.continues = true := by rw [continues_eq, kind]
    cases g with
    | quiet => exact absurd rfl (blocks (by rw [kind]; rfl))
    | safe => exact absurd (continues.symm.trans allows.1) (by decide)
    | jumping => exact reads_continueText hctx

/-- **Every tree can be read wherever it is allowed to stand**, by induction on the tree. -/
theorem readsWell_of_mem_walk (n : Node) (hn : ∀ m ∈ n.walk, m.IsOrderly reg) :
    ∀ m ∈ n.walk, m.ReadsWell reg := by
  induction n using Node.induct with
  | h n ih =>
    have below (c : Node) (hc : c ∈ n.children) : ∀ m ∈ c.walk, m.ReadsWell reg :=
      ih c hc fun m hm => hn m (mem_walk_of_child hc hm)
    have self : n.ReadsWell reg := by
      intro ctx g hctx allows
      have text : Reads g ((ofNode reg n).text ctx).value := by
        rw [text_ofNode]
        exact reads_compose hn below hctx allows
      refine (expressionsClosed_reads g).standsIn text fun hk p hp => ?_
      rw [node_ofNode] at hk
      rw [parts_ofNode] at hp
      obtain ⟨c, hc, rfl⟩ := mem_map.1 hp
      exact (below c hc c c.mem_walk_self ctx g hctx (allows.child hc hk)).within
    intro m hm
    rw [walk_eq] at hm
    rcases mem_cons.1 hm with rfl | hm
    · exact self
    · obtain ⟨c, hc, hm⟩ := mem_flatMap.1 hm
      exact below c hc m hm

end Draft

/-! ## Functions -/

theorem Reads.read? {g : Grade} {text : String} (h : Reads g text) :
    ∃ jumps, JumpReader.read? text = some jumps ∧ ∀ j ∈ jumps, j.IsLegal := by
  obtain ⟨ts, lexed, nests⟩ := h
  have empty : ({} : JumpReader).Ready := ⟨by simp, by simp⟩
  obtain ⟨r, result, ready, same⟩ := nests {} empty g.admits_empty
  have closed : r.outer = [] := same.outer
  refine ⟨(r.settle none).jumps, ?_, (ready.settle none).jumps⟩
  simp [JumpReader.read?, lexed, result, closed]

namespace Function

/-- The names and types in the header of a function. -/
def headerLeaves (reg : Registry) (entry : FunctionEntry) : List String :=
  [entry.targetName, entry.signature.rendered, reg.renderType entry.signature.result]

theorem header_eq {reg : Registry} {entry : FunctionEntry}
    (h : ∀ s ∈ headerLeaves reg entry, isQuiet s = true) :
    ∃ a, Heads .none a ∧ header reg entry = a ++ "\x7b" := by
  have leaf (s : String) (hs : s ∈ headerLeaves reg entry) : Reads .quiet s :=
    reads_of_isQuiet (h s hs)
  have word : Opens .quiet 0 "unsafe fn " := opens_literal (by decide)
  have named : Opens .quiet 0 ("unsafe fn " ++ entry.targetName ++ "(") :=
    Ends.literal (word.text (leaf _ (by simp [headerLeaves]))) (by decide)
  have closed : Opens .quiet 0 ("unsafe fn " ++ entry.targetName ++ "(" ++
      entry.signature.rendered ++ ")") :=
    Ends.literal (named.text (leaf _ (by simp [headerLeaves]))) (by decide)
  have result : Reads .quiet (if entry.signature.result.isVoid then "" else
      " -> " ++ reg.renderType entry.signature.result) := by
    split
    · exact reads_of_isQuiet rfl
    · exact (opens_literal (by decide)).text (leaf _ (by simp [headerLeaves]))
  refine ⟨_, (Ends.literal (closed.text result) (b := " ") (by decide)).heads, ?_⟩
  have brace (a : String) : a ++ " \x7b" = a ++ " " ++ "\x7b" := by
    rw [String.append_assoc]
    rfl
  unfold header
  exact brace _

/-- **A function whose statements can be read** outside of any block. -/
theorem reads_text {reg : Registry} {entry : FunctionEntry}
    (h : ∀ s ∈ headerLeaves reg entry, isQuiet s = true) {statements : List String}
    (hs : ∀ s ∈ statements, Reads .jumping s) :
    Reads .jumping (text (header reg entry) statements) := by
  obtain ⟨a, heads, header⟩ := header_eq h
  obtain ⟨us, front, -⟩ := id heads
  obtain ⟨ts, lexed, nests⟩ := opens_lines hs
  refine heads.reads_of_lex (by decide) nests ?_
  have opened : (LexMode.word []).lex ['\x7b', '\n'] = ([.opening true], .word []) := by decide
  have closed : (LexMode.word []).lex "\x7d\n\n".toList = ([.closing], .word []) := by decide
  have first : (LexMode.word []).lex (Text.indented 0 (a ++ "\x7b")).toList =
      (us ++ [.opening true], .word []) := by
    have ended : ended (a ++ "\x7b").toList = a.toList ++ ['\x7b', '\n'] := by
      simp [ended]
    rw [Text.toList_indented, LexMode.lex_indented rfl, ended, LexMode.lex_append_of_lex front,
      opened]
  rw [text, header, String.toList_append, String.toList_append, append_assoc,
    LexMode.lex_append_of_lex first, LexMode.lex_append_of_lex lexed, closed, front]
  simp

end Function

/-- **Jumps in labelled blocks.**  If nothing jumps in the names, literals and types of a function,
if no block stands in front of the block of a loop or a switch, and if no labelled switch holds a
`continue` for a loop around it, then every jump of the emitted function that stands in a labelled
block, and not in a loop inside of it, has a label. -/
theorem labelled_jumps_legal (reg : Registry) (entry : FunctionEntry) (body : Node)
    (signature : ∀ s ∈ Function.headerLeaves reg entry, isQuiet s = true)
    (leaves : ∀ m ∈ body.walk, ∀ s ∈ m.leaves reg, isQuiet s = true)
    (headers : ∀ m ∈ body.walk, ∀ c ∈ m.kind.headers m.children, c.isPlain = true)
    (continues : ∀ m ∈ body.walk, m.strandsContinue reg = false) :
    ∃ jumps, JumpReader.read? (Function.text (Function.header reg entry)
      (Function.statements reg entry body).value) = some jumps ∧ ∀ j ∈ jumps, j.IsLegal := by
  have wells := Draft.readsWell_of_mem_walk body fun m hm =>
    ⟨leaves m hm, headers m hm, continues m hm⟩
  refine Reads.read? (Function.reads_text signature fun s hs => ?_)
  rw [Function.statements, Logged.value_flatMapList] at hs
  obtain ⟨c, hc, hs⟩ := List.mem_flatMap.1 hs
  have outside : (Context.ofFunction entry.signature.result).IsReadable :=
    ⟨by simp [Context.ofFunction], by simp [Context.ofFunction]⟩
  have below := Node.mem_walk_of_child hc c.mem_walk_self
  exact (wells c below _ .jumping outside trivial).statements s hs

def attemptsNode : Node :=
  { kind := .declRefExpr, spelling := "n", type := .int true }

/-- A switch that is left early: `switch (n) { case 1: if (n) break; default: … }` -/
def attemptSwitch (fallback : Node) : Node :=
  { kind := .switchStmt, children := [attemptsNode, { kind := .compoundStmt, children :=
    [{ kind := .caseStmt, children := [{ kind := .integerLiteral, tokens := ["1"] },
        { kind := .ifStmt, children := [attemptsNode, { kind := .breakStmt }] }] },
      { kind := .defaultStmt, children := [fallback] }] }] }

def attemptsLoop (fallback : Node) : Node :=
  { kind := .whileStmt, children := [attemptsNode, attemptSwitch fallback] }

/-- The body of a function with the loop. -/
def attemptsBody (fallback : Node) : Node :=
  { kind := .compoundStmt, children := [attemptsLoop fallback] }

def attemptsEntry : FunctionEntry :=
  ⟨"f", ⟨"f", [⟨"n", .int true, "i32"⟩], .void, false⟩, .into "out"⟩

/-- A loop that goes on at once. -/
def spinningNode : Node :=
  { kind := .whileStmt, children := [attemptsNode, { kind := .continueStmt }] }

theorem labelled_jumps_legal_spinning :
    (∀ s ∈ Function.headerLeaves {} attemptsEntry, isQuiet s = true) ∧
      (∀ m ∈ (attemptsBody spinningNode).walk, ∀ s ∈ m.leaves {}, isQuiet s = true) ∧
      (∀ m ∈ (attemptsBody spinningNode).walk, ∀ c ∈ m.kind.headers m.children,
        c.isPlain = true) ∧
      (∀ m ∈ (attemptsBody spinningNode).walk, m.strandsContinue {} = false) ∧
      ∃ jumps, JumpReader.read? (Function.text (Function.header {} attemptsEntry)
        (Function.statements {} attemptsEntry (attemptsBody spinningNode)).value) = some jumps ∧
          ∀ j ∈ jumps, j.IsLegal := by
  have signature : ∀ s ∈ Function.headerLeaves {} attemptsEntry, isQuiet s = true := by decide
  have leaves : ∀ m ∈ (attemptsBody spinningNode).walk, ∀ s ∈ m.leaves {}, isQuiet s = true := by
    decide
  have headers : ∀ m ∈ (attemptsBody spinningNode).walk, ∀ c ∈ m.kind.headers m.children,
      c.isPlain = true := by decide
  have continues : ∀ m ∈ (attemptsBody spinningNode).walk, m.strandsContinue {} = false := by decide
  exact ⟨signature, leaves, headers, continues,
    labelled_jumps_legal {} attemptsEntry _ signature leaves headers continues⟩

/-! ## A jump that lacks its label -/

theorem Draft.asStatements_block (head : String) (texts : List String) :
    asStatements (head ++ block texts) = [head ++ block texts] := by
  have same : asStatement (head ++ block texts) =
      head ++ block texts := by
    apply String.toList_inj.1
    rw [Fragment.asStatement, Text.toList_onChars, String.toList_append,
      asStatement_of_isTerminated (isTerminated_block _ _)]
  have filled : head ++ block texts ≠ "" := by
    intro empty
    have chars := congrArg String.toList empty
    simp [toList_block, Chars.block] at chars
  simp [asStatements, same, filled]

theorem statements_attemptsBody {fallback : Node} {head : String} {texts : List String}
    (h : ((ofNode {} (attemptSwitch fallback)).text {}).value =
      head ++ block texts) :
    (Function.statements {} attemptsEntry (attemptsBody fallback)).value =
      ["while n != 0 " ++ block [head ++ block texts]] := by
  have test : ((ofNode {} attemptsNode).condition {}).value = "n != 0" := by decide +kernel
  have outside : Context.ofFunction attemptsEntry.signature.result = {} := rfl
  have inside : ({} : Context).inLoop none = {} := rfl
  have front : "while " ++ "n != 0" ++ " " = "while n != 0 " := by decide +kernel
  have kind : (attemptsLoop fallback).kind = .whileStmt := rfl
  have children : (attemptsLoop fallback).children = [attemptsNode, attemptSwitch fallback] := rfl
  have loop : ((ofNode {} (attemptsLoop fallback)).text {}).value =
      "while n != 0 " ++ block [head ++ block texts] := by
    have single : (attemptSwitch fallback).kind = .switchStmt := rfl
    simp only [text_ofNode {} (attemptsLoop fallback), compose, kind, children,
      map_cons, map_nil, whileLoop, branch, bodyStatements,
      statements_eq, node_ofNode, single, reduceCtorEq, if_false, inside,
      Logged.value_bind, Logged.value_pure, Logged.value_map, h, test, front,
      asStatements_block]
  simp only [Function.statements, Logged.value_flatMapList, attemptsBody, flatMap_cons,
    flatMap_nil, append_nil, emitStatements, statements_eq, node_ofNode,
    kind, reduceCtorEq, if_false, Logged.value_map, outside, loop, asStatements_block]

/-- **A `continue` in a labelled block has no label**, though nothing else is out of order. -/
theorem continue_lacks_label :
    (∀ m ∈ (attemptsBody { kind := .continueStmt }).walk, (∀ s ∈ m.leaves {}, isQuiet s = true) ∧
        ∀ c ∈ m.kind.headers m.children, c.isPlain = true) ∧
      ∃ jumps, JumpReader.read? (Function.text (Function.header {} attemptsEntry)
          (Function.statements {} attemptsEntry (attemptsBody { kind := .continueStmt })).value) =
            some jumps ∧ ∃ j ∈ jumps, ¬ j.IsLegal := by
  have switch : ((Draft.ofNode {} (attemptSwitch { kind := .continueStmt })).text {}).value =
      "'switch: " ++ Fragment.block ["if n == 1 " ++ Fragment.block ["if n != 0 " ++
        Fragment.block ["break 'switch;"]] ++ " else " ++ Fragment.block ["continue;"]] := by
    decide +kernel
  have header : Function.header {} attemptsEntry = "unsafe fn f(n: i32) \x7b" := by decide +kernel
  have read : JumpReader.read? (Function.text "unsafe fn f(n: i32) \x7b" ["while n != 0 " ++
      Fragment.block ["'switch: " ++ Fragment.block ["if n == 1 " ++ Fragment.block ["if n != 0 " ++
        Fragment.block ["break 'switch;"]] ++ " else " ++ Fragment.block ["continue;"]]]]) =
      some [⟨.labelled, some "switch".toList⟩, ⟨.labelled, none⟩] := by
    simp only [JumpReader.read?, Function.text, String.toList_append, Text.toList_indented,
      List.map_cons, List.map_nil, String.join_cons, String.join_nil, toList_block]
    decide +kernel
  rw [statements_attemptsBody switch, header]
  exact ⟨by decide, _, read, ⟨.labelled, none⟩, by simp, by decide⟩

end

end Ferric
