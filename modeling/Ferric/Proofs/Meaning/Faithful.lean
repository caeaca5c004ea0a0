import Ferric.Proofs.Flow.Arms
import Ferric.Proofs.Meaning.Chain

/-!
# Lowering keeps the executions

A statement that has been lowered has the executions of the C statement, with its jumps redirected:
a `continue` runs the step or the check of its loop first, and a `break` of a switch goes through
the label of the block around the chain, if there is one.  A switch whose arm goes on with the next
one is not lowered faithfully, but there is a note about it.

## Main definitions

* `SwitchTexts`, `SwitchLaws`: what is asked of the labels and the value of a switch.
* `CStmt.Quiet`: no arm falls through.
* `Logged.Silent`: no note reports an arm that falls through.

## Main results

* `means_lower`: lowered statements have the executions of the C statement.
* `run_lower`: those of a function body have exactly these executions.
* `quiet_of_silent`: a statement without such a note is quiet.
-/

namespace Ferric

open List

section

open Chars Behaviour CStmt

/-! ## Switches of a statement -/

namespace CStmt

variable {α : Type}

mutual

/-- The switches of a statement, each by its value and its items. -/
def switches : CStmt α → List (α × List (CStmt α))
  | .block body => switchesAll body
  | .labelled _ _ _ body => switchesAll body
  | .ifThen _ yes => yes.switches
  | .ifElse _ yes no => yes.switches ++ no.switches
  | .whileLoop _ body => body.switches
  | .doLoop body _ => body.switches
  | .forLoop init _ _ body => init.switches ++ body.switches
  | .switch x items => (x, items) :: switchesAll items
  | _ => []

/-- The switches of some statements. -/
def switchesAll : List (CStmt α) → List (α × List (CStmt α))
  | [] => []
  | c :: cs => c.switches ++ switchesAll cs

end

theorem switchesAll_eq_flatMap (cs : List (CStmt α)) : switchesAll cs = cs.flatMap switches := by
  induction cs with
  | nil => rfl
  | cons c cs ih => rw [switchesAll, ih, flatMap_cons]

theorem mem_switches_of_mem_unbraced {c d : CStmt α} (h : d ∈ c.unbraced) {sw : α × List (CStmt α)}
    (hs : sw ∈ d.switches) : sw ∈ c.switches := by
  cases c with
  | block body | labelled _ _ _ body =>
    rw [switches, switchesAll_eq_flatMap]
    exact mem_flatMap.2 ⟨d, h, hs⟩
  | _ =>
    obtain rfl := mem_singleton.1 h
    exact hs

theorem mem_switches_of_mem_arm {x : α} {items : List (CStmt α)} {arm : Arm α (CStmt α)}
    (ha : arm ∈ arms items) {c : CStmt α} (hc : c ∈ arm.body) {sw : α × List (CStmt α)}
    (hs : sw ∈ c.switches) : sw ∈ (switch x items).switches := by
  obtain ⟨item, hi, hu⟩ := (mem_unbraced_of_mem_group items).2 arm ha c hc
  rw [switches, switchesAll_eq_flatMap]
  exact mem_cons_of_mem _ (mem_flatMap.2 ⟨item, hi, mem_switches_of_mem_unbraced hu hs⟩)

/-- **No arm falls through**, in what is executed of a statement. -/
inductive Quiet : CStmt α → Prop
  | null : Quiet .null
  | simple (operands : List α) : Quiet (.simple operands)
  | decl (vs : List α) : Quiet (.decl vs)
  | block {body : List (CStmt α)} (each : ∀ c ∈ body, Quiet c) : Quiet (.block body)
  | ifThen {test : α} {yes : CStmt α} (hy : Quiet yes) : Quiet (.ifThen test yes)
  | ifElse {test : α} {yes no : CStmt α} (hy : Quiet yes) (hn : Quiet no) :
    Quiet (.ifElse test yes no)
  | whileLoop {test : α} {body : CStmt α} (hb : Quiet body) : Quiet (.whileLoop test body)
  | doLoop {body : CStmt α} {test : α} (hb : Quiet body) : Quiet (.doLoop body test)
  | forLoop {init body : CStmt α} {test? : Option α} {step : List α} (hb : Quiet body) :
    Quiet (.forLoop init test? step body)
  | ret (value? : Option α) : Quiet (.ret value?)
  | brk : Quiet .brk
  | cont : Quiet .cont
  | switch {x : α} {items : List (CStmt α)} (ends : ArmsEnd (arms items))
    (each : ∀ arm ∈ arms items, ∀ c ∈ arm.run, Quiet c) : Quiet (.switch x items)

/-- Without switches nothing falls through. -/
theorem quiet_of_switches_eq_nil {reg : Registry} {node : α → Node} {n : Node} {c : CStmt α}
    (form : HasForm reg node n c) (h : c.switches = []) : Quiet c := by
  induction c using induct generalizing n with
  | null => exact .null
  | simple operands => exact .simple operands
  | decl vs => exact .decl vs
  | block body ih =>
    cases form with
    | block kind all =>
      rw [switches, switchesAll_eq_flatMap, flatMap_eq_nil_iff] at h
      refine .block fun c hc => ?_
      obtain ⟨n, -, form⟩ := all.exists_of_mem hc
      exact ih c hc form (h c hc)
  | ifThen test yes ih =>
    cases form with
    | ifThen kind children condition form => exact .ifThen (ih form h)
  | ifElse test yes no ihy ihn =>
    rw [switches, append_eq_nil_iff] at h
    cases form with
    | ifElse kind children condition formYes formNo =>
      exact .ifElse (ihy formYes h.1) (ihn formNo h.2)
  | whileLoop test body ih =>
    cases form with
    | whileLoop kind children condition form => exact .whileLoop (ih form h)
  | doLoop body test ih =>
    cases form with
    | doLoop kind children condition form => exact .doLoop (ih form h)
  | forLoop init test? step body ihi ihb =>
    rw [switches, append_eq_nil_iff] at h
    cases form with
    | forLoop kind header children hasInit condition hasStep form =>
      exact .forLoop (ihb form h.2)
  | ret value? => exact .ret value?
  | brk => exact .brk
  | cont => exact .cont
  | switch x items => simp [switches] at h
  | labelled => exact absurd rfl form.ne_labelled

end CStmt

/-! ## Lowered statements -/

section Faithful

variable {α σ V : Type} {reg : Registry} {node : α → Node} {I : Interp σ V} {result : CType}

/-- **What is asked of the texts of a switch**: labels can be compared, so can a value that is
repeated, and there is at most one default. -/
structure SwitchTexts (reg : Registry) (node : α → Node) (sw : α × List (CStmt α)) : Prop where
  labels : ∀ l ∈ sw.2.flatMap CStmt.itemLabels,
    Chars.IsOperand ((node l).expressionText reg).toList
  default : sw.2.countP CStmt.isDefault ≤ 1
  repeated : Draft.isRepeatable (node sw.1) = true →
    Chars.IsOperand ((node sw.1).expressionText reg).toList

instance (reg : Registry) (node : α → Node) (sw : α × List (CStmt α)) :
    Decidable (SwitchTexts reg node sw) :=
  decidable_of_iff ((∀ l ∈ sw.2.flatMap CStmt.itemLabels,
      Chars.IsOperand ((node l).expressionText reg).toList) ∧
      sw.2.countP CStmt.isDefault ≤ 1 ∧ (Draft.isRepeatable (node sw.1) = true →
        Chars.IsOperand ((node sw.1).expressionText reg).toList))
    ⟨fun h => ⟨h.1, h.2.1, h.2.2⟩, fun h => ⟨h.labels, h.default, h.repeated⟩⟩

/-- **What is asked of the interpretation of a switch**: comparisons compare, labels are constants
with different values, and reading a value that is repeated changes nothing. -/
structure SwitchLaws (I : Interp σ V) (reg : Registry) (node : α → Node)
    (sw : α × List (CStmt α)) : Prop where
  compares : I.Compares
  values : ((sw.2.flatMap CStmt.itemLabels).map fun l =>
    I.label ((node l).expressionText reg)).Nodup
  const : ∀ l ∈ sw.2.flatMap CStmt.itemLabels, I.value .empty ((node l).expressionText reg) =
    readOff fun _ => I.label ((node l).expressionText reg)
  reads : Draft.isRepeatable (node sw.1) = true →
    ∃ val, I.value .empty ((node sw.1).expressionText reg) = readOff val

/-- The check at the end of a `do` loop. -/
theorem means_exitCode {test : α} (h : Nested ((node test).conditionText reg).toList) :
    Means I [exitCode reg node test]
      (ofCheck (checkOf reg node I (some test))) := by
  have negated :
      I.check .empty ("!(" ++ Fragment.ungrouped ((node test).conditionText reg) ++ ")") =
        (I.check .empty ((node test).conditionText reg)).not := by
    rw [Interp.check, Test.ofText_not h, Env.visible_empty, Interp.check, Env.visible_empty]
    rfl
  have leave : Means I ([.brk none] : Code α) (exit (.brk none)) :=
    means_exit (by simp) (by simp) fun _ => rfl
  rw [ofCheck, ← choose_not]
  unfold checkOf
  rw [← negated]
  exact leave.branch means_nil

theorem Means.loopCode {test? : Option α} {body step : Code α} {K : Check σ} {B : Behaviour σ V}
    (hb : Means I body (redirect K none B)) (hs : Means I step (ofCheck K)) :
    Means I [loopCode reg node test? (body ++ step)]
      (Loop (checkOf reg node I test?) K B) := by
  rw [loop_eq_closed]
  cases test? with
  | some test => exact (hb.append hs).whileLoop
  | none => exact (hb.append hs).loop

theorem means_returnCode (s : Setting α) (K : Check σ) (value : α) :
    Means I (returnCode reg node result value)
      (redirect K s.label? (returnMeaning reg node I result value)) := by
  rw [returnCode, returnMeaning]
  split
  · rw [redirect_seq, redirect_act, redirect_exit]
    exact (means_simple _ value).append (means_exit (by simp) (by simp) fun _ => rfl)
  · rw [redirect_evaluate]
    have leave : ∀ v : V, redirect K s.label? (exit (.ret (some v)) : Behaviour σ V) =
        exit (.ret (some v)) := fun v => redirect_exit _ _ _
    simp only [leave]
    exact means_ret_value _ value

theorem means_and_bodyOf {c : CStmt α} {code : Code α} {P : Behaviour σ V} (h : Means I code P)
    (hc : ∀ body, c ≠ .block body) : Means I code P ∧ Means I (c.bodyOf code) P :=
  and_bodyOf (p := fun code => Means I code P) h hc

theorem SwitchLaws.testable {x : α} {items : List (CStmt α)} (h : SwitchLaws I reg node (x, items))
    (texts : SwitchTexts reg node (x, items)) {arm : Arm α (CStmt α)}
    (ha : arm ∈ arms items) (nonempty : arm.labels ≠ []) :
    Testable I reg node arm.labels := by
  have mem : ∀ l ∈ arm.labels, l ∈ items.flatMap itemLabels := by
    intro l hl
    rw [← flatMap_labels_arms]
    exact mem_flatMap.2 ⟨arm, ha, hl⟩
  exact ⟨nonempty, fun l hl => texts.labels l (mem l hl), fun l hl => h.const l (mem l hl)⟩

variable [DecidableEq V]

/-- Statements one after the other. -/
theorem means_lowerAll {s : Setting α} {K : Check σ} {cs : List (CStmt α)}
    (each : ∀ c ∈ cs, Means I (c.lower reg node s)
      (redirect K s.label? (meaning reg node I result c))) :
    Means I (lowerAll reg node s cs)
      (redirect K s.label? (meaningAll reg node I result cs)) := by
  induction cs with
  | nil =>
    rw [meaningAll, skip, redirect_exit]
    exact means_nil
  | cons c cs ih =>
    rw [meaningAll, redirect_seq]
    exact (each c (by simp)).append (ih fun d hd => each d (by simp [hd]))

/-- The initialisation of a `for`. -/
theorem means_init {init? : Option Node} {init : CStmt α} (h : HasInit reg node init? init)
    (s : Setting α) (K : Check σ) :
    Means I (init.lower reg node s)
      (redirect K s.label? (meaning reg node I result init)) := by
  cases h with
  | none =>
    rw [meaning, skip, redirect_exit]
    exact means_nil
  | simple =>
    rw [meaning, redirect_act]
    exact means_simpleCodes _
  | decl =>
    rw [meaning, redirect_act]
    exact means_declareCodes _

theorem block_chosen {s : Setting α} {K : Check σ} {items : List (CStmt α)}
    {arm : Arm α (CStmt α)} (ha : arm ∈ arms items) :
    block (s.switchLabel? items) (redirect K (s.switchLabel? items)
        (meaningAll reg node I result arm.run)) =
      redirect K s.label? (endSwitch (meaningAll reg node I result arm.run)) := by
  have breaks : BreaksOnlyIf (arm.run.any leaves)
      (meaningAll reg node I result arm.run) :=
    breaksOnlyIf_meaningAll fun c _ => breaksOnlyIf_leaves c
  rw [Setting.switchLabel?]
  split
  · exact block_redirect breaks.unlabelled K _ _
  · rename_i none
    -- no arm needs the label, so no `break` is left in this one
    have stays : arm.run.any leaves = false := by
      by_contra early
      exact none (any_eq_true.2 ⟨arm, ha, by simpa [Arm.breaksEarly] using early⟩)
    rw [stays] at breaks
    exact redirect_endSwitch breaks.never K _

/-- A lowered switch whose arms end and are lowered to what they mean. -/
theorem means_switch {s : Setting α} {K : Check σ} {ns : List Node} {x : α}
    {items : List (CStmt α)} (isUsed : IsUsed reg node x) (all : HasItems reg node ns items)
    (texts : SwitchTexts reg node (x, items)) (laws : SwitchLaws I reg node (x, items))
    (ends : CStmt.ArmsEnd (CStmt.arms items))
    (each : ∀ arm ∈ CStmt.arms items, ∀ c ∈ arm.run, ∀ n, HasForm reg node n c →
      Means I (c.lower reg node (s.inSwitch (s.switchLabel? items)))
        (redirect K (s.switchLabel? items) (CStmt.meaning reg node I result c))) :
    Means I (CStmt.lower reg node s (.switch x items))
      (redirect K s.label? (CStmt.meaning reg node I result (.switch x items))) := by
  obtain ⟨-, pairs, -, -, -, arms⟩ := exists_pairedArms all
  have paired : ∀ arm ∈ CStmt.arms items, ∃ p : PairedArm reg node, p.form = arm := by
    intro arm ha
    rw [CStmt.arms, arms] at ha
    obtain ⟨p, -, hp⟩ := mem_map.1 ha
    exact ⟨p, hp⟩
  have testable : ∀ arm ∈ CStmt.arms items, arm.isDefault = false →
      Testable I reg node arm.labels := by
    intro arm ha hd
    obtain ⟨p, rfl⟩ := paired arm ha
    exact laws.testable texts ha (p.exists_label hd)
  have bodies : ∀ arm ∈ CStmt.arms items, Means I
      (CStmt.lowerAll reg node (s.inSwitch (s.switchLabel? items)) arm.run)
      (redirect K (s.switchLabel? items) (CStmt.meaningAll reg node I result arm.run)) := by
    intro arm ha
    obtain ⟨p, rfl⟩ := paired arm ha
    refine means_lowerAll fun c hc => ?_
    obtain ⟨n, -, form⟩ := p.hasForms_run.exists_of_mem hc
    exact each p.form ha c hc n form
  have value : IsScrutinee I reg node x :=
    ⟨(Node.neat_expressionText isUsed.simple).toFlat.nested, texts.repeated, laws.reads⟩
  have same : redirect K s.label? (CStmt.meaning reg node I result (.switch x items)) =
      .evaluate (I.value .empty ((node x).scrutineeText reg)) fun v =>
        .block (s.switchLabel? items) (((CStmt.chosen? reg node I v (CStmt.arms items)).map
          fun arm => redirect K (s.switchLabel? items)
            (CStmt.meaningAll reg node I result arm.run)).getD skip) := by
    rw [CStmt.meaning_switch ends ⟨laws.values, texts.default⟩, redirect_evaluate]
    congr 1
    funext v
    cases chosen : CStmt.chosen? reg node I v (CStmt.arms items) with
    | none => exact (redirect_exit K s.label? .normal).trans (block_skip _).symm
    | some arm => exact (block_chosen (CStmt.mem_of_chosen? chosen)).symm
  rw [CStmt.lower_switch, same]
  exact means_switchCode laws.compares value testable bodies

/-- **Lowered statements have the executions of the C statement**, with its jumps redirected; so
have they without the braces of a block. -/
theorem means_lower {n : Node} {c : CStmt α} {s : Setting α} {K : Check σ}
    (form : HasForm reg node n c) (quiet : c.Quiet)
    (texts : ∀ sw ∈ c.switches, SwitchTexts reg node sw)
    (laws : ∀ sw ∈ c.switches, SwitchLaws I reg node sw) (hr : s.result = result)
    (step : Means I s.step (ofCheck K)) :
    Means I (c.lower reg node s) (redirect K s.label? (c.meaning reg node I result)) ∧
      Means I (c.bodyOf (c.lower reg node s))
        (redirect K s.label? (c.meaning reg node I result)) := by
  -- on the statement, for whatever `K` a `continue` runs before it jumps
  induction c using CStmt.inductArms generalizing n s K with
  | null =>
    rw [meaning, skip, redirect_exit]
    exact ⟨means_nil, means_nil⟩
  | simple operands =>
    rw [meaning, redirect_act]
    exact means_and_bodyOf (means_simpleCodes operands) (by simp)
  | decl vs =>
    rw [meaning, redirect_act]
    exact means_and_bodyOf (means_declareCodes vs) (by simp)
  | block body ih =>
    cases form with | block kind all =>
    cases quiet with | block quiet =>
    rw [switches, switchesAll_eq_flatMap] at texts laws
    have inside : Means I (lowerAll reg node s body)
        (redirect K s.label? (meaningAll reg node I result body)) := by
      refine means_lowerAll fun c hc => ?_
      obtain ⟨n, -, form⟩ := all.exists_of_mem hc
      exact (ih c hc form (quiet c hc) (fun sw hs => texts sw (mem_flatMap.2 ⟨c, hc, hs⟩))
        (fun sw hs => laws sw (mem_flatMap.2 ⟨c, hc, hs⟩)) hr step).1
    rw [lower_block, meaning]
    exact ⟨inside.block none, inside⟩
  | ifThen test yes ih =>
    cases form with | ifThen kind children condition form =>
    cases quiet with | ifThen quiet =>
    rw [meaning, redirect_choose, skip, redirect_exit]
    exact means_and_bodyOf ((ih form quiet texts laws hr step).2.branch means_nil) (by simp)
  | ifElse test yes no ihy ihn =>
    cases form with | ifElse kind children condition formYes formNo =>
    cases quiet with | ifElse quietYes quietNo =>
    rw [switches] at texts laws
    have yes := ihy formYes quietYes (fun sw hs => texts sw (mem_append_left _ hs))
      (fun sw hs => laws sw (mem_append_left _ hs)) hr step
    have no := ihn formNo quietNo (fun sw hs => texts sw (mem_append_right _ hs))
      (fun sw hs => laws sw (mem_append_right _ hs)) hr step
    rw [meaning, redirect_choose]
    exact means_and_bodyOf (yes.2.branch no.2) (by simp)
  | whileLoop test body ih =>
    cases form with | whileLoop kind children condition form =>
    cases quiet with | whileLoop quiet =>
    have nothing : Means I ([] : Code α) (ofCheck .always) := by
      rw [ofCheck_always]
      exact means_nil
    have inside := ih (s := s.inLoop []) form quiet texts laws hr nothing
    have loop := @Means.loopCode _ _ _ reg node _ (some test) _ _ _ _ inside.2 nothing
    rw [append_nil] at loop
    rw [meaning, redirect_loop]
    exact means_and_bodyOf loop (by simp)
  | doLoop body test ih =>
    cases form with | doLoop kind children condition form =>
    cases quiet with | doLoop quiet =>
    have check := @means_exitCode _ _ _ _ _ I _ condition.flat.nested
    have inside := ih (s := s.inLoop _) form quiet texts laws hr check
    have loop := @Means.loopCode _ _ _ reg node _ none _ _ _ _ inside.2 check
    rw [meaning, redirect_loop]
    exact means_and_bodyOf loop (by simp)
  | forLoop init test? steps body ihi ihb =>
    cases form with | forLoop kind header children hasInit condition hasStep form =>
    cases quiet with | forLoop quiet =>
    rw [switches] at texts laws
    have each : Means I (simpleCodes reg node steps)
        (ofCheck (.ofStep (I.acts (simpleTexts reg node steps)))) := by
      rw [ofCheck_ofStep]
      exact means_simpleCodes steps
    have inside := ihb (s := s.inLoop _) form quiet
      (fun sw hs => texts sw (mem_append_right _ hs))
      (fun sw hs => laws sw (mem_append_right _ hs)) hr each
    rw [meaning, redirect_seq, redirect_loop]
    exact means_and_bodyOf ((means_init hasInit s K).append (inside.2.loopCode each)) (by simp)
  | ret value? =>
    cases value? with
    | none =>
      rw [meaning, redirect_exit]
      exact means_and_bodyOf (means_exit (by simp) (by simp) fun _ => rfl) (by simp)
    | some value =>
      rw [lower, meaning, hr]
      exact means_and_bodyOf (means_returnCode s K value) (by simp)
  | brk =>
    rw [meaning, redirect_exit]
    exact means_and_bodyOf (means_exit (by simp) (by simp) fun _ => rfl) (by simp)
  | cont =>
    have jump : Means I ([.cont] : Code α) (exit .cont) :=
      means_exit (by simp) (by simp) fun _ => rfl
    have whole := step.append jump
    rw [ofCheck_seq_cont] at whole
    rw [meaning, redirect_exit]
    exact means_and_bodyOf whole (by simp)
  | switch x items ih =>
    cases form with | switch kind children isUsed compound all =>
    cases quiet with | switch ends quiet =>
    refine means_and_bodyOf (means_switch isUsed all (texts _ mem_cons_self)
      (laws _ mem_cons_self) ends ?_) (by simp)
    intro arm ha c hc n form
    -- of an arm only what stands before its first `break` is lowered
    have body : c ∈ arm.body := takeWhile_subset _ hc
    exact (ih arm ha c body (s := s.inSwitch _) form (quiet arm ha c hc)
      (fun sw hs => texts sw (mem_switches_of_mem_arm ha body hs))
      (fun sw hs => laws sw (mem_switches_of_mem_arm ha body hs)) hr step).1
  | labelled => exact absurd rfl form.ne_labelled

/-- **The lowered statements of a function body have exactly the executions of the body.** -/
theorem run_lower {n : Node} {c : CStmt α} (form : HasForm reg node n c) (quiet : c.Quiet)
    (texts : ∀ sw ∈ c.switches, SwitchTexts reg node sw)
    (laws : ∀ sw ∈ c.switches, SwitchLaws I reg node sw)
    (avoids : Code.Avoids [] (c.lower reg node { result })) :
    RustStmt.run I .empty (Code.texts (c.lower reg node { result })) =
      c.meaning reg node I result := by
  have nothing : Means I ([] : Code α) (ofCheck .always) := by
    rw [ofCheck_always]
    exact means_nil
  have means := (means_lower (s := { result }) form quiet texts laws rfl nothing).1
  rw [redirect_always] at means
  exact means.run_eq (Env.within_empty []) avoids

end Faithful

end

/-! ## Notes -/

def Note.reportsFallThrough (note : Note) : Bool :=
  note.level = .warn && Text.startsWith note.message "switch case falls through"

theorem reportsFallThrough_warn (place : String) :
    (⟨.warn, "switch case falls through at " ++ place ++ "; the generated branch does not"⟩ :
      Note).reportsFallThrough = true := by
  simp [Note.reportsFallThrough, Text.startsWith]

namespace Logged

variable {β γ : Type}

/-- **No note reports an arm that falls through.** -/
def Silent (x : Logged β) : Prop :=
  ∀ note ∈ x.notes, note.reportsFallThrough = false

instance (x : Logged β) : Decidable x.Silent :=
  inferInstanceAs (Decidable (∀ note ∈ x.notes, note.reportsFallThrough = false))

theorem Silent.bind_left {x : Logged β} {f : β → Logged γ} (h : Silent (x >>= f)) : x.Silent :=
  fun note hn => h note (mem_append_left _ hn)

theorem Silent.bind_right {x : Logged β} {f : β → Logged γ} (h : Silent (x >>= f)) :
    Silent (f x.value) :=
  fun note hn => h note (mem_append_right _ hn)

theorem silent_map {x : Logged β} {f : β → γ} : Silent (f <$> x) ↔ x.Silent := by
  rw [Silent, notes_map, Silent]

end Logged

namespace Draft

theorem silent_armStatements {arm : SwitchArm} {isLast : Bool} {ctx : Context}
    (h : (armStatements arm isLast ctx).Silent) :
    (statementsOf arm.run ctx).Silent ∧ (arm.isTerminated = true ∨ isLast = true) := by
  refine ⟨h.bind_left, ?_⟩
  have rest := h.bind_right
  split at rest
  · have reported := rest _ (mem_append_left _ (mem_singleton.2 rfl))
    rw [reportsFallThrough_warn] at reported
    simp at reported
  · rename_i ends
    cases ht : arm.isTerminated <;> cases hl : isLast <;> simp_all

theorem silent_statementsOf {ds : List Draft} {ctx : Context} (h : (statementsOf ds ctx).Silent) :
    ∀ d ∈ ds, (d.statements ctx).Silent := by
  induction ds with
  | nil => simp
  | cons d ds ih =>
    intro e he
    rcases mem_cons.1 he with rfl | he
    · exact h.bind_left
    · exact ih h.bind_right.bind_left e he

/-- **What a chain without a note says of its arms.** -/
theorem silent_armBranches {α : Type} {reg : Registry} {node : α → Node}
    {pairs : List (PairedArm reg node)} {scrutinee : String} {ctx : Context}
    (h : (armBranches scrutinee ctx (pairs.map PairedArm.drafts)).Silent) :
    CStmt.ArmsEnd (pairs.map PairedArm.form) ∧
      ∀ p ∈ pairs, (statementsOf p.drafts.run ctx).Silent := by
  induction pairs with
  | nil => exact ⟨trivial, by simp⟩
  | cons p pairs ih =>
    have first := silent_armStatements h.bind_left
    have later : (armBranches scrutinee ctx (pairs.map PairedArm.drafts)).Silent := by
      have rest := h.bind_right
      split at rest
      · exact rest.bind_left
      · exact rest.bind_right.bind_left
    obtain ⟨ends, silent⟩ := ih later
    refine ⟨?_, fun q hq => ?_⟩
    · cases pairs with
      | nil => trivial
      | cons next pairs =>
        refine ⟨?_, ends⟩
        rw [← p.isTerminated_eq]
        exact first.2.resolve_right (by simp)
    · rcases mem_cons.1 hq with rfl | hq
      · exact first.1
      · exact silent q hq

variable {reg : Registry} {n : Node} {ctx : Context}

theorem silent_compose (h : ((ofNode reg n).statements ctx).Silent)
    (hk : n.kind ≠ .binaryOperator .comma) :
    (compose reg n (n.children.map (ofNode reg)) ctx).Silent := by
  rw [statements_eq, node_ofNode, if_neg hk, Logged.silent_map, text_ofNode] at h
  exact h

theorem silent_of_bodyStatements (h : ((ofNode reg n).bodyStatements ctx).Silent) :
    ((ofNode reg n).statements ctx).Silent := by
  rw [bodyStatements, node_ofNode] at h
  split at h
  · rename_i compound
    rw [statements_eq, node_ofNode, if_neg (by simp [compound]), Logged.silent_map, text_ofNode]
    simp only [compose, compound, Logged.silent_map]
    rwa [parts_ofNode] at h
  · exact h

theorem silent_of_branch (h : ((ofNode reg n).branch ctx).Silent) :
    ((ofNode reg n).statements ctx).Silent :=
  silent_of_bodyStatements (Logged.silent_map.1 h)

theorem silent_of_text (hk : n.kind = .ifStmt) (h : ((ofNode reg n).text ctx).Silent) :
    ((ofNode reg n).statements ctx).Silent := by
  rw [statements_eq, node_ofNode, if_neg (by simp [hk]), Logged.silent_map]
  exact h

end Draft

/-! ## Statements -/

section Quiet

variable {α : Type} {reg : Registry} {node : α → Node} {ctx : Context}

open Draft

theorem silent_switch {n body : Node} {x : α} {items : List (CStmt α)}
    (kind : n.kind = .switchStmt) (children : n.children = [node x, body])
    (compound : body.kind = .compoundStmt) (all : HasItems reg node body.children items)
    (h : ((ofNode reg n).statements ctx).Silent) :
    CStmt.ArmsEnd (CStmt.arms items) ∧ ∀ arm ∈ CStmt.arms items, ∀ c ∈ arm.run, ∃ m inside,
      HasForm reg node m c ∧ ((ofNode reg m).statements inside).Silent := by
  obtain ⟨-, pairs, -, -, drafts, arms⟩ := exists_pairedArms all
  have ofBody : SwitchArm.ofBody (ofNode reg body) =
      SwitchArm.group (body.children.map (ofNode reg)) := by
    rw [SwitchArm.ofBody, node_ofNode, if_pos compound, parts_ofNode]
  have whole := silent_compose h (by simp [kind])
  simp only [compose, kind, children, map_cons, map_nil, switchStatement, ofBody,
    drafts] at whole
  obtain ⟨ends, silent⟩ := silent_armBranches whole.bind_right.bind_right.bind_left
  rw [CStmt.arms, arms]
  refine ⟨ends, fun arm ha c hc => ?_⟩
  obtain ⟨p, hp, rfl⟩ := mem_map.1 ha
  obtain ⟨m, hm, form⟩ := p.hasForms_run.exists_of_mem hc
  have runs := silent p hp
  rw [p.drafts_run] at runs
  exact ⟨m, _, form, silent_statementsOf runs _ (mem_map.2 ⟨m, hm, rfl⟩)⟩

theorem silent_ifElse {n yes no : Node} {test : α} (kind : n.kind = .ifStmt)
    (children : n.children = [node test, yes, no]) (h : ((ofNode reg n).statements ctx).Silent) :
    ((ofNode reg yes).statements ctx).Silent ∧ ((ofNode reg no).statements ctx).Silent := by
  have whole := silent_compose h (by simp [kind])
  simp only [compose, kind, children, map_cons, map_nil, ifStatement] at whole
  refine ⟨silent_of_branch whole.bind_right.bind_left, ?_⟩
  have rest := whole.bind_right.bind_right
  rw [node_ofNode] at rest
  split at rest
  · rename_i hk
    exact silent_of_text hk rest.bind_left
  · exact silent_of_branch rest.bind_left

theorem silent_for {n body : Node} {front : List Node} (kind : n.kind = .forStmt)
    (children : n.children = front ++ [body]) (h : ((ofNode reg n).statements ctx).Silent) :
    ∃ inside, ((ofNode reg body).statements inside).Silent := by
  have whole := silent_compose h (by simp [kind])
  simp only [compose, kind, children, map_append, map_cons, map_nil, forLoop,
    getLast?_concat] at whole
  exact ⟨_, silent_of_bodyStatements whole.bind_right.bind_right.bind_left⟩

/-- **A statement without a note is quiet**: no arm falls through. -/
theorem quiet_of_silent {n : Node} {c : CStmt α} (form : HasForm reg node n c)
    (h : ((ofNode reg n).statements ctx).Silent) : c.Quiet := by
  induction c using CStmt.inductArms generalizing n ctx with
  | null => exact .null
  | simple operands => exact .simple operands
  | decl vs => exact .decl vs
  | block body ih =>
    cases form with | block kind all =>
    have whole := silent_compose h (by simp [kind])
    simp only [compose, kind, Logged.silent_map] at whole
    refine .block fun c hc => ?_
    obtain ⟨m, hm, form⟩ := all.exists_of_mem hc
    exact ih c hc form (silent_statementsOf whole _ (mem_map.2 ⟨m, hm, rfl⟩))
  | ifThen test yes ih =>
    cases form with | ifThen kind children condition form =>
    have whole := silent_compose h (by simp [kind])
    simp only [compose, kind, children, map_cons, map_nil, ifStatement] at whole
    exact .ifThen (ih form (silent_of_branch whole.bind_right.bind_left))
  | ifElse test yes no ihy ihn =>
    cases form with | ifElse kind children condition formYes formNo =>
    obtain ⟨hy, hn⟩ := silent_ifElse kind children h
    exact .ifElse (ihy formYes hy) (ihn formNo hn)
  | whileLoop test body ih =>
    cases form with | whileLoop kind children condition form =>
    have whole := silent_compose h (by simp [kind])
    simp only [compose, kind, children, map_cons, map_nil, whileLoop] at whole
    exact .whileLoop (ih form (silent_of_branch whole.bind_left))
  | doLoop body test ih =>
    cases form with | doLoop kind children condition form =>
    have whole := silent_compose h (by simp [kind])
    simp only [compose, kind, children, map_cons, map_nil, doLoop] at whole
    exact .doLoop (ih form (silent_of_bodyStatements whole.bind_right.bind_left))
  | forLoop init test? step body ihi ihb =>
    cases form with | forLoop kind header children hasInit condition hasStep form =>
    obtain ⟨inside, hb⟩ := silent_for kind children h
    exact .forLoop (ihb form hb)
  | ret value? => exact .ret value?
  | brk => exact .brk
  | cont => exact .cont
  | switch x items ih =>
    cases form with | switch kind children isUsed compound all =>
    obtain ⟨ends, each⟩ := silent_switch kind children compound all h
    refine .switch ends fun arm ha c hc => ?_
    obtain ⟨m, inside, form, silent⟩ := each arm ha c hc
    exact ih arm ha c (takeWhile_subset _ hc) form silent
  | labelled => exact absurd rfl form.ne_labelled

end Quiet

end Ferric
