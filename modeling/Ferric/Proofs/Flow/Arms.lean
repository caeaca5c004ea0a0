import Ferric.Proofs.Flow.Reading

/-!
# Arms of a switch, as drafts and as statements

The drafts in the body of a switch are grouped into arms as the statements are.  `PairedArm` keeps
both views of an arm together, and everything that is asked of an arm has the same answer in both.

## Main definitions

* `PairedArm`: an arm of drafts and the arm of statements it stands for.

## Main results

* `exists_pairedArms`: the arms of a switch in both views.
* `HasForm.leavesSwitch_eq`: whether a `break` leaves the switch is seen from the statement.
-/

namespace Ferric

open Draft List SwitchArm

section Forms

variable {α : Type} {reg : Registry} {node : α → Node} {n : Node} {c : CStmt α}

/-! ## Kinds -/

theorem Node.IsSimple.kind (h : n.IsSimple reg) : n.kind.isExpression = true :=
  (h n n.mem_walk_self).1

theorem HasForm.isBrk_eq (h : HasForm reg node n c) : (n.kind != .breakStmt) = !c.isBrk := by
  cases h with
  | simple simple =>
    have expression := simple.kind
    cases kind : n.kind <;> simp_all [Kind.isExpression, CStmt.isBrk]
  | _ => simp_all [CStmt.isBrk]

theorem HasForm.endsArm_eq (h : HasForm reg node n c) : n.kind.endsArm = c.endsArm := by
  cases h with
  | simple simple =>
    have expression := simple.kind
    cases kind : n.kind <;> simp_all [Kind.isExpression, Kind.endsArm, CStmt.endsArm]
  | _ => simp_all [Kind.endsArm, CStmt.endsArm]

theorem HasForm.kind_eq_compound (h : HasForm reg node n c) :
    n.kind = .compoundStmt ↔ ∃ body, c = .block body := by
  cases h with
  | simple simple =>
    have expression := simple.kind
    cases kind : n.kind <;> simp_all [Kind.isExpression]
  | _ => simp_all

theorem HasForm.ne_labelled (h : HasForm reg node n c) {labels : List α} {isDefault braced : Bool}
    {body : List (CStmt α)} : c ≠ .labelled labels isDefault braced body := by
  rintro rfl
  cases h

/-! ## Leaving the switch -/

theorem Node.anyLeavesSwitch_eq (ns : List Node) :
    Node.anyLeavesSwitch ns = ns.any Node.leavesSwitch := by
  induction ns with
  | nil => rfl
  | cons n ns ih => simp [Node.anyLeavesSwitch, ih]

theorem Node.leavesSwitch_eq (n : Node) :
    n.leavesSwitch = match n.kind with
      | .breakStmt => true
      | .whileStmt | .doStmt | .forStmt | .switchStmt => false
      | _ => n.children.any Node.leavesSwitch := by
  have children : n.leavesSwitch = match n.kind with
      | .breakStmt => true
      | .whileStmt | .doStmt | .forStmt | .switchStmt => false
      | _ => Node.anyLeavesSwitch n.children := by cases n; rfl
  rw [children, Node.anyLeavesSwitch_eq]

theorem Node.IsSimple.leavesSwitch_eq (h : n.IsSimple reg) : n.leavesSwitch = false := by
  induction n using Node.induct with
  | h n ih =>
    have children : n.children.any Node.leavesSwitch = false := by
      rw [any_eq_false]
      intro c hc
      simp [ih c hc (h.child hc)]
    have expression := h.kind
    rw [Node.leavesSwitch_eq]
    split
    case h_6 => exact children
    all_goals simp_all [Kind.isExpression]

variable {ns : List Node} {cs : List (CStmt α)}

/-- What holds of each node and its statement holds of the first that has a property. -/
theorem HasForms.any_eq (h : HasForms reg node ns cs) {p : Node → Bool} {q : CStmt α → Bool}
    (hpq : ∀ c ∈ cs, ∀ n, HasForm reg node n c → p n = q c) : ns.any p = cs.any q := by
  induction cs generalizing ns with
  | nil =>
    cases h
    rfl
  | cons c cs ih =>
    cases h with
    | cons form forms =>
      rw [any_cons, any_cons, hpq c (by simp) _ form,
        ih forms fun d hd => hpq d (by simp [hd])]

/-- **Whether a `break` leaves the switch is seen from the statement.** -/
theorem HasForm.leavesSwitch_eq (h : HasForm reg node n c) : n.leavesSwitch = c.leaves := by
  induction c using CStmt.induct generalizing n with
  | null | brk | cont =>
    cases h with
    | _ => simp_all [Node.leavesSwitch_eq, CStmt.leaves]
  | simple operands =>
    cases h with
    | simple simple => simp [simple.leavesSwitch_eq, CStmt.leaves]
  | decl vars =>
    cases h with
    | decl kind eq each =>
      have stays : ∀ v ∈ vars, (node v).leavesSwitch = false := fun v hv => (each v hv).stays
      simp only [Node.leavesSwitch_eq n, kind, ← eq, CStmt.leaves]
      simpa using stays
  | block body ih =>
    cases h with
    | block kind all =>
      simp only [Node.leavesSwitch_eq n, kind, CStmt.leaves, CStmt.anyLeaves_eq]
      exact all.any_eq fun c hc n form => ih c hc form
  | ifThen test yes ih =>
    cases h with
    | ifThen kind children condition form =>
      simp [Node.leavesSwitch_eq n, kind, children, CStmt.leaves, ih form,
        condition.simple.leavesSwitch_eq]
  | ifElse test yes no ihy ihn =>
    cases h with
    | ifElse kind children condition formYes formNo =>
      simp [Node.leavesSwitch_eq n, kind, children, CStmt.leaves, ihy formYes, ihn formNo,
        condition.simple.leavesSwitch_eq]
  | whileLoop | doLoop | switch =>
    cases h with
    | _ => simp_all [Node.leavesSwitch_eq n, CStmt.leaves]
  | forLoop init test? step body =>
    cases h with
    | forLoop kind header children hasInit =>
      have stays : init.leaves = false := by
        cases hasInit <;> simp [CStmt.leaves]
      simp [Node.leavesSwitch_eq n, kind, CStmt.leaves, stays]
  | ret value? =>
    cases h with
    | retNone kind children => simp [Node.leavesSwitch_eq n, kind, children, CStmt.leaves]
    | retSome kind children isValue =>
      simp [Node.leavesSwitch_eq n, kind, children, CStmt.leaves,
        isValue.simple.leavesSwitch_eq]
  | labelled => exact absurd rfl h.ne_labelled

/-! ## Lists of statements -/

theorem HasForms.append {ms : List Node} {ds : List (CStmt α)} (h : HasForms reg node ns cs)
    (hd : HasForms reg node ms ds) : HasForms reg node (ns ++ ms) (cs ++ ds) := by
  induction cs generalizing ns with
  | nil =>
    cases h
    exact hd
  | cons c cs ih =>
    cases h with
    | cons form forms => exact .cons form (ih forms)

theorem HasForms.exists_of_mem (h : HasForms reg node ns cs) {c : CStmt α} (hc : c ∈ cs) :
    ∃ n ∈ ns, HasForm reg node n c := by
  induction cs generalizing ns with
  | nil => simp at hc
  | cons d cs ih =>
    cases h with
    | cons form forms =>
      rcases mem_cons.1 hc with rfl | hc
      · exact ⟨_, mem_cons_self, form⟩
      · obtain ⟨n, hn, form⟩ := ih forms hc
        exact ⟨n, mem_cons_of_mem _ hn, form⟩

theorem HasForms.length_eq (h : HasForms reg node ns cs) : ns.length = cs.length := by
  induction cs generalizing ns with
  | nil =>
    cases h
    rfl
  | cons c cs ih =>
    cases h with
    | cons form forms => rw [length_cons, length_cons, ih forms]

/-- The statements up to the first `break`. -/
theorem HasForms.takeWhile (h : HasForms reg node ns cs) :
    HasForms reg node (ns.takeWhile fun n => n.kind != .breakStmt)
      (cs.takeWhile fun c => !c.isBrk) := by
  induction cs generalizing ns with
  | nil =>
    cases h
    exact .nil
  | cons c cs ih =>
    cases h with
    | cons form forms =>
      simp only [takeWhile_cons, form.isBrk_eq]
      split
      · exact .cons form (ih forms)
      · exact .nil

theorem HasForms.getLast?_any (h : HasForms reg node ns cs) :
    (ns.getLast?.any fun n => n.kind.endsArm) = cs.getLast?.any CStmt.endsArm := by
  induction cs generalizing ns with
  | nil =>
    cases h
    rfl
  | cons c cs ih =>
    cases h with
    | cons form forms =>
      cases forms with
      | nil => simp [form.endsArm_eq]
      | cons second rest =>
        have later := ih (.cons second rest)
        simpa [getLast?_cons_cons] using later

end Forms

/-! ## Labels -/

section Labels

variable {α : Type} {reg : Registry} {node : α → Node}

theorem Draft.openArm_eq (d : Draft) (labels : List Draft) (isDefault : Bool) :
    d.openArm labels isDefault =
      if d.node.kind = .caseStmt then
        if 1 < d.parts.length then
          openArmOfLast (labels ++ d.parts.head?.toList) isDefault d.parts
        else ⟨labels ++ d.parts.head?.toList, isDefault, []⟩
      else if d.node.kind = .defaultStmt then openArmOfLast labels true d.parts
      else ⟨labels, isDefault, [d]⟩ := by
  cases d
  rw [openArm]

variable {n last : Node} {labels : List α} {isDefault : Bool}

theorem HasLabels.openArm_eq (h : HasLabels reg node n labels isDefault last) (before : List Draft)
    (seen : Bool) :
    (ofNode reg n).openArm before seen =
      ⟨before ++ labels.map fun l => ofNode reg (node l), seen || isDefault,
        [ofNode reg last]⟩ := by
  induction h generalizing before seen with
  | @stop n kind =>
    have notCase : n.kind ≠ .caseStmt := by
      intro hk
      simp [hk, Kind.isCaseLabel] at kind
    have notDefault : n.kind ≠ .defaultStmt := by
      intro hk
      simp [hk, Kind.isCaseLabel] at kind
    rw [Draft.openArm_eq, Draft.node_ofNode, if_neg notCase, if_neg notDefault]
    simp
  | case kind children value rest ih =>
    rw [Draft.openArm_eq, Draft.node_ofNode, if_pos kind, Draft.parts_ofNode, children]
    simp [openArmOfLast, ih]
  | default kind children rest ih =>
    rw [Draft.openArm_eq, Draft.node_ofNode, if_neg (by simp [kind]), if_pos kind,
      parts_ofNode, children]
    simp [openArmOfLast, ih]

theorem HasLabels.isSimple (h : HasLabels reg node n labels isDefault last) :
    ∀ l ∈ labels, (node l).IsSimple reg := by
  induction h with
  | stop => simp
  | case kind children value rest ih => simpa using ⟨value, ih⟩
  | default kind children rest ih => exact ih

theorem HasLabels.exists_label (h : HasLabels reg node n labels isDefault last)
    (hn : n.kind.isCaseLabel = true) (hd : isDefault = false) : labels ≠ [] := by
  cases h with
  | stop kind => simp [kind] at hn
  | case => simp
  | default => simp at hd

end Labels

/-! ## Arms -/

/-- **An arm of drafts and the arm of statements it stands for.** -/
structure PairedArm {α : Type} (reg : Registry) (node : α → Node) where
  drafts : SwitchArm
  form : Arm α (CStmt α)
  nodes : List Node
  labels_eq : drafts.labels = form.labels.map fun l => ofNode reg (node l)
  isDefault_eq : drafts.isDefault = form.isDefault
  statements_eq : drafts.statements = nodes.map (ofNode reg)
  hasForms : HasForms reg node nodes form.body
  isSimple : ∀ l ∈ form.labels, (node l).IsSimple reg
  exists_label : form.isDefault = false → form.labels ≠ []

namespace PairedArm

variable {α : Type} {reg : Registry} {node : α → Node} (p : PairedArm reg node)

/-- The nodes of the arm up to its first `break`. -/
def run : List Node :=
  p.nodes.takeWhile fun n => n.kind != .breakStmt

theorem drafts_run : p.drafts.run = p.run.map (ofNode reg) := by
  rw [SwitchArm.run, p.statements_eq, takeWhile_map, run]
  simp only [Function.comp_def, node_ofNode]

theorem hasForms_run : HasForms reg node p.run p.form.run :=
  p.hasForms.takeWhile

theorem isTerminated_eq : p.drafts.isTerminated = p.form.isTerminated := by
  rw [isTerminated, Arm.isTerminated, p.drafts_run, p.statements_eq, length_map,
    length_map, p.hasForms.length_eq, p.hasForms_run.length_eq, ← p.hasForms_run.getLast?_any,
    getLast?_map]
  cases p.run.getLast? with
  | none => rfl
  | some n => simp

theorem breaksEarly_eq : p.drafts.breaksEarly = p.form.breaksEarly := by
  have same := p.hasForms_run.any_eq fun c _ n form => form.leavesSwitch_eq
  rw [breaksEarly, Arm.breaksEarly, p.drafts_run, any_map, ← same]
  simp only [Function.comp_def, node_ofNode]

end PairedArm

section Grouping

variable {α : Type} {reg : Registry} {node : α → Node}

/-- A draft without one level of braces. -/
def Draft.unbraced (d : Draft) : List Draft :=
  if d.node.kind = .compoundStmt then d.parts else [d]

theorem Draft.unbraced_of_eq (reg : Registry) {n : Node} (h : n.kind = .compoundStmt) :
    (ofNode reg n).unbraced = n.children.map (ofNode reg) := by
  rw [unbraced, node_ofNode, if_pos h, parts_ofNode]

theorem Draft.unbraced_of_ne (reg : Registry) {n : Node} (h : n.kind ≠ .compoundStmt) :
    (ofNode reg n).unbraced = [n].map (ofNode reg) := by
  rw [unbraced, node_ofNode, if_neg h, map_singleton]

theorem SwitchArm.statements_eq (arm : SwitchArm) :
    arm.statements = arm.body.flatMap unbraced := rfl

theorem SwitchArm.group_cons_plain {d : Draft} (h : d.node.kind.isCaseLabel = false)
    (ds : List Draft) :
    group (d :: ds) = (d :: (group ds).1, (group ds).2) := by
  simp [group, h]

/-- A labelled statement opens an arm with all that stands before the next label. -/
theorem HasLabels.group_cons {n last : Node} {labels : List α} {isDefault : Bool}
    (h : HasLabels reg node n labels isDefault last) (kind : n.kind.isCaseLabel = true)
    (ds : List Draft) :
    group (ofNode reg n :: ds) =
      ([], ⟨labels.map fun l => ofNode reg (node l), isDefault,
        ofNode reg last :: (group ds).1⟩ :: (group ds).2) := by
  simp [group, kind, h.openArm_eq]

theorem CStmt.group_cons_plain {c : CStmt α}
    (h : ∀ labels isDefault braced body, c ≠ .labelled labels isDefault braced body)
    (cs : List (CStmt α)) :
    CStmt.group (c :: cs) = (c.unbraced ++ (CStmt.group cs).1, (CStmt.group cs).2) := by
  cases c with
  | labelled labels isDefault braced body => exact absurd rfl (h labels isDefault braced body)
  | _ => rfl

theorem HasForm.unbraced {n : Node} {c : CStmt α} (h : HasForm reg node n c) :
    ∃ ns, (ofNode reg n).unbraced = ns.map (ofNode reg) ∧
      HasForms reg node ns c.unbraced := by
  by_cases kind : n.kind = .compoundStmt
  · obtain ⟨body, rfl⟩ := h.kind_eq_compound.1 kind
    cases h with
    | block _ all => exact ⟨n.children, unbraced_of_eq reg kind, all⟩
  · have single : c.unbraced = [c] := by
      cases c with
      | block body => exact absurd (h.kind_eq_compound.2 ⟨body, rfl⟩) kind
      | labelled => exact absurd rfl h.ne_labelled
      | _ => rfl
    refine ⟨[n], unbraced_of_ne reg kind, ?_⟩
    rw [single]
    exact .cons h .nil

/-- The arm that a labelled statement opens, in both views. -/
def PairedArm.ofLabels {n last : Node} {labels : List α} {isDefault : Bool}
    (hasLabels : HasLabels reg node n labels isDefault last) (kind : n.kind.isCaseLabel = true)
    {nodes before : List Node} {body rest : List (CStmt α)} {pending : List Draft}
    (unbraced : (ofNode reg last).unbraced = nodes.map (ofNode reg))
    (forms : HasForms reg node nodes body)
    (pendingUnbraced : pending.flatMap Draft.unbraced = before.map (Draft.ofNode reg))
    (pendingForms : HasForms reg node before rest) : PairedArm reg node where
  drafts := ⟨labels.map fun l => ofNode reg (node l), isDefault,
    ofNode reg last :: pending⟩
  form := ⟨labels, isDefault, body ++ rest⟩
  nodes := nodes ++ before
  labels_eq := rfl
  isDefault_eq := rfl
  statements_eq := by
    rw [SwitchArm.statements_eq, List.flatMap_cons, unbraced, pendingUnbraced, List.map_append]
  hasForms := forms.append pendingForms
  isSimple := hasLabels.isSimple
  exists_label := hasLabels.exists_label kind

/-- **The arms of a switch in both views**, after what stands before the first label. -/
theorem exists_pairedArms {ns : List Node} {items : List (CStmt α)}
    (h : HasItems reg node ns items) :
    ∃ (before : List Node) (pairs : List (PairedArm reg node)),
      (group (ns.map (ofNode reg))).1.flatMap unbraced =
        before.map (ofNode reg) ∧
      HasForms reg node before (CStmt.group items).1 ∧
      (group (ns.map (ofNode reg))).2 = pairs.map PairedArm.drafts ∧
      (CStmt.group items).2 = pairs.map PairedArm.form := by
  -- from the last item: a label opens an arm with all that was found before the next label
  induction ns generalizing items with
  | nil =>
    cases h
    exact ⟨[], [], rfl, .nil, rfl, rfl⟩
  | cons n ns ih =>
    cases h with
    | plain kind form items =>
      obtain ⟨before, pairs, drafts, forms, armDrafts, arms⟩ := ih items
      obtain ⟨nodes, unbraced, unbracedForms⟩ := form.unbraced
      refine ⟨nodes ++ before, pairs, ?_, ?_, ?_, ?_⟩
      · rw [map_cons, group_cons_plain (by simpa using kind), flatMap_cons,
          unbraced, drafts, map_append]
      · rw [CStmt.group_cons_plain fun _ _ _ _ => form.ne_labelled]
        exact unbracedForms.append forms
      · rw [map_cons, group_cons_plain (by simpa using kind), armDrafts]
      · rw [CStmt.group_cons_plain fun _ _ _ _ => form.ne_labelled, arms]
    | labelled kind hasLabels single form items =>
      obtain ⟨before, pairs, drafts, forms, armDrafts, arms⟩ := ih items
      have unbraced := unbraced_of_ne reg single
      refine ⟨[], .ofLabels hasLabels kind unbraced (.cons form .nil) drafts forms :: pairs, ?_,
        .nil, ?_, ?_⟩
      · rw [map_cons, hasLabels.group_cons kind]
        rfl
      · rw [map_cons, hasLabels.group_cons kind, armDrafts]
        rfl
      · rw [CStmt.group, arms]
        rfl
    | braced kind hasLabels compound body items =>
      obtain ⟨before, pairs, drafts, forms, armDrafts, arms⟩ := ih items
      have unbraced := unbraced_of_eq reg compound
      refine ⟨[], .ofLabels hasLabels kind unbraced body drafts forms :: pairs, ?_,
        .nil, ?_, ?_⟩
      · rw [map_cons, hasLabels.group_cons kind]
        rfl
      · rw [map_cons, hasLabels.group_cons kind, armDrafts]
        rfl
      · rw [CStmt.group, arms]
        rfl

end Grouping

end Ferric
