import Ferric.Proofs.Meaning.Execution
import Mathlib.Data.List.Nodup

/-!
# Choosing an arm

The executions of a switch in C go from a label on through all items that follow.  If every arm
ends before the next one begins, only the arm that was chosen is executed, up to its first `break`.

## Main definitions

* `BreaksOnlyIf`: a statement that can be left by a `break` only under a condition.
* `CStmt.chosen?`: the arm that is executed.

## Main results

* `CStmt.breaksOnlyIf_leaves`: a statement is left by a `break` only if one is in it.
* `CStmt.meaning_switch`: the executions of a switch whose arms end.
-/

namespace Ferric

open List

namespace Behaviour

variable {σ V : Type}

/-- **A statement that can be left by a `break` only under a condition**, and never through a
label. -/
def BreaksOnlyIf (b : Bool) (P : Behaviour σ V) : Prop :=
  ∀ label? st st', P st (.brk label?) st' → label? = none ∧ b = true

theorem breaksOnlyIf_exit {x : Exit V} (h : ∀ label?, x ≠ .brk label?) (b : Bool) :
    BreaksOnlyIf b (exit x : Behaviour σ V) := by
  rintro label? st st' ⟨he, -⟩
  exact absurd he.symm (h label?)

theorem breaksOnlyIf_act (b : Bool) (R : σ → σ → Prop) :
    BreaksOnlyIf b (act R : Behaviour σ V) := by
  rintro label? st st' ⟨he, -⟩
  simp at he

variable {P Q : Behaviour σ V} {b c : Bool}

theorem BreaksOnlyIf.seq (hp : BreaksOnlyIf b P) (hq : BreaksOnlyIf c Q) :
    BreaksOnlyIf (b || c) (P.seq Q) := by
  rintro label? st st' ⟨x, m, first, rest⟩
  by_cases hx : x = .normal
  · subst hx
    obtain ⟨hl, hc⟩ := hq label? m st' rest
    exact ⟨hl, by simp [hc]⟩
  · rw [andThen_of_ne hx] at rest
    obtain ⟨rfl, rfl⟩ := rest
    obtain ⟨hl, hb⟩ := hp label? st _ first
    exact ⟨hl, by simp [hb]⟩

theorem BreaksOnlyIf.choose (hp : BreaksOnlyIf b P) (hq : BreaksOnlyIf c Q) (T : Check σ) :
    BreaksOnlyIf (b || c) (choose T P Q) := by
  rintro label? st st' ⟨t, m, -, h⟩
  cases t with
  | true =>
    obtain ⟨hl, hb⟩ := hp label? m st' h
    exact ⟨hl, by simp [hb]⟩
  | false =>
    obtain ⟨hl, hc⟩ := hq label? m st' h
    exact ⟨hl, by simp [hc]⟩

theorem BreaksOnlyIf.evaluate {W : Type} {F : W → Behaviour σ V} (h : ∀ w, BreaksOnlyIf b (F w))
    (E : σ → W → σ → Prop) : BreaksOnlyIf b (evaluate E F) := by
  rintro label? st st' ⟨w, m, -, hF⟩
  exact h w label? m st' hF

theorem BreaksOnlyIf.mono (h : BreaksOnlyIf b P) :
    BreaksOnlyIf true P :=
  fun label? st st' hP => ⟨(h label? st st' hP).1, rfl⟩

/-- A loop catches the `break`s of its body. -/
theorem BreaksOnlyIf.loop (h : BreaksOnlyIf b P) (T K : Check σ) (c : Bool) :
    BreaksOnlyIf c (Loop T K P) := by
  have none : ∀ {st e st'}, Loop T K P st e st' → ∀ label?, e ≠ .brk label? := by
    intro st e st' hl
    induction hl with
    | stop | done | leave => simp
    | again _ _ _ _ _ ih => exact ih
    | out _ hB hx =>
      rintro label? rfl
      obtain ⟨rfl, -⟩ := h label? _ _ hB
      simp [Exit.goesOut] at hx
  intro label? st st' hl
  exact absurd rfl (none hl label?)

/-- A switch catches the `break`s of its arms. -/
theorem BreaksOnlyIf.endSwitch (h : BreaksOnlyIf b P) (c : Bool) :
    BreaksOnlyIf c (endSwitch P) := by
  rintro label? st st' ⟨x, m, hP, he⟩
  match x with
  | .brk none =>
    obtain ⟨he, -⟩ := he
    simp at he
  | .brk (some l) =>
    obtain ⟨hl, -⟩ := h (some l) st m hP
    simp at hl
  | .normal | .cont | .ret _ =>
    obtain ⟨he, -⟩ := he
    simp at he

theorem BreaksOnlyIf.unlabelled (h : BreaksOnlyIf b P) : P.Unlabelled := by
  intro st l st' hP
  obtain ⟨hl, -⟩ := h (some l) st st' hP
  simp at hl

theorem BreaksOnlyIf.never (h : BreaksOnlyIf false P) (st st' : σ) : ¬ P st (.brk none) st' := by
  intro hP
  obtain ⟨-, hb⟩ := h none st st' hP
  simp at hb

/-- A `break` at the end of a switch changes nothing. -/
theorem endSwitch_seq_brk (P : Behaviour σ V) :
    endSwitch (P.seq (exit (.brk none))) = endSwitch P := by
  rw [endSwitch, seq, via_via]
  refine via_congr fun st x m _ => ?_
  cases x with
  | normal => exact exit_via _ _
  | brk | cont | ret => exact exit_via _ _

theorem seq_never (h : ∀ st st', ¬ Q st .normal st') (st st' : σ) :
    ¬ P.seq Q st .normal st' := by
  rintro ⟨x, m, -, hQ⟩
  cases x with
  | normal => exact h m st' hQ
  | brk | cont | ret =>
    obtain ⟨he, -⟩ := hQ
    simp at he

end Behaviour

namespace CStmt

variable {α σ V : Type} {reg : Registry} {node : α → Node} {I : Interp σ V} {result : CType}
  [DecidableEq V]

open Behaviour

theorem breaksOnlyIf_meaningAll {cs : List (CStmt α)}
    (h : ∀ c ∈ cs, BreaksOnlyIf c.leaves (meaning reg node I result c)) :
    BreaksOnlyIf (cs.any leaves) (meaningAll reg node I result cs) := by
  induction cs with
  | nil => exact breaksOnlyIf_exit (by simp) _
  | cons c cs ih =>
    rw [meaningAll, any_cons]
    exact (h c (by simp)).seq (ih fun d hd => h d (by simp [hd]))

variable {items : List (CStmt α)} {arm : Arm α (CStmt α)}

theorem breaksOnlyIf_meaningFrom
    (h : ∀ c ∈ items, BreaksOnlyIf c.leaves (meaning reg node I result c)) (p : CStmt α → Bool)
    {P : Behaviour σ V} (hp : meaningFrom reg node I result p items = some P) :
    BreaksOnlyIf true P := by
  induction items with
  | nil => simp [meaningFrom] at hp
  | cons c cs ih =>
    have later : ∀ d ∈ cs, BreaksOnlyIf d.leaves (meaning reg node I result d) :=
      fun d hd => h d (by simp [hd])
    rw [meaningFrom] at hp
    split at hp
    · obtain rfl := Option.some.inj hp
      exact BreaksOnlyIf.mono ((h c (by simp)).seq (breaksOnlyIf_meaningAll later))
    · exact ih later hp

/-- **A statement is left by a `break` only if one is in it.** -/
theorem breaksOnlyIf_leaves (c : CStmt α) :
    BreaksOnlyIf c.leaves (meaning reg node I result c) := by
  induction c using induct with
  | null | cont => exact breaksOnlyIf_exit (by simp) _
  | simple | decl => exact breaksOnlyIf_act _ _
  | block body ih | labelled _ _ _ body ih =>
    rw [meaning, leaves, anyLeaves_eq]
    exact breaksOnlyIf_meaningAll ih
  | ifThen test yes ih =>
    rw [meaning, leaves, ← Bool.or_false yes.leaves]
    exact ih.choose (breaksOnlyIf_exit (by simp) _) _
  | ifElse test yes no ihy ihn => exact ihy.choose ihn _
  | whileLoop test body ih => exact ih.loop _ _ _
  | doLoop body test ih => exact ih.loop _ _ _
  | forLoop init test? step body ihi ihb =>
    rw [meaning, leaves, ← Bool.or_false init.leaves]
    exact ihi.seq (ihb.loop _ _ _)
  | ret value? =>
    cases value? with
    | none => exact breaksOnlyIf_exit (by simp) _
    | some value =>
      have leave : ∀ v : Option V, BreaksOnlyIf false (exit (.ret v) : Behaviour σ V) :=
        fun v => breaksOnlyIf_exit (by simp) _
      show BreaksOnlyIf false (returnMeaning reg node I result value)
      rw [returnMeaning]
      split
      · exact (breaksOnlyIf_act false _).seq (leave none)
      · exact .evaluate (fun v => leave (some v)) _
  | brk =>
    rintro label? st st' ⟨he, -⟩
    exact ⟨by simpa using he, rfl⟩
  | switch x items ih =>
    rw [meaning]
    refine .evaluate (fun v => ?_) _
    -- wherever the items are entered, a `break` among them ends the switch
    have enters : ∀ p P, meaningFrom reg node I result p items = some P → BreaksOnlyIf true P :=
      fun p P hp => breaksOnlyIf_meaningFrom ih p hp
    have entered : BreaksOnlyIf true (((meaningFrom reg node I result
        (hasLabel fun l => decide (I.label ((node l).expressionText reg) = v)) items).or
        (meaningFrom reg node I result isDefault items)).getD skip) := by
      cases labelled : meaningFrom reg node I result
          (hasLabel fun l => decide (I.label ((node l).expressionText reg) = v)) items with
      | some P => exact enters _ P labelled
      | none =>
        cases default : meaningFrom reg node I result isDefault items with
        | some P => exact enters _ P default
        | none => exact breaksOnlyIf_exit (by simp) _
    exact entered.endSwitch _

/-! ## Arms in turn -/

theorem meaningAll_append (cs ds : List (CStmt α)) :
    meaningAll reg node I result (cs ++ ds) =
      (meaningAll reg node I result cs).seq (meaningAll reg node I result ds) := by
  induction cs with
  | nil => exact (skip_seq _).symm
  | cons c cs ih => rw [cons_append, meaningAll, ih, meaningAll, seq_assoc]

variable (reg node I result) in
/-- The executions of some arms, each going on with the next. -/
def armsMeaning (arms : List (Arm α (CStmt α))) : Behaviour σ V :=
  arms.foldr (fun arm rest => (meaningAll reg node I result arm.body).seq rest) skip

variable (reg node I result) in
/-- The executions of the arms from the first one with a property on. -/
def armsFrom (q : Arm α (CStmt α) → Bool) : List (Arm α (CStmt α)) → Option (Behaviour σ V)
  | [] => none
  | arm :: arms => if q arm then some (armsMeaning reg node I result (arm :: arms))
    else armsFrom q arms

/-- Grouping the items into arms does not change what they do. -/
theorem meaningAll_group (items : List (CStmt α)) :
    meaningAll reg node I result items =
      (meaningAll reg node I result (group items).1).seq
        (armsMeaning reg node I result (group items).2) := by
  fun_induction group items with
  | case1 => exact (seq_skip _).symm
  | case2 labels isDefault braced body rest ih =>
    refine Eq.trans ?_ (skip_seq _).symm
    rw [meaningAll, meaning, ih, ← Behaviour.seq_assoc, ← meaningAll_append]
    rfl
  | case3 body rest ih =>
    rw [meaningAll, meaning, ih, ← Behaviour.seq_assoc, ← meaningAll_append]
  | case4 c rest hl hb ih =>
    rw [meaningAll, ih, ← Behaviour.seq_assoc]
    rfl

/-- Entering the items at a label is entering the arms there. -/
theorem meaningFrom_group {p : CStmt α → Bool} (q : List α → Bool → Bool)
    (hp : ∀ labels isDefault braced body,
      p (.labelled labels isDefault braced body) = q labels isDefault)
    (hn : ∀ c, (∀ labels isDefault braced body, c ≠ .labelled labels isDefault braced body) →
      p c = false)
    (items : List (CStmt α)) :
    meaningFrom reg node I result p items =
      armsFrom reg node I result (fun arm => q arm.labels arm.isDefault) (group items).2 := by
  fun_induction group items with
  | case1 => rfl
  | case2 labels isDefault braced body rest ih =>
    rw [meaningFrom, hp, armsFrom]
    refine if_congr Iff.rfl ?_ ih
    rw [meaning, meaningAll_group rest, ← Behaviour.seq_assoc, ← meaningAll_append]
    rfl
  | case3 body rest ih =>
    rw [meaningFrom, hn _ (by simp), if_neg (by simp), ih]
  | case4 c rest hl hb ih =>
    rw [meaningFrom, hn c fun labels isDefault braced body => hl labels isDefault braced body,
      if_neg (by simp), ih]

/-! ## Arms that end -/

/-- Every arm but the last ends before the next one begins. -/
def ArmsEnd : List (Arm α (CStmt α)) → Prop
  | [] | [_] => True
  | arm :: next :: rest => arm.isTerminated = true ∧ ArmsEnd (next :: rest)

theorem eq_brk_of_isBrk {c : CStmt α} (h : c.isBrk = true) : c = .brk := by
  cases c with
  | brk => rfl
  | _ => simp [isBrk] at h

/-- An arm is its statements up to the first `break`, and perhaps that `break` and more. -/
theorem body_eq (arm : Arm α (CStmt α)) :
    arm.body = arm.run ∨ ∃ rest, arm.body = arm.run ++ .brk :: rest := by
  have split := takeWhile_append_dropWhile (p := fun c : CStmt α => !c.isBrk) (l := arm.body)
  cases after : arm.body.dropWhile fun c => !c.isBrk with
  | nil =>
    left
    rw [after, append_nil] at split
    exact split.symm
  | cons c rest =>
    right
    have brk : c.isBrk = true := by
      have kept := head?_dropWhile_not (fun c : CStmt α => !c.isBrk) arm.body
      rw [after] at kept
      simpa using kept
    rw [after, eq_brk_of_isBrk brk] at split
    exact ⟨rest, split.symm⟩

/-- What follows a `break` in an arm is not executed. -/
theorem meaningAll_append_brk (cs rest : List (CStmt α)) :
    meaningAll reg node I result (cs ++ .brk :: rest) =
      (meaningAll reg node I result cs).seq (exit (.brk none)) := by
  rw [meaningAll_append]
  exact congrArg _ (exit_seq (by simp) _)

/-- A switch that runs one arm runs it up to its first `break`. -/
theorem endSwitch_body (arm : Arm α (CStmt α)) :
    endSwitch (meaningAll reg node I result arm.body) =
      endSwitch (meaningAll reg node I result arm.run) := by
  rcases body_eq arm with same | ⟨rest, split⟩
  · rw [same]
  · rw [split, meaningAll_append_brk, endSwitch_seq_brk]

theorem meaning_never_of_endsArm {c : CStmt α} (h : c.endsArm = true) (st st' : σ) :
    ¬ meaning reg node I result c st .normal st' := by
  have exit_never : ∀ {x : Exit V}, x ≠ .normal → ∀ st st' : σ, ¬ exit x st .normal st' := by
    rintro x hx st st' ⟨he, -⟩
    exact hx he.symm
  match c with
  | .cont => exact exit_never (by simp) st st'
  | .ret none => exact exit_never (by simp) st st'
  | .ret (some value) =>
    rw [meaning, returnMeaning]
    split
    · exact seq_never (exit_never (by simp)) st st'
    · rintro ⟨v, m, -, hv⟩
      exact exit_never (by simp) m st' hv

/-- An arm that ends does not go on with the next one. -/
theorem meaningAll_never (h : arm.isTerminated = true) (st st' : σ) :
    ¬ meaningAll reg node I result arm.body st .normal st' := by
  rcases body_eq arm with same | ⟨rest, split⟩
  · rw [Arm.isTerminated, same] at h
    obtain ⟨c, last, ends⟩ : ∃ c, arm.run.getLast? = some c ∧ c.endsArm = true := by
      simpa [Option.any_eq_true] using h
    obtain ⟨front, hf⟩ := getLast?_eq_some_iff.1 last
    rw [same, hf, meaningAll_append]
    refine seq_never (fun st st' => ?_) st st'
    rw [meaningAll, meaningAll, seq_skip]
    exact meaning_never_of_endsArm ends st st'
  · rw [split, meaningAll_append_brk]
    refine seq_never ?_ st st'
    rintro st st' ⟨he, -⟩
    simp at he

theorem endSwitch_armsMeaning {rest : List (Arm α (CStmt α))} (h : ArmsEnd (arm :: rest)) :
    endSwitch (armsMeaning reg node I result (arm :: rest)) =
      endSwitch (meaningAll reg node I result arm.run) := by
  rw [armsMeaning, foldr_cons, ← endSwitch_body]
  cases rest with
  | nil => rw [foldr_nil, seq_skip]
  | cons next rest => rw [seq_of_never (meaningAll_never h.1)]

theorem ArmsEnd.tail {rest : List (Arm α (CStmt α))} (h : ArmsEnd (arm :: rest)) :
    ArmsEnd rest := by
  cases rest with
  | nil => trivial
  | cons next rest => exact h.2

/-- If every arm ends, entering the arms somewhere is to run one arm. -/
theorem armsFrom_eq {arms : List (Arm α (CStmt α))} (h : ArmsEnd arms)
    (q : Arm α (CStmt α) → Bool) :
    (armsFrom reg node I result q arms).map endSwitch =
      (arms.find? q).map fun arm => endSwitch (meaningAll reg node I result arm.run) := by
  induction arms with
  | nil => rfl
  | cons arm rest ih =>
    rw [armsFrom, find?_cons]
    cases chosen : q arm with
    | true => exact congrArg some (endSwitch_armsMeaning h)
    | false => exact ih h.tail

/-! ## The arm that is chosen -/

/-- The first element with one property or else the first with another is found apart, if neither
property is had twice. -/
theorem find?_or_find? {β : Type} {c d : β → Bool} {l : List β}
    (hc : l.Pairwise fun a b => ¬ (c a = true ∧ c b = true))
    (hd : l.Pairwise fun a b => ¬ (d a = true ∧ d b = true)) :
    (l.find? c).or (l.find? d) =
      ((l.filter fun a => !d a).find? c).or (l.filter d).getLast? := by
  induction l with
  | nil => rfl
  | cons a l ih =>
    rw [pairwise_cons] at hc hd
    cases ha : d a with
    | false =>
      rw [filter_cons_of_pos (by simp [ha]), filter_cons_of_neg (by simp [ha])]
      cases hca : c a with
      | true => simp [hca]
      | false => simpa [hca, ha] using ih hc.2 hd.2
    | true =>
      have others : ∀ b ∈ l, d b = false := by
        intro b hb
        simpa [ha] using hd.1 b hb
      rw [filter_cons_of_neg (by simp [ha]), filter_cons_of_pos ha,
        filter_eq_self.2 fun b hb => by simp [others b hb],
        filter_eq_nil_iff.2 fun b hb => by simp [others b hb]]
      cases hca : c a with
      | true =>
        -- the element has both properties, and no later one has the first
        have none : l.find? c = none := by
          rw [find?_eq_none]
          intro b hb
          simpa [hca] using hc.1 b hb
        simp [hca, none]
      | false => simp [hca, ha]

def itemLabels : CStmt α → List α
  | .labelled labels _ _ _ => labels
  | _ => []

theorem flatMap_labels_arms (items : List (CStmt α)) :
    (arms items).flatMap Arm.labels = items.flatMap itemLabels := by
  unfold arms
  fun_induction group items with
  | case1 => rfl
  | case2 labels isDefault braced body rest ih => rw [flatMap_cons, ih]; rfl
  | case3 body rest ih => rw [flatMap_cons, ih]; rfl
  | case4 c rest hl hb ih =>
    rw [flatMap_cons, ih]
    cases c with
    | labelled labels isDefault braced body => exact absurd rfl (hl labels isDefault braced body)
    | _ => rfl

theorem countP_isDefault_arms (items : List (CStmt α)) :
    (arms items).countP Arm.isDefault = items.countP isDefault := by
  unfold arms
  fun_induction group items with
  | case1 => rfl
  | case2 labels isDefault braced body rest ih => rw [countP_cons, countP_cons, ih]; rfl
  | case3 body rest ih => rw [countP_cons, ih]; rfl
  | case4 c rest hl hb ih =>
    rw [countP_cons, ih]
    cases c with
    | labelled labels isDefault braced body => exact absurd rfl (hl labels isDefault braced body)
    | _ => rfl

variable (reg node I) in
/-- What C requires of the labels of a switch: no value twice, and at most one default. -/
structure Distinct (items : List (CStmt α)) : Prop where
  values : ((items.flatMap itemLabels).map fun l => I.label ((node l).expressionText reg)).Nodup
  default : items.countP isDefault ≤ 1

variable (reg node I) in
/-- Whether a label has a value. -/
def carries (v : V) (l : α) : Bool :=
  decide (I.label ((node l).expressionText reg) = v)

theorem Distinct.pairwise_carries (h : Distinct reg node I items) (v : V) :
    (arms items).Pairwise fun a b =>
      ¬ (a.labels.any (carries reg node I v) = true ∧
        b.labels.any (carries reg node I v) = true) := by
  have values := h.values
  rw [← flatMap_labels_arms, map_flatMap, nodup_flatMap] at values
  refine values.2.imp ?_
  rintro a b apart ⟨ha, hb⟩
  obtain ⟨l, hl, hv⟩ := any_eq_true.1 ha
  obtain ⟨m, hm, hw⟩ := any_eq_true.1 hb
  rw [carries, decide_eq_true_eq] at hv hw
  exact apart (mem_map.2 ⟨l, hl, hv⟩) (mem_map.2 ⟨m, hm, hw⟩)

omit [DecidableEq V] in
theorem Distinct.pairwise_default (h : Distinct reg node I items) :
    (arms items).Pairwise fun a b => ¬ (a.isDefault = true ∧ b.isDefault = true) := by
  have few := h.default
  rw [← countP_isDefault_arms] at few
  generalize arms items = l at few
  induction l with
  | nil => exact .nil
  | cons a l ih =>
    rw [countP_cons] at few
    refine pairwise_cons.2 ⟨?_, ih (by omega)⟩
    rintro b hb ⟨ha, hd⟩
    have one : 0 < l.countP Arm.isDefault := countP_pos_iff.2 ⟨b, hb, hd⟩
    rw [if_pos ha] at few
    omega

variable (reg node I) in
/-- **The arm that is chosen**: one with a label of the value, or the last default. -/
def chosen? (v : V) (arms : List (Arm α (CStmt α))) : Option (Arm α (CStmt α)) :=
  ((arms.filter fun arm => !arm.isDefault).find? fun arm =>
    arm.labels.any (carries reg node I v)).or (arms.filter fun arm => arm.isDefault).getLast?

theorem mem_of_chosen? {v : V} {arms : List (Arm α (CStmt α))}
    (h : chosen? reg node I v arms = some arm) : arm ∈ arms := by
  rw [chosen?, Option.or_eq_some_iff] at h
  rcases h with h | ⟨-, h⟩
  · exact mem_of_mem_filter (mem_of_find?_eq_some h)
  · exact mem_of_mem_filter (mem_of_getLast? h)

/-- **The executions of a switch whose arms end**: those of the chosen arm, up to its first
`break`. -/
theorem meaning_switch {x : α} (ends : ArmsEnd (arms items))
    (distinct : Distinct reg node I items) :
    meaning reg node I result (.switch x items) =
      .evaluate (I.value .empty ((node x).scrutineeText reg)) fun v =>
        ((chosen? reg node I v (arms items)).map fun arm =>
          endSwitch (meaningAll reg node I result arm.run)).getD skip := by
  rw [meaning]
  congr 1
  funext v
  have labels : meaningFrom reg node I result (hasLabel (carries reg node I v)) items =
      armsFrom reg node I result (fun arm => arm.labels.any (carries reg node I v)) (arms items) :=
    meaningFrom_group (fun labels _ => labels.any (carries reg node I v)) (fun _ _ _ _ => rfl)
      (fun c hc => hasLabel.eq_2 _ c fun labels isDefault braced body => hc _ _ _ _) items
  have default : meaningFrom reg node I result isDefault items =
      armsFrom reg node I result (fun arm => arm.isDefault) (arms items) :=
    meaningFrom_group (fun _ isDefault => isDefault) (fun _ _ _ _ => rfl)
      (fun c hc => isDefault.eq_2 c fun labels isDefault braced body => hc _ _ _ _) items
  have entered : ∀ A B : Option (Behaviour σ V), endSwitch ((A.or B).getD skip) =
      ((A.map endSwitch).or (B.map endSwitch)).getD skip := by
    intro A B
    cases A with
    | some P => rfl
    | none =>
      cases B with
      | some P => rfl
      | none => exact exit_via _ _
  rw [chosen?, ← find?_or_find? (distinct.pairwise_carries v) distinct.pairwise_default,
    Option.map_or, ← armsFrom_eq ends, ← armsFrom_eq ends, ← labels, ← default]
  exact entered _ _

end CStmt

end Ferric
