import Ferric.Proofs.Scope.Resolved

/-!
# Lowered statements resolve as in the program

The induction over statements: where the check finds no captured name, every reference in the
lowered code resolves as in the program.  The statements of a list hand on the place and the two
scopes; each arm of a switch starts with the scope before the switch.

## Main results

* `resolved_lowerAll`: lists of statements.
* `resolved_items`: items of a switch.
* `keepsBindings`: all statements.
-/

namespace Ferric

open CStmt Code List

variable {α : Type} {reg : Registry} {node : α → Node} {U : List (α × Scope α)}
  {ρ : Scope (RustStmt (Leaf α))} {γ : Scope α} {s : Setting α} {p : Place}

/-! ## Scopes of the program -/

variable {x : String} {n : Node} {c : CStmt α} {ns : List Node} {cs items : List (CStmt α)}

theorem scopeOf_of_not_mem {vs : List α} (h : x ∉ namesOf node vs) :
    scopeOf node γ vs x = γ x := by
  induction vs generalizing γ with
  | nil => rfl
  | cons v vs ih =>
    rw [namesOf, map_cons, mem_cons, not_or] at h
    exact (ih h.2).trans (Scope.set_of_ne h.1)

/-- A statement leaves all names alone but those it declares. -/
theorem scope_of_not_mem (form : HasForm reg node n c) (h : x ∉ c.declares node) :
    c.scope node γ x = γ x := by
  cases c with
  | decl vs => exact scopeOf_of_not_mem h
  | labelled => exact absurd rfl form.ne_labelled
  | _ => rfl

theorem scopeAll_of_not_mem (forms : HasForms reg node ns cs) (h : x ∉ declaresAll node cs) :
    scopeAll node γ cs x = γ x := by
  induction cs generalizing ns γ with
  | nil => rfl
  | cons c cs ih =>
    cases forms with
    | cons form forms =>
      rw [declaresAll, flatMap_cons, mem_append, not_or] at h
      exact (ih forms h.2).trans (scope_of_not_mem form h.1)

/-! ## Lists of statements -/

/-- Lowering some statements leaves all names alone but those they bind. -/
theorem scope_lowerAll (forms : HasForms reg node ns cs) (sound : Sound reg node U s p γ ρ)
    (apartU : EmittedApart (vocabulary node U)) {δ : Scope α}
    (uses : ∀ u ∈ usesAll node δ cs, u ∈ U) (hx : x ∈ vocabulary node U)
    (new : x ∉ bindsAll node p cs) (σ : Scope (RustStmt (Leaf α))) :
    RustStmt.scopeAll σ (lowerAll reg node s cs) (sanitize x) = σ (sanitize x) := by
  induction cs generalizing ns δ σ with
  | nil => rfl
  | cons c cs ih =>
    cases forms with
    | cons form forms =>
      rw [bindsAll, flatMap_cons, mem_append, not_or] at new
      rw [usesAll] at uses
      rw [lowerAll, flatMap_cons, RustStmt.scopeAll_append]
      have rest := ih forms (fun u hu => uses u (mem_append_right _ hu)) new.2
        (RustStmt.scopeAll σ (c.lower reg node s))
      exact rest.trans (scope_lower form sound apartU
        (fun u hu => uses u (mem_append_left _ hu)) hx new.1 σ)

/-- The place after some statements is sound. -/
theorem Sound.afterAll (sound : Sound reg node U s p γ ρ) (forms : HasForms reg node ns cs)
    (apartU : EmittedApart (vocabulary node U)) (uses : ∀ u ∈ usesAll node γ cs, u ∈ U) :
    Sound reg node U s (cs.foldl (CStmt.after node) p) (CStmt.scopeAll node γ cs)
      (RustStmt.scopeAll ρ (lowerAll reg node s cs)) := by
  induction cs generalizing ns p γ ρ with
  | nil => exact sound
  | cons c cs ih =>
    cases forms with
    | cons form forms =>
      rw [usesAll] at uses
      have first := sound.after form apartU fun u hu => uses u (mem_append_left _ hu)
      have rest := ih first forms fun u hu => uses u (mem_append_right _ hu)
      rw [lowerAll, flatMap_cons, RustStmt.scopeAll_append]
      exact rest

variable (reg node U) in
/-- **A statement keeps its bindings**: at every sound place where it is clear, its lowered code
resolves as in the program, in braces or without them. -/
def CStmt.KeepsBindings (c : CStmt α) : Prop :=
  ∀ ⦃n : Node⦄ ⦃s : Setting α⦄ ⦃p : Place⦄ ⦃γ : Scope α⦄ ⦃ρ : Scope (RustStmt (Leaf α))⦄,
    HasForm reg node n c → Sound reg node U s p γ ρ → c.isClear node p = true →
      (∀ u ∈ c.uses node γ, u ∈ U) →
      Code.Resolved reg node U ρ (c.lower reg node s) ∧
        Code.Resolved reg node U ρ (c.bodyOf (c.lower reg node s))

/-- **Statements that keep their bindings keep them one after the other.** -/
theorem resolved_lowerAll (forms : HasForms reg node ns cs)
    (ih : ∀ c ∈ cs, c.KeepsBindings reg node U) (sound : Sound reg node U s p γ ρ)
    (apartU : EmittedApart (vocabulary node U)) (clear : allClear node p cs = true)
    (uses : ∀ u ∈ usesAll node γ cs, u ∈ U) :
    Code.Resolved reg node U ρ (lowerAll reg node s cs) := by
  induction cs generalizing ns p γ ρ with
  | nil => exact resolved_nil
  | cons c cs rest =>
    cases forms with
    | cons form forms =>
      rw [allClear, Bool.and_eq_true] at clear
      rw [usesAll] at uses
      have usesFirst : ∀ u ∈ c.uses node γ, u ∈ U := fun u hu => uses u (mem_append_left _ hu)
      rw [lowerAll, flatMap_cons]
      refine (ih c mem_cons_self form sound clear.1 usesFirst).1.append ?_
      exact rest forms (fun d hd => ih d (mem_cons_of_mem _ hd))
        (sound.after form apartU usesFirst) clear.2
        fun u hu => uses u (mem_append_right _ hu)

/-! ## Loops -/

/-- The lowered body of a loop leaves all names alone but those it binds at its end. -/
theorem scope_bodyOf (form : HasForm reg node n c) (sound : Sound reg node U s p γ ρ)
    (apartU : EmittedApart (vocabulary node U)) (uses : ∀ u ∈ c.uses node γ, u ∈ U)
    (hx : x ∈ vocabulary node U) (new : x ∉ c.bindsBody node p) (σ : Scope (RustStmt (Leaf α))) :
    RustStmt.scopeAll σ (c.bodyOf (c.lower reg node s)) (sanitize x) = σ (sanitize x) := by
  by_cases isBlock : ∃ body, c = .block body
  · obtain ⟨body, rfl⟩ := isBlock
    cases form with
    | block kind all =>
      rw [CStmt.uses] at uses
      rw [lower_block]
      exact scope_lowerAll all sound apartU uses hx new σ
  · have other : ∀ body, c ≠ .block body := fun body h => isBlock ⟨body, h⟩
    have binds : c.bindsBody node p = c.binds node p := by
      cases c with
      | block body => exact absurd rfl (other body)
      | _ => rfl
    rw [binds] at new
    exact (and_bodyOf (p := fun code => RustStmt.scopeAll σ code (sanitize x) =
      σ (sanitize x)) (scope_lower form sound apartU uses hx new σ) other).2

/-- **The body of a loop with its step after it.**  The step resolves at the entry of the loop, and
none of its names is bound at the end of the body. -/
theorem resolved_loopBody {n : Node} {c : CStmt α} {step : Code α} {names : List String}
    (keeps : c.KeepsBindings reg node U) (form : HasForm reg node n c)
    (sound : Sound reg node U s p γ ρ) (apartU : EmittedApart (vocabulary node U))
    (known : ∀ x ∈ names, x ∈ vocabulary node U) (quiet : step.Quiet)
    (resolved : ∀ σ : Scope (RustStmt (Leaf α)),
      (∀ x ∈ names, σ (sanitize x) = ρ (sanitize x)) → step.Resolved reg node U σ)
    (clear : c.isClear node (p.inLoop names) = true)
    (free : apart names (c.bindsBody node (p.inLoop names)) = true)
    (uses : ∀ u ∈ c.uses node γ, u ∈ U) :
    Code.Resolved reg node U ρ (c.bodyOf (c.lower reg node (s.inLoop step)) ++ step) := by
  have inside := sound.enterLoop known quiet resolved
  refine (keeps form inside clear uses).2.append (resolved _ fun x hx => ?_)
  exact scope_bodyOf form inside apartU uses (known x hx) (apart_iff.1 free x hx) ρ

/-- **A `do` loop**: its check stands in the body, after what the body binds. -/
theorem resolved_doLoop {body : CStmt α} {test : α} (form : HasForm reg node n body)
    (ih : body.KeepsBindings reg node U) (sound : Sound reg node U s p γ ρ)
    (apartU : EmittedApart (vocabulary node U))
    (clear : (doLoop body test).isClear node p = true)
    (uses : ∀ u ∈ (doLoop body test).uses node γ, u ∈ U) :
    Code.Resolved reg node U ρ ((doLoop body test).lower reg node s) := by
  rw [isClear, Bool.and_eq_true, Bool.and_eq_true] at clear
  rw [CStmt.uses] at uses
  have names : stepNames node [test] = (node test).references := append_nil _
  have check := sound.resolves (uses _ mem_cons_self) clear.1.1
  rw [lower]
  apply Code.Resolved.loop
  refine resolved_loopBody ih form sound apartU ?_ (quiet_exitCode test) ?_ clear.1.2
    clear.2 fun u hu => uses u (mem_cons_of_mem _ hu)
  · intro x hx
    rw [names] at hx
    exact references_subset_vocabulary (uses _ mem_cons_self) hx
  · intro σ same
    rw [names] at same
    exact resolved_exitCode (check.congr same)

/-- **A `for` loop**: the variables of its header are bound beside the loop, and its step stands in
the body, after what the body binds. -/
theorem resolved_forLoop {m : Node} {init body : CStmt α} {test? : Option α} {step : List α}
    (formInit : HasForm reg node m init) (form : HasForm reg node n body)
    (ihInit : init.KeepsBindings reg node U) (ih : body.KeepsBindings reg node U)
    (sound : Sound reg node U s p γ ρ) (apartU : EmittedApart (vocabulary node U))
    (clear : (forLoop init test? step body).isClear node p = true)
    (uses : ∀ u ∈ (forLoop init test? step body).uses node γ, u ∈ U) :
    Code.Resolved reg node U ρ ((forLoop init test? step body).lower reg node s) := by
  simp only [isClear, Bool.and_eq_true, all_append] at clear
  obtain ⟨⟨⟨clearInit, clearTest, clearStep⟩, clearBody⟩, free⟩ := clear
  rw [CStmt.uses] at uses
  have usesInit : ∀ u ∈ init.uses node γ, u ∈ U :=
    fun u hu => uses u (mem_append_left _ (mem_append_left _ hu))
  have usesHeader : ∀ a ∈ test?.toList ++ step, (a, init.scope node γ) ∈ U := fun a ha =>
    uses _ (mem_append_left _ (mem_append_right _ (mem_map_of_mem ha)))
  -- inside the loop both scopes have the variables of the header
  have inside := sound.after formInit apartU usesInit
  have steps : ∀ a ∈ step, Resolves reg node U
      (RustStmt.scopeAll ρ (init.lower reg node s)) a := fun a ha =>
    inside.resolves (usesHeader a (mem_append_right _ ha)) (all_eq_true.1 clearStep a ha)
  have loop : Code.Resolved reg node U (RustStmt.scopeAll ρ (init.lower reg node s))
      (body.bodyOf (body.lower reg node (s.inLoop (simpleCodes reg node step))) ++
        simpleCodes reg node step) := by
    refine resolved_loopBody ih form inside apartU ?_ (quiet_simpleCodes step) ?_
      clearBody free fun u hu => uses u (mem_append_right _ hu)
    · intro x hx
      obtain ⟨a, ha, hx⟩ := mem_flatMap.1 hx
      exact references_subset_vocabulary (usesHeader a (mem_append_right _ ha)) hx
    · intro σ same
      refine resolved_simpleCodes fun a ha => (steps a ha).congr fun x hx => ?_
      exact same x (mem_flatMap.2 ⟨a, ha, hx⟩)
  rw [lower]
  refine (ihInit formInit sound clearInit usesInit).1.append ?_
  cases test? with
  | none => exact loop.loop
  | some test =>
    have condition := inside.resolves (usesHeader test mem_cons_self)
      (all_eq_true.1 clearTest test mem_cons_self)
    exact loop.whileLoop (condition.sites _)

/-! ## Switches -/

/-- Branches resolve if their tests and their blocks do. -/
theorem resolved_branches {scrutinee : String} {sites : List α} {last : Code α}
    {arms : List (Arm α (RustStmt (Leaf α)))} (hs : ∀ a ∈ sites, Resolves reg node U ρ a)
    (h : ∀ arm ∈ arms, (∀ a ∈ arm.labels, Resolves reg node U ρ a) ∧
      Code.Resolved reg node U ρ arm.body) (hl : Code.Resolved reg node U ρ last) :
    Code.Resolved reg node U ρ (arms.foldr
      (fun arm no => [.branch (armTest reg node scrutinee sites arm.labels) arm.body no])
        last) := by
  induction arms with
  | nil => exact hl
  | cons arm rest ih =>
    have first := h arm mem_cons_self
    refine Code.Resolved.branch (fun a ha => ?_) first.2
      (ih fun b hb => h b (mem_cons_of_mem _ hb))
    rcases mem_append.1 ha with ha | ha
    · exact hs a ha
    · exact first.1 a ha

theorem resolved_chainCode {scrutinee : String} {sites : List α}
    {arms : List (Arm α (RustStmt (Leaf α)))} (hs : ∀ a ∈ sites, Resolves reg node U ρ a)
    (h : ∀ arm ∈ arms, (∀ a ∈ arm.labels, Resolves reg node U ρ a) ∧
      Code.Resolved reg node U ρ arm.body) :
    Code.Resolved reg node U ρ (chainCode reg node scrutinee sites arms) := by
  have tested : ∀ arm ∈ arms.filter fun arm => !arm.isDefault,
      (∀ a ∈ arm.labels, Resolves reg node U ρ a) ∧ Code.Resolved reg node U ρ arm.body :=
    fun arm harm => h arm (mem_filter.1 harm).1
  rw [chainCode]
  cases hd : (arms.filter fun arm => arm.isDefault).getLast? with
  | none =>
    split
    · exact resolved_nil
    · exact resolved_branches hs tested resolved_nil
  | some arm =>
    have last : Code.Resolved reg node U ρ arm.body :=
      (h arm (mem_filter.1 (mem_of_getLast? hd)).1).2
    split
    · exact last.block
    · exact resolved_branches hs tested last

theorem resolved_run {arm : Arm α (CStmt α)}
    (h : Code.Resolved reg node U ρ (lowerAll reg node s arm.body)) :
    Code.Resolved reg node U ρ (lowerAll reg node s arm.run) := by
  have split : arm.body = arm.run ++ arm.body.dropWhile fun c => !c.isBrk :=
    takeWhile_append_dropWhile.symm
  rw [split, lowerAll, flatMap_append] at h
  exact h.of_append

/-- The labels and the statement that open an arm. -/
theorem resolved_labelled {labels : List α} {isDefault braced : Bool} {body : List (CStmt α)}
    (forms : HasForms reg node ns body) (ih : ∀ c ∈ body, c.KeepsBindings reg node U)
    (sound : Sound reg node U s p γ ρ) (apartU : EmittedApart (vocabulary node U))
    (sees : labels.all (sees node p) = true) (clear : allClear node p body = true)
    (uses : ∀ u ∈ (labelled labels isDefault braced body).uses node γ, u ∈ U) :
    (∀ u ∈ usesAll node γ body, u ∈ U) ∧ (∀ a ∈ labels, Resolves reg node U ρ a) ∧
      Code.Resolved reg node U ρ (lowerAll reg node s body) := by
  rw [CStmt.uses] at uses
  have usesBody : ∀ u ∈ usesAll node γ body, u ∈ U :=
    fun u hu => uses u (mem_append_right _ hu)
  refine ⟨usesBody, fun a ha => ?_, resolved_lowerAll forms ih sound apartU clear usesBody⟩
  exact sound.resolves (uses _ (mem_append_left _ (mem_map_of_mem ha)))
    (all_eq_true.1 sees a ha)

/-- An arm and the arms after it, by the labelled item and the items after it. -/
theorem resolved_group_labelled {labels : List α} {isDefault braced : Bool}
    {body items : List (CStmt α)} {σ : Scope (RustStmt (Leaf α))}
    (hl : ∀ a ∈ labels, Resolves reg node U ρ a)
    (hb : Code.Resolved reg node U ρ (lowerAll reg node s body))
    (later : Code.Resolved reg node U (RustStmt.scopeAll ρ (lowerAll reg node s body))
        (lowerAll reg node s (group items).1) ∧
      ∀ arm ∈ (group items).2, (∀ a ∈ arm.labels, Resolves reg node U ρ a) ∧
        Code.Resolved reg node U ρ (lowerAll reg node s arm.body)) :
    Code.Resolved reg node U σ (lowerAll reg node s
        (group (.labelled labels isDefault braced body :: items)).1) ∧
      ∀ arm ∈ (group (.labelled labels isDefault braced body :: items)).2,
        (∀ a ∈ arm.labels, Resolves reg node U ρ a) ∧
          Code.Resolved reg node U ρ (lowerAll reg node s arm.body) := by
  rw [group]
  refine ⟨resolved_nil, fun arm harm => ?_⟩
  rcases mem_cons.1 harm with rfl | harm
  · refine ⟨hl, ?_⟩
    rw [lowerAll, flatMap_append]
    exact hb.append later.1
  · exact later.2 arm harm

/-- **The items of a switch.**  `base` is the place before the arms and `p` the place in the current
one; the names declared so far are those that the program may see beyond the scope of `base`. -/
theorem resolved_items (hasItems : HasItems reg node ns items)
    (ih : ∀ item ∈ items, ∀ c ∈ item.unbraced, c.KeepsBindings reg node U)
    (apartU : EmittedApart (vocabulary node U)) {base : Place} {declared : List String}
    {γ₀ : Scope α} {ρ₀ : Scope (RustStmt (Leaf α))} (start : Sound reg node U s base γ₀ ρ₀)
    (before : ∀ x, x ∉ declared → γ x = γ₀ x) (here : Sound reg node U s p γ ρ)
    (clear : itemsClear node base p declared items = true)
    (uses : ∀ u ∈ usesAll node γ items, u ∈ U) :
    Code.Resolved reg node U ρ (lowerAll reg node s (group items).1) ∧
      ∀ arm ∈ (group items).2, (∀ a ∈ arm.labels, Resolves reg node U ρ₀ a) ∧
        Code.Resolved reg node U ρ₀ (lowerAll reg node s arm.body) := by
  -- the current arm goes on in the scope of the text so far, every later arm starts from `ρ₀`; the
  -- program has one scope for all of them
  induction items generalizing ns p γ ρ declared with
  | nil => exact ⟨resolved_nil, fun arm harm => absurd harm not_mem_nil⟩
  | cons item items rest =>
    have ihRest : ∀ item ∈ items, ∀ c ∈ item.unbraced, c.KeepsBindings reg node U :=
      fun item hi => ih item (mem_cons_of_mem _ hi)
    rw [usesAll] at uses
    have usesItem : ∀ u ∈ item.uses node γ, u ∈ U := fun u hu => uses u (mem_append_left _ hu)
    have usesRest : ∀ u ∈ usesAll node (item.scope node γ) items, u ∈ U :=
      fun u hu => uses u (mem_append_right _ hu)
    cases hasItems with
    | plain kind form hasItems =>
      rw [group_cons_plain fun _ _ _ _ => form.ne_labelled]
      by_cases isBlock : ∃ body, item = .block body
      · obtain ⟨body, rfl⟩ := isBlock
        cases form with
        | block kind forms =>
          rw [itemsClear, Bool.and_eq_true] at clear
          rw [CStmt.uses] at usesItem
          -- the braces are taken away, so what stands in them is bound in the rest of the arm
          have leaked := here.leak fun x hx hn =>
            scope_lowerAll forms start apartU usesItem hx hn ρ
          have later := rest hasItems ihRest before leaked clear.2 usesRest
          refine ⟨?_, later.2⟩
          rw [lowerAll, flatMap_append]
          exact (resolved_lowerAll forms (ih _ mem_cons_self) here apartU clear.1
            usesItem).append later.1
      · have clear : item.isClear node p = true ∧ itemsClear node base (item.after node p)
            (declared ++ item.declares node) items = true := by
          cases item with
          | block body => exact absurd ⟨body, rfl⟩ isBlock
          | labelled => exact absurd rfl form.ne_labelled
          | _ => exact Bool.and_eq_true_iff.1 (by simpa only [itemsClear] using clear)
        have alone : item.unbraced = [item] := by
          cases item with
          | block body => exact absurd ⟨body, rfl⟩ isBlock
          | labelled => exact absurd rfl form.ne_labelled
          | _ => rfl
        have keeps : item.KeepsBindings reg node U :=
          ih item mem_cons_self item (by rw [alone]; exact mem_singleton.2 rfl)
        have before' : ∀ x, x ∉ declared ++ item.declares node → item.scope node γ x = γ₀ x := by
          intro x hx
          have hx := not_or.1 (mt mem_append.2 hx)
          rw [scope_of_not_mem form hx.2, before x hx.1]
        have later := rest hasItems ihRest before' (here.after form apartU usesItem) clear.2
          usesRest
        refine ⟨?_, later.2⟩
        rw [alone, lowerAll, flatMap_append, flatMap_singleton]
        exact (keeps form here clear.1 usesItem).1.append later.1
    | @labelled n last ns labels isDefault c _ kind hasLabels single form hasItems =>
      have opened := start.enterArm before
      have forms : HasForms reg node [last] [c] := .cons form .nil
      simp only [itemsClear, Bool.and_eq_true, Bool.false_eq_true, if_false] at clear
      obtain ⟨⟨sees, clearBody⟩, clearRest⟩ := clear
      obtain ⟨usesBody, labels, resolved⟩ := resolved_labelled forms (ih _ mem_cons_self)
        opened apartU sees clearBody usesItem
      -- a variable declared here is seen by the items after it
      have before' : ∀ x, x ∉ declared ++ declaresAll node [c] →
          scopeAll node γ [c] x = γ₀ x := by
        intro x hx
        have hx := not_or.1 (mt mem_append.2 hx)
        rw [scopeAll_of_not_mem forms hx.2, before x hx.1]
      exact resolved_group_labelled labels resolved
        (rest hasItems ihRest before' (opened.afterAll forms apartU usesBody) clearRest usesRest)
    | @braced n last ns labels isDefault body _ kind hasLabels compound forms hasItems =>
      have opened := start.enterArm before
      simp only [itemsClear, Bool.and_eq_true, if_true] at clear
      obtain ⟨⟨sees, clearBody⟩, clearRest⟩ := clear
      obtain ⟨usesBody, labels, resolved⟩ := resolved_labelled forms (ih _ mem_cons_self)
        opened apartU sees clearBody usesItem
      -- as for a block further on in the arm
      have leaked := opened.leak fun x hx hn =>
        scope_lowerAll forms start apartU usesBody hx hn ρ₀
      exact resolved_group_labelled labels resolved
        (rest hasItems ihRest before leaked clearRest usesRest)

/-- **A switch whose items are clear.** -/
theorem resolved_switch {x : α} (hasItems : HasItems reg node ns items)
    (ih : ∀ item ∈ items, ∀ c ∈ item.unbraced, c.KeepsBindings reg node U)
    (sound : Sound reg node U s p γ ρ) (apartU : EmittedApart (vocabulary node U))
    (clear : (switch x items).isClear node p = true)
    (uses : ∀ u ∈ (switch x items).uses node γ, u ∈ U) :
    Code.Resolved reg node U ρ ((switch x items).lower reg node s) := by
  rw [isClear, Bool.and_eq_true] at clear
  rw [CStmt.uses] at uses
  have value : Resolves reg node U ρ x := sound.resolves (uses _ mem_cons_self) clear.1
  have binding : Code.Resolved reg node U ρ (s.binding reg node x) := by
    rw [Setting.binding]
    split
    · exact resolved_nil
    · exact resolved_leaf rfl (value.sites _)
  -- a value that is repeated is not bound, so that it stands in the scope before the switch
  have sites : ∀ a ∈ scrutineeSites node x,
      Resolves reg node U (RustStmt.scopeAll ρ (s.binding reg node x)) a := by
    intro a ha
    rw [scrutineeSites] at ha
    rw [Setting.binding]
    split at ha
    · rename_i repeatable
      rw [if_pos repeatable, mem_singleton.1 ha]
      exact value
    · exact absurd ha not_mem_nil
  have inside := sound.enterSwitch (s.switchLabel? items) fun y _ hy =>
    sound.scopeAll_binding x hy ρ
  have arms := (resolved_items hasItems ih apartU inside (fun _ _ => rfl) inside clear.2
    fun u hu => uses u (mem_cons_of_mem _ hu)).2
  have chain : Code.Resolved reg node U (RustStmt.scopeAll ρ (s.binding reg node x))
      (chainCode reg node (s.scrutinee reg node x) (scrutineeSites node x) ((CStmt.arms items).map
        (lowerArm reg node (s.inSwitch (s.switchLabel? items))))) := by
    refine resolved_chainCode sites fun arm harm => ?_
    obtain ⟨arm, mem, rfl⟩ := mem_map.1 harm
    exact ⟨(arms arm mem).1, resolved_run (arms arm mem).2⟩
  rw [lower_switch, switchCode]
  unfold encloseCode
  split
  · -- without arms only the binding is left, and it is not in a block
    exact binding
  · split
    · exact (binding.append chain).block
    · split
      · -- without a binding the chain stands in the scope before the switch
        rename_i none
        rw [isEmpty_iff.1 none] at chain
        exact chain
      · exact (binding.append chain).block

/-! ## All statements -/

theorem resolved_returnCode {result : CType} {a : α} (h : Resolves reg node U ρ a) :
    Code.Resolved reg node U ρ (returnCode reg node result a) := by
  rw [returnCode]
  split
  · have first : Code.Resolved reg node U ρ
        [.simple (.ofText ((node a).expressionText reg ++ ";") a)] :=
      resolved_leaf rfl (h.sites _)
    exact first.append (resolved_of_uses_eq_nil rfl)
  · exact resolved_leaf rfl (h.sites _)

/-- **Every statement keeps its bindings where it is clear.** -/
theorem keepsBindings (apartU : EmittedApart (vocabulary node U)) (c : CStmt α) :
    c.KeepsBindings reg node U := by
  intro n s p γ ρ form sound clear uses
  -- for a switch the hypothesis is about the statements of its arms, one level of braces taken away
  induction c using inductItems generalizing n s p γ ρ with
  | null =>
    rw [lower]
    exact ⟨resolved_nil, resolved_nil⟩
  | simple operands =>
    rw [isClear] at clear
    rw [CStmt.uses] at uses
    rw [lower]
    refine and_bodyOf (resolved_simpleCodes fun a ha => ?_) (by simp)
    exact sound.resolves (uses _ (mem_map_of_mem ha)) (all_eq_true.1 clear a ha)
  | decl vs =>
    cases form with
    | decl kind eq each =>
      rw [isClear] at clear
      rw [CStmt.uses] at uses
      rw [lower]
      exact and_bodyOf (sound.resolved_declare apartU each clear uses) (by simp)
  | block body ih =>
    cases form with
    | block kind forms =>
      rw [isClear] at clear
      rw [CStmt.uses] at uses
      -- the two parts of the statement differ only here
      have inside := resolved_lowerAll forms ih sound apartU clear uses
      rw [lower_block]
      exact ⟨inside.block, inside⟩
  | ifThen test yes ih =>
    cases form with
    | ifThen kind children condition form =>
      rw [isClear, Bool.and_eq_true] at clear
      rw [CStmt.uses] at uses
      have test := sound.resolves (uses _ mem_cons_self) clear.1
      have yes := ih form sound clear.2 fun u hu => uses u (mem_cons_of_mem _ hu)
      rw [lower]
      exact and_bodyOf (Code.Resolved.branch (test.sites _) yes.2 resolved_nil) (by simp)
  | ifElse test yes no ihy ihn =>
    cases form with
    | ifElse kind children condition formYes formNo =>
      rw [isClear, Bool.and_eq_true, Bool.and_eq_true] at clear
      rw [CStmt.uses] at uses
      have test := sound.resolves (uses _ mem_cons_self) clear.1.1
      have yes := ihy formYes sound clear.1.2 fun u hu =>
        uses u (mem_cons_of_mem _ (mem_append_left _ hu))
      have no := ihn formNo sound clear.2 fun u hu =>
        uses u (mem_cons_of_mem _ (mem_append_right _ hu))
      rw [lower]
      exact and_bodyOf (Code.Resolved.branch (test.sites _) yes.2 no.2) (by simp)
  | whileLoop test body ih =>
    cases form with
    | whileLoop kind children condition form =>
      rw [isClear, Bool.and_eq_true] at clear
      rw [CStmt.uses] at uses
      have test := sound.resolves (uses _ mem_cons_self) clear.1
      have inside := sound.enterLoop (fun x hx => absurd hx not_mem_nil) quiet_nil
        fun _ _ => resolved_nil
      have body := ih form inside clear.2 fun u hu => uses u (mem_cons_of_mem _ hu)
      rw [lower]
      exact and_bodyOf (body.2.whileLoop (test.sites _)) (by simp)
  | doLoop body test ih =>
    cases form with
    | doLoop kind children condition form =>
      exact and_bodyOf (resolved_doLoop form ih sound apartU clear uses) (by simp)
  | forLoop init test? step body ihi ihb =>
    cases form with
    | forLoop kind header children hasInit condition hasStep form =>
      obtain ⟨m, formInit⟩ := hasInit.exists_form
      exact and_bodyOf
        (resolved_forLoop formInit form ihi ihb sound apartU clear uses) (by simp)
  | ret value? =>
    rw [isClear] at clear
    rw [CStmt.uses] at uses
    cases value? with
    | none =>
      rw [lower]
      exact and_bodyOf (resolved_of_uses_eq_nil rfl) (by simp)
    | some value =>
      rw [lower]
      refine and_bodyOf (resolved_returnCode ?_) (by simp)
      exact sound.resolves (uses _ mem_cons_self)
        (all_eq_true.1 clear value mem_cons_self)
  | brk =>
    rw [lower]
    exact and_bodyOf (resolved_of_uses_eq_nil rfl) (by simp)
  | cont =>
    rw [isClear] at clear
    rw [lower]
    exact and_bodyOf ((sound.resolved_step clear).append (resolved_of_uses_eq_nil rfl))
      (by simp)
  | switch x items ih =>
    cases form with
    | switch kind children isUsed compound hasItems =>
      exact and_bodyOf (resolved_switch hasItems ih sound apartU clear uses) (by simp)
  | labelled labels isDefault braced body ih =>
    exact absurd rfl form.ne_labelled

end Ferric
