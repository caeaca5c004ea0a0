import Ferric.Conversion.Globals
import Ferric.Proofs.VariableScope

/-!
# Announcements in function bodies

The `let`s of the emitted code, at any depth, are those of the declarations that are written.  A
declaration is not written after the `break` of an arm, in a `default` that is not the last one, and
before the first label of a switch.  A name is bound in the code by one of its bindings, so one that
none of them has is not bound anywhere.

At file scope an announcement, which is `extern` and has no initializer, is not written.  In a
function body it is written like any other declaration, as a `let`, and captures the references that
the program resolves through it to the variable at file scope.  Where no written declaration has the
name, every reference denotes the variable at file scope.

## Main definitions

* `RustStmt.bindings`: the bindings in a statement, at any depth.
* `CStmt.Writes`: whether the declaration of a variable is written.
* `Code.Binds`: what the bindings of some code are.

## Main results

* `RustStmt.boundBy_of_mem_usesAll`: names are bound by the bindings in the code.
* `CStmt.binds_lower`: the bindings of a lowered statement are those of its written declarations.
* `announcements_bind_where_written`: which announcements get a `let`, and what references denote.
* `local_announcement_captures`: a reference that is captured.
-/

namespace Ferric

section

open CStmt RustStmt List

/-! ## Bindings of the emitted code -/

namespace RustStmt

variable {β : Type}

mutual

/-- **The bindings in a statement**, at any depth. -/
def bindings : RustStmt β → List (RustStmt β)
  | .declare name rest => [.declare name rest]
  | .capture name value => [.capture name value]
  | .block _ body => bindingsAll body
  | .branch _ yes no => bindingsAll yes ++ bindingsAll no
  | .whileLoop _ body => bindingsAll body
  | .loop body => bindingsAll body
  | .simple _ | .brk _ | .cont | .ret _ => []

/-- The bindings in some statements. -/
def bindingsAll : List (RustStmt β) → List (RustStmt β)
  | [] => []
  | s :: rest => s.bindings ++ bindingsAll rest

end

theorem bindingsAll_eq_flatMap (code : List (RustStmt β)) :
    bindingsAll code = code.flatMap bindings := by
  induction code with
  | nil => rfl
  | cons s code ih => rw [bindingsAll, ih, flatMap_cons]

@[simp] theorem bindingsAll_append (a b : List (RustStmt β)) :
    bindingsAll (a ++ b) = bindingsAll a ++ bindingsAll b := by
  simp only [bindingsAll_eq_flatMap, flatMap_append]

@[simp] theorem bindingsAll_singleton (s : RustStmt β) : bindingsAll [s] = s.bindings := by
  rw [bindingsAll, bindingsAll, append_nil]

/-- The name that a binding binds. -/
def boundName? : RustStmt β → Option String
  | .declare name _ | .capture name _ => some name
  | _ => none

/-- A name is bound to a statement by a scope or by one of some bindings. -/
def BoundBy (σ : Scope (RustStmt β)) (bs : List (RustStmt β)) (name : String) (b : RustStmt β) :
    Prop :=
  σ name = some b ∨ b ∈ bs ∧ b.boundName? = some name

variable {σ : Scope (RustStmt β)} {name : String} {b : RustStmt β}

/-- More bindings bind more. -/
theorem BoundBy.mono {bs cs : List (RustStmt β)} (h : BoundBy σ bs name b)
    (sub : ∀ b ∈ bs, b ∈ cs) : BoundBy σ cs name b :=
  h.imp_right fun both => ⟨sub b both.1, both.2⟩

theorem boundBy_of_scope {s : RustStmt β} (h : s.scope σ name = some b) :
    BoundBy σ s.bindings name b := by
  have set : ∀ {new : RustStmt β} {own : String}, σ.set own new name = some b →
      new.bindings = [new] → new.boundName? = some own → BoundBy σ new.bindings name b := by
    intro new own h single named
    by_cases same : name = own
    · rw [same, Scope.set_self] at h
      obtain rfl := Option.some.inj h
      exact .inr ⟨by simp [single], by rw [named, same]⟩
    · rw [Scope.set_of_ne same] at h
      exact .inl h
  cases s with
  | declare own rest => exact set h rfl rfl
  | capture own value => exact set h rfl rfl
  | _ => exact .inl h

/-- **Induction on statements**, with a hypothesis for each statement of a block. -/
theorem induct {P : RustStmt β → Prop}
    (simple : ∀ text, P (.simple text))
    (declare : ∀ name rest, P (.declare name rest))
    (capture : ∀ name value, P (.capture name value))
    (brk : ∀ label?, P (.brk label?))
    (cont : P .cont)
    (ret : ∀ value?, P (.ret value?))
    (block : ∀ label? body, (∀ s ∈ body, P s) → P (.block label? body))
    (branch : ∀ test yes no, (∀ s ∈ yes, P s) → (∀ s ∈ no, P s) → P (.branch test yes no))
    (whileLoop : ∀ test body, (∀ s ∈ body, P s) → P (.whileLoop test body))
    (loop : ∀ body, (∀ s ∈ body, P s) → P (.loop body))
    (s : RustStmt β) : P s :=
  @RustStmt.rec β P (fun code => ∀ s ∈ code, P s) simple declare capture brk cont ret block branch
    whileLoop loop (by simp) (fun s code first rest => by simpa using ⟨first, rest⟩) s

/-- A statement in which names are bound by what is outside of it and by its own bindings. -/
def BindsItself (s : RustStmt β) : Prop :=
  ∀ (σ : Scope (RustStmt β)), ∀ u ∈ s.uses σ, ∀ name b, u.2 name = some b →
    BoundBy σ s.bindings name b

theorem boundBy_of_mem_usesAll_of {code : List (RustStmt β)} (h : ∀ s ∈ code, s.BindsItself)
    {u : β × Scope (RustStmt β)} (hu : u ∈ usesAll σ code) (hb : u.2 name = some b) :
    BoundBy σ (bindingsAll code) name b := by
  induction code generalizing σ with
  | nil => exact absurd hu not_mem_nil
  | cons s code ih =>
    rw [usesAll] at hu
    rw [bindingsAll]
    rcases mem_append.1 hu with hu | hu
    · exact (h s mem_cons_self σ u hu name b hb).mono fun _ => mem_append_left _
    · -- what follows a statement stands in the scope after it
      rcases ih (fun t ht => h t (mem_cons_of_mem _ ht)) hu with before | inside
      · exact (boundBy_of_scope before).mono fun _ => mem_append_left _
      · exact .inr ⟨mem_append_right _ inside.1, inside.2⟩

/-- A statement whose leaves all stand in the scope around it. -/
theorem bindsItself_of_outside {s : RustStmt β} (outside : ∀ σ, ∀ u ∈ s.uses σ, u.2 = σ) :
    s.BindsItself := by
  intro σ u hu name b hb
  rw [outside σ u hu] at hb
  exact .inl hb

theorem bindsItself (s : RustStmt β) : s.BindsItself := by
  -- a jump or a leaf stands in the scope around it, and only blocks have bindings inside
  induction s using induct with
  | simple text => exact bindsItself_of_outside fun σ u hu => by rw [mem_singleton.1 hu]
  | declare own rest => exact bindsItself_of_outside fun σ u hu => by rw [mem_singleton.1 hu]
  | capture own value => exact bindsItself_of_outside fun σ u hu => by rw [mem_singleton.1 hu]
  | brk label? => exact bindsItself_of_outside fun σ u hu => absurd hu not_mem_nil
  | cont => exact bindsItself_of_outside fun σ u hu => absurd hu not_mem_nil
  | ret value? =>
    refine bindsItself_of_outside fun σ u hu => ?_
    obtain ⟨value, -, rfl⟩ := mem_map.1 hu
    rfl
  | block label? body ih => exact fun σ u hu name b hb => boundBy_of_mem_usesAll_of ih hu hb
  | branch test yes no ihy ihn =>
    intro σ u hu name b hb
    rcases mem_cons.1 hu with rfl | hu
    · exact .inl hb
    · rcases mem_append.1 hu with hu | hu
      · exact (boundBy_of_mem_usesAll_of ihy hu hb).mono fun _ => mem_append_left _
      · exact (boundBy_of_mem_usesAll_of ihn hu hb).mono fun _ => mem_append_right _
  | whileLoop test body ih =>
    intro σ u hu name b hb
    rcases mem_cons.1 hu with rfl | hu
    · exact .inl hb
    · exact boundBy_of_mem_usesAll_of ih hu hb
  | loop body ih => exact fun σ u hu name b hb => boundBy_of_mem_usesAll_of ih hu hb

/-- **Names are bound by the bindings in the code.** -/
theorem boundBy_of_mem_usesAll {code : List (RustStmt β)} {u : β × Scope (RustStmt β)}
    (hu : u ∈ usesAll σ code) (hb : u.2 name = some b) : BoundBy σ (bindingsAll code) name b :=
  boundBy_of_mem_usesAll_of (fun s _ => s.bindsItself) hu hb

end RustStmt

/-! ## Declarations that are written -/

/-- The arms that are written: those with a test and the last default. -/
def Arm.written {α γ : Type} (arms : List (Arm α γ)) : List (Arm α γ) :=
  (arms.filter fun arm => !arm.isDefault) ++
    (arms.filter fun arm => arm.isDefault).getLast?.toList

theorem Arm.written_map {α γ δ : Type} {f : Arm α γ → Arm α δ}
    (same : ∀ arm, (f arm).isDefault = arm.isDefault) (arms : List (Arm α γ)) :
    Arm.written (arms.map f) = (Arm.written arms).map f := by
  have tested : ((fun arm => !arm.isDefault) ∘ f) = fun arm => !arm.isDefault :=
    funext fun arm => by rw [Function.comp_apply, same]
  have default : ((fun arm => arm.isDefault) ∘ f) = fun arm => arm.isDefault :=
    funext fun arm => by rw [Function.comp_apply, same]
  rw [written, written, filter_map, filter_map, tested, default, getLast?_map,
    map_append, Option.toList_map]

/-- **The declaration of a variable is written.**  Of a switch, only the statements of the written
arms up to their first `break` are. -/
inductive CStmt.Writes {α : Type} (v : α) : CStmt α → Prop
  | decl {vars : List α} (declares : v ∈ vars) : Writes v (.decl vars)
  | block {body : List (CStmt α)} {c : CStmt α} (mem : c ∈ body) (inside : Writes v c) :
    Writes v (.block body)
  | ifThen {test : α} {yes : CStmt α} (inside : Writes v yes) : Writes v (.ifThen test yes)
  | yes {test : α} {yes no : CStmt α} (inside : Writes v yes) : Writes v (.ifElse test yes no)
  | no {test : α} {yes no : CStmt α} (inside : Writes v no) : Writes v (.ifElse test yes no)
  | whileLoop {test : α} {body : CStmt α} (inside : Writes v body) :
    Writes v (.whileLoop test body)
  | doLoop {body : CStmt α} {test : α} (inside : Writes v body) : Writes v (.doLoop body test)
  | init {init body : CStmt α} {test? : Option α} {step : List α} (inside : Writes v init) :
    Writes v (.forLoop init test? step body)
  | forBody {init body : CStmt α} {test? : Option α} {step : List α} (inside : Writes v body) :
    Writes v (.forLoop init test? step body)
  | switch {x : α} {items : List (CStmt α)} {arm : Arm α (CStmt α)} {c : CStmt α}
    (written : arm ∈ Arm.written (CStmt.arms items)) (mem : c ∈ arm.run) (inside : Writes v c) :
    Writes v (.switch x items)
  | labelled {labels : List α} {isDefault braced : Bool} {body : List (CStmt α)} {c : CStmt α}
    (mem : c ∈ body) (inside : Writes v c) : Writes v (.labelled labels isDefault braced body)

namespace CStmt

variable {α : Type} {v : α}

theorem writes_decl {vars : List α} : (decl vars).Writes v ↔ v ∈ vars := by
  refine ⟨fun h => ?_, .decl⟩
  cases h with
  | decl declares => exact declares

theorem writes_block {body : List (CStmt α)} :
    (block body).Writes v ↔ ∃ c ∈ body, c.Writes v := by
  constructor
  · intro h
    cases h with
    | block mem inside => exact ⟨_, mem, inside⟩
  · rintro ⟨c, mem, inside⟩
    exact .block mem inside

variable {test : α} {body : CStmt α}

theorem writes_ifThen {yes : CStmt α} : (ifThen test yes).Writes v ↔ yes.Writes v := by
  refine ⟨fun h => ?_, .ifThen⟩
  cases h with
  | ifThen inside => exact inside

theorem writes_ifElse {yes no : CStmt α} :
    (ifElse test yes no).Writes v ↔ yes.Writes v ∨ no.Writes v := by
  constructor
  · intro h
    cases h with
    | yes inside => exact .inl inside
    | no inside => exact .inr inside
  · rintro (inside | inside)
    · exact .yes inside
    · exact .no inside

theorem writes_whileLoop : (whileLoop test body).Writes v ↔ body.Writes v := by
  refine ⟨fun h => ?_, .whileLoop⟩
  cases h with
  | whileLoop inside => exact inside

theorem writes_doLoop : (doLoop body test).Writes v ↔ body.Writes v := by
  refine ⟨fun h => ?_, .doLoop⟩
  cases h with
  | doLoop inside => exact inside

theorem writes_forLoop {init : CStmt α} {test? : Option α} {step : List α} :
    (forLoop init test? step body).Writes v ↔ init.Writes v ∨ body.Writes v := by
  constructor
  · intro h
    cases h with
    | init inside => exact .inl inside
    | forBody inside => exact .inr inside
  · rintro (inside | inside)
    · exact .init inside
    · exact .forBody inside

theorem writes_switch {x : α} {items : List (CStmt α)} :
    (switch x items).Writes v ↔
      ∃ arm ∈ Arm.written (arms items), ∃ c ∈ arm.run, c.Writes v := by
  constructor
  · intro h
    cases h with
    | switch written mem inside => exact ⟨_, written, _, mem, inside⟩
  · rintro ⟨arm, written, c, mem, inside⟩
    exact .switch written mem inside

theorem writes_labelled {labels : List α} {isDefault braced : Bool} {body : List (CStmt α)} :
    (labelled labels isDefault braced body).Writes v ↔ ∃ c ∈ body, c.Writes v := by
  constructor
  · intro h
    cases h with
    | labelled mem inside => exact ⟨_, mem, inside⟩
  · rintro ⟨c, mem, inside⟩
    exact .labelled mem inside

end CStmt

theorem Arm.mem_of_mem_written {α γ : Type} {arms : List (Arm α γ)} {arm : Arm α γ}
    (h : arm ∈ Arm.written arms) : arm ∈ arms := by
  rcases mem_append.1 h with h | h
  · exact (mem_filter.1 h).1
  · exact (mem_filter.1 (mem_of_getLast? (Option.mem_toList.1 h))).1

section Lowered

variable {α : Type} {reg : Registry} {node : α → Node}

variable (reg node) in
/-- **What the bindings of some code are**: the `let`s of certain variables, and values of
switches. -/
structure Code.Binds (W : α → Prop) (code : Code α) : Prop where
  lets : ∀ v, W v → declareCode reg node v ∈ RustStmt.bindingsAll code
  only : ∀ b ∈ RustStmt.bindingsAll code, (∃ v, W v ∧ b = declareCode reg node v) ∨
    ∃ (s : Setting α) (value : Leaf α), b = .capture s.valueName value

namespace Code.Binds

variable {V W : α → Prop} {a b : Code α}

theorem congr (h : Binds reg node V a) (same : ∀ v, W v ↔ V v)
    (bindings : bindingsAll b = bindingsAll a) : Binds reg node W b where
  lets v hv := by
    rw [bindings]
    exact h.lets v ((same v).1 hv)
  only c hc := by
    rw [bindings] at hc
    refine (h.only c hc).imp_left ?_
    rintro ⟨v, hv, rfl⟩
    exact ⟨v, (same v).2 hv, rfl⟩

/-- Code without bindings. -/
theorem none (h : bindingsAll a = []) (none : ∀ v, ¬ W v) : Binds reg node W a where
  lets v hv := absurd hv (none v)
  only c hc := by
    rw [h] at hc
    exact absurd hc not_mem_nil

theorem append (ha : Binds reg node V a) (hb : Binds reg node W b) :
    Binds reg node (fun v => V v ∨ W v) (a ++ b) where
  lets v hv := by
    rw [bindingsAll_append, mem_append]
    exact hv.imp (ha.lets v) (hb.lets v)
  only c hc := by
    rw [bindingsAll_append, mem_append] at hc
    rcases hc with hc | hc
    · refine (ha.only c hc).imp_left ?_
      rintro ⟨v, hv, rfl⟩
      exact ⟨v, .inl hv, rfl⟩
    · refine (hb.only c hc).imp_left ?_
      rintro ⟨v, hv, rfl⟩
      exact ⟨v, .inr hv, rfl⟩

theorem flatMap {γ : Type} {l : List γ} {P : γ → α → Prop} {f : γ → Code α}
    (h : ∀ c ∈ l, Binds reg node (P c) (f c)) :
    Binds reg node (fun v => ∃ c ∈ l, P c v) (l.flatMap f) := by
  induction l with
  | nil => exact none rfl (by simp)
  | cons c l ih =>
    have rest := ih fun d hd => h d (mem_cons_of_mem _ hd)
    refine ((h c mem_cons_self).append rest).congr (fun v => ?_) rfl
    simp

theorem declare (vs : List α) :
    Binds reg node (· ∈ vs) (vs.map (declareCode reg node)) := by
  have each : ∀ v ∈ vs, Binds reg node (v = ·) [declareCode reg node v] := fun v _ =>
    ⟨fun w same => by rw [← same]; exact mem_singleton.2 rfl,
      fun b hb => .inl ⟨v, rfl, mem_singleton.1 hb⟩⟩
  refine (flatMap each).congr (fun v => by simp) ?_
  rw [map_eq_flatMap]

end Code.Binds

/-! ## Lowered statements -/

theorem bindingsAll_simpleCodes (as : List α) :
    bindingsAll (simpleCodes reg node as) = [] := by
  rw [bindingsAll_eq_flatMap, flatMap_eq_nil_iff]
  intro s hs
  obtain ⟨a, -, hs⟩ := mem_flatMap.1 hs
  obtain ⟨text, -, rfl⟩ := mem_map.1 hs
  rfl

theorem bindingsAll_bodyOf (c : CStmt α) (code : Code α) :
    bindingsAll (c.bodyOf code) = bindingsAll code := by
  unfold bodyOf
  split
  · rw [bindingsAll_singleton, bindings]
  · rfl

theorem bindingsAll_chainCode (scrutinee : String) (sites : List α)
    (arms : List (Arm α (RustStmt (Leaf α)))) :
    bindingsAll (chainCode reg node scrutinee sites arms) =
      bindingsAll ((Arm.written arms).flatMap Arm.body) := by
  have branches : ∀ (tested : List (Arm α (RustStmt (Leaf α)))) (no : Code α),
      bindingsAll (tested.foldr (fun arm no =>
        [.branch (armTest reg node scrutinee sites arm.labels) arm.body no]) no) =
        bindingsAll (tested.flatMap Arm.body ++ no) := by
    intro tested no
    induction tested with
    | nil => rfl
    | cons arm tested ih =>
      rw [foldr_cons, bindingsAll_singleton, bindings, ih,
        ← bindingsAll_append, flatMap_cons, append_assoc]
  rw [chainCode, Arm.written, flatMap_append]
  split
  · -- without a test there is only the block of the default
    rename_i none
    rw [isEmpty_iff.1 none]
    cases (arms.filter fun arm => arm.isDefault).getLast? with
    | none => rfl
    | some last => simp [bindings]
  · rw [branches]
    cases (arms.filter fun arm => arm.isDefault).getLast? <;> simp

theorem bindingsAll_encloseCode (label? : Option String) (binding chain : Code α) :
    bindingsAll (encloseCode label? binding chain) =
      bindingsAll (binding ++ chain) := by
  unfold encloseCode
  split
  · rename_i empty
    rw [isEmpty_iff.1 empty, append_nil]
  · split
    · rw [bindingsAll_singleton, bindings]
    · split
      · rename_i unbound
        rw [isEmpty_iff.1 unbound, nil_append]
      · rw [bindingsAll_singleton, bindings]

theorem Setting.binds_binding (s : Setting α) (x : α) :
    Code.Binds reg node (fun _ => False) (s.binding reg node x) := by
  rw [Setting.binding]
  split
  · exact .none rfl fun _ => id
  · exact ⟨fun _ => False.elim, fun b hb => .inr ⟨s, _, mem_singleton.1 hb⟩⟩

/-- **The bindings of a lowered statement are those of its written declarations**, where nothing is
bound by what runs before a `continue`. -/
theorem CStmt.binds_lower (c : CStmt α) : ∀ s : Setting α, bindingsAll s.step = [] →
    Code.Binds reg node (fun v => c.Writes v) (c.lower reg node s) := by
  induction c using inductArms with
  | null => exact fun s _ => .none rfl (by rintro v ⟨⟩)
  | simple operands => exact fun s _ => .none (bindingsAll_simpleCodes operands) (by rintro v ⟨⟩)
  | decl vars => exact fun s _ => (Code.Binds.declare vars).congr (fun v => writes_decl) rfl
  | block body ih =>
    intro s quiet
    refine (Code.Binds.flatMap fun c hc => ih c hc s quiet).congr (fun v => writes_block) ?_
    rw [lower_block, bindingsAll_singleton, bindings, lowerAll]
  | ifThen test yes ih =>
    intro s quiet
    refine (ih s quiet).congr (fun v => writes_ifThen) ?_
    rw [lower, bindingsAll_singleton, bindings, bindingsAll_bodyOf, bindingsAll, append_nil]
  | ifElse test yes no ihy ihn =>
    intro s quiet
    refine ((ihy s quiet).append (ihn s quiet)).congr (fun v => writes_ifElse) ?_
    rw [lower, bindingsAll_singleton, bindings, bindingsAll_bodyOf,
      bindingsAll_bodyOf, bindingsAll_append]
  | whileLoop test body ih =>
    intro s _
    refine (ih (s.inLoop []) rfl).congr (fun v => writes_whileLoop) ?_
    rw [lower, bindingsAll_singleton, bindings, bindingsAll_bodyOf]
  | doLoop body test ih =>
    -- the check that is copied before each `continue` binds nothing
    intro s _
    refine (ih (s.inLoop [exitCode reg node test]) rfl).congr (fun v => writes_doLoop) ?_
    rw [lower, bindingsAll_singleton, bindings, bindingsAll_append, bindingsAll_bodyOf]
    exact append_nil _
  | forLoop init test? step body ihi ihb =>
    intro s quiet
    have silent : bindingsAll (simpleCodes reg node step) = [] := bindingsAll_simpleCodes step
    have loop : ∀ code : Code α,
        bindingsAll [loopCode reg node test? code] = bindingsAll code := by
      intro code
      cases test? <;> rw [bindingsAll_singleton] <;> rfl
    have inside := ihb (s.inLoop (simpleCodes reg node step)) silent
    refine ((ihi s quiet).append inside).congr (fun v => writes_forLoop) ?_
    rw [lower, bindingsAll_append, bindingsAll_append, loop,
      bindingsAll_append, bindingsAll_bodyOf, silent, append_nil]
  | ret value? =>
    intro s _
    refine .none ?_ (by rintro v ⟨⟩)
    cases value? with
    | none => rfl
    | some value =>
      rw [lower, returnCode]
      split <;> rfl
  | brk => exact fun s _ => .none rfl (by rintro v ⟨⟩)
  | cont =>
    intro s quiet
    refine .none ?_ (by rintro v ⟨⟩)
    rw [lower, bindingsAll_append, quiet]
    rfl
  | switch x items ih =>
    intro s quiet
    -- the arms that are written are lowered up to their first `break`
    have bodies := Code.Binds.flatMap (l := Arm.written (arms items)) fun arm harm =>
      Code.Binds.flatMap (l := arm.run) fun c hc =>
        ih arm (Arm.mem_of_mem_written harm) c (takeWhile_subset _ hc)
          (s.inSwitch (s.switchLabel? items)) quiet
    refine ((s.binds_binding x).append bodies).congr (fun v => ?_) ?_
    · rw [false_or, writes_switch]
    · rw [lower_switch, switchCode, bindingsAll_encloseCode, bindingsAll_append,
        bindingsAll_append, bindingsAll_chainCode,
        Arm.written_map (f := lowerArm reg node _) fun _ => rfl, flatMap_map]
      rfl
  | labelled labels isDefault braced body ih =>
    intro s quiet
    refine (Code.Binds.flatMap fun c hc => ih c hc s quiet).congr (fun v => writes_labelled) ?_
    rw [lower, flatMap_lowerEach, lowerAll]

/-- The bindings of a function body are those of its written declarations. -/
theorem CStmt.binds_lowerAll (cs : List (CStmt α)) (result : CType) :
    Code.Binds reg node (fun v => ∃ c ∈ cs, c.Writes v) (lowerAll reg node { result } cs) :=
  .flatMap fun c _ => c.binds_lower { result } rfl

/-- A name that none of the variables has and no switch gives to its value is not bound. -/
theorem Code.Binds.unbound {W : α → Prop} {code : Code α} (h : Binds reg node W code)
    {name : String} (declared : ∀ v, W v → sanitize (node v).spelling ≠ name)
    (values : ∀ s : Setting α, s.valueName ≠ name) {u : Leaf α × Scope (RustStmt (Leaf α))}
    (hu : u ∈ usesAll .empty code) : u.2 name = Option.none := by
  by_contra bound
  -- whatever binds the name is one of the bindings, and they all have other names
  obtain ⟨b, hb⟩ := Option.ne_none_iff_exists'.1 bound
  rcases boundBy_of_mem_usesAll hu hb with outside | ⟨mem, named⟩
  · exact absurd outside (Option.some_ne_none b).symm
  · rcases h.only b mem with ⟨v, hv, rfl⟩ | ⟨s, value, rfl⟩
    · exact declared v hv (Option.some.inj named)
    · exact values s (Option.some.inj named)

end Lowered

end

section

variable {α : Type} {reg : Registry} {node : α → Node}

/-- A `let` among the bindings is that of one of the variables. -/
theorem Code.Binds.declareCode_mem_iff {W : α → Prop} {code : Code α} (h : Binds reg node W code)
    (v : α) : declareCode reg node v ∈ RustStmt.bindingsAll code ↔ W v := by
  refine ⟨fun mem => ?_, h.lets v⟩
  rcases h.only _ mem with ⟨w, hw, same⟩ | ⟨s, value, same⟩
  · rwa [declareCode_injective same]
  · rw [declareCode] at same
    cases same

/-- **Announcements in a function body get a `let` where they are written.**  The text of a body is
read back as its lowered statements.  A variable has a `let` in them just when its declaration is
written, announcement or not.  A name that no written declaration has, and no switch gives to its
value, is not bound anywhere: each reference denotes the variable at file scope.  And if the check
finds no captured name, each reference that the program resolves through an announcement is bound to
the `let` of that announcement. -/
theorem announcements_bind_where_written {body : Node} {cs : List (CStmt α)}
    (forms : HasForms reg node body.children cs) (entry : FunctionEntry) :
    let code := CStmt.lowerAll reg node { result := entry.signature.result } cs
    RustStmt.read? (Text.stacked (Function.statements reg entry body).value) = some code.texts ∧
      (∀ v, declareCode reg node v ∈ RustStmt.bindingsAll code ↔ ∃ c ∈ cs, c.Writes v) ∧
      (∀ x, (∀ v, (∃ c ∈ cs, c.Writes v) → sanitize (node v).spelling ≠ sanitize x) →
        (∀ s : Setting α, s.valueName ≠ sanitize x) →
        ∀ u ∈ RustStmt.usesAll .empty code, u.2 (sanitize x) = none) ∧
      (EmittedApart (vocabulary node (CStmt.usesAll node .empty cs)) →
        CStmt.allClear node {} cs = true →
        ∀ u ∈ RustStmt.usesAll .empty code, ∀ a ∈ u.1.sites,
          ∃ γ, (a, γ) ∈ CStmt.usesAll node .empty cs ∧ ∀ x ∈ (node a).references, ∀ v,
            γ x = some v → Global.isAnnouncement (node v) = true →
            u.2 (sanitize x) = some (declareCode reg node v)) := by
  intro code
  have binds : Code.Binds reg node (fun v => ∃ c ∈ cs, c.Writes v) code :=
    CStmt.binds_lowerAll cs entry.signature.result
  refine ⟨read?_statements forms entry, binds.declareCode_mem_iff,
    fun x declared values u hu => binds.unbound declared values hu,
    fun apartNames clear u hu a ha => ?_⟩
  have resolved : code.Resolved reg node (CStmt.usesAll node .empty cs) .empty :=
    resolved_lowerAll forms (fun c _ => keepsBindings apartNames c)
      (Sound.start entry.signature.result) apartNames clear fun _ hu => hu
  obtain ⟨γ, mem, alike⟩ := resolved u hu a ha
  refine ⟨γ, mem, fun x hx v bound _ => ?_⟩
  rw [alike x hx, bound]
  rfl

end

/-- An announcement of a variable that holds a number. -/
def Node.announcedInt (name : String) : Node :=
  { kind := .varDecl false true, spelling := name, type := .int true }

theorem hasForm_announcedInt {leaf : Nat → Node} {k : Nat} {name : String} (h : name ∈ shortNames)
    (hk : leaf k = .announcedInt name) :
    HasForm {} leaf { kind := .declStmt, children := [.announcedInt name] } (.decl [k]) := by
  have words : ∀ name ∈ shortNames,
      sanitize name ≠ "" ∧ ∀ c ∈ (sanitize name).toList, Chars.isWordChar c = true := by decide
  refine .decl rfl (by rw [List.map_singleton, hk]) fun v hv => ?_
  obtain rfl := List.mem_singleton.1 hv
  refine ⟨⟨false, true, by rw [hk]; rfl⟩, by rw [hk]; exact words name h, ?_, ?_, by rw [hk]; rfl⟩
  · rw [hk]
    exact fun name hn => absurd hn List.not_mem_nil
  · intro init hi
    rw [hk] at hi
    exact absurd hi (by simp [Node.initializer?, Node.announcedInt])

/-! ## An announcement that is not written -/

/-- The value of a switch, a label with a reference, an announcement and a label with a reference to
what it announces. -/
def passedLeaf (k : Nat) : Node :=
  [.ref "y", .constant "1", .ref "y", .announcedInt "g", .constant "2", .ref "g"].getD k
    { kind := .nullStmt }

/-- A body with these leaves: `switch (y) { case 1: y; break; extern int g; case 2: g; }` -/
def passedBody : Node :=
  { kind := .compoundStmt, children :=
    [{ kind := .switchStmt, children := [.ref "y", { kind := .compoundStmt, children :=
      [{ kind := .caseStmt, children := [.constant "1", .ref "y"] },
        { kind := .breakStmt },
        { kind := .declStmt, children := [.announcedInt "g"] },
        { kind := .caseStmt, children := [.constant "2", .ref "g"] }] }] }] }

/-- The statements of the body. -/
def passedStmts : List (CStmt Nat) :=
  [.switch 0 [.labelled [1] false false [.simple [2]], .brk, .decl [3],
    .labelled [4] false false [.simple [5]]]]

theorem hasForms_passedStmts : HasForms {} passedLeaf passedBody.children passedStmts := by
  have isG : "g" ∈ shortNames := by decide
  have isY : "y" ∈ shortNames := by decide
  refine .cons ?_ .nil
  refine .switch rfl rfl ⟨isSimple_shortName isY, (texts_shortName "y" isY).2.2⟩ rfl ?_
  refine .labelled rfl (.case rfl rfl (isSimple_constant _ (by simp)) (.stop rfl))
    (by simp [Node.ref]) (hasForm_reference isY rfl) ?_
  refine .plain rfl (.brk rfl rfl) (.plain rfl (hasForm_announcedInt isG rfl) ?_)
  exact .labelled rfl (.case rfl rfl (isSimple_constant _ (by simp)) (.stop rfl))
    (by simp [Node.ref]) (hasForm_reference isG rfl) .nil

/-- Nothing is declared before a `break`, and so nothing is written. -/
theorem not_writes_passedStmts (v : Nat) : ¬ ∃ c ∈ passedStmts, c.Writes v := by
  have arms : Arm.written (CStmt.arms [.labelled [1] false false [.simple [2]], .brk, .decl [3],
      .labelled [4] false false [.simple [5]]]) =
        [⟨[1], false, [.simple [2], .brk, .decl [3]]⟩, ⟨[4], false, [.simple [5]]⟩] := rfl
  rintro ⟨c, hc, writes⟩
  obtain rfl := List.mem_singleton.1 hc
  rw [CStmt.writes_switch, arms] at writes
  obtain ⟨arm, harm, c, hc, writes⟩ := writes
  have simple : ∃ operands, c = .simple operands := by
    rcases List.mem_cons.1 harm with rfl | harm
    · exact ⟨_, List.mem_singleton.1 hc⟩
    · obtain rfl := List.mem_singleton.1 harm
      exact ⟨_, List.mem_singleton.1 hc⟩
  obtain ⟨operands, rfl⟩ := simple
  cases writes

theorem announcements_bind_where_written_passed :
    HasForms {} passedLeaf passedBody.children passedStmts ∧
      Global.isAnnouncement (passedLeaf 3) = true ∧
      (∃ γ, (5, γ) ∈ CStmt.usesAll passedLeaf .empty passedStmts ∧ γ "g" = some 3) ∧
      declareCode {} passedLeaf 3 ∉
        RustStmt.bindingsAll (CStmt.lowerAll {} passedLeaf {} passedStmts) ∧
      ∀ u ∈ RustStmt.usesAll .empty (CStmt.lowerAll {} passedLeaf {} passedStmts),
        u.2 (sanitize "g") = none := by
  obtain ⟨-, lets, unbound, -⟩ :=
    announcements_bind_where_written hasForms_passedStmts plainEntry
  have values : ∀ s : Setting Nat, s.valueName ≠ sanitize "g" := by
    intro s same
    have plain : sanitize "g" = "g" := by decide
    have start := congrArg (fun name : String => name.toList.head?) (same.trans plain)
    rw [Setting.valueName, String.toList_append] at start
    exact absurd start (by simp)
  have places : CStmt.usesAll passedLeaf .empty passedStmts =
      [(0, .empty), (1, .empty), (2, .empty), (3, Scope.empty.set "g" 3),
        (4, Scope.empty.set "g" 3), (5, Scope.empty.set "g" 3)] := rfl
  refine ⟨hasForms_passedStmts, by decide, ⟨Scope.empty.set "g" 3, ?_, Scope.set_self _ _ _⟩,
    ?_, ?_⟩
  · rw [places]
    simp
  · exact fun mem => not_writes_passedStmts 3 ((lets 3).1 mem)
  · exact unbound "g" (fun v writes => absurd writes (not_writes_passedStmts v)) values

/-! ## An announcement that captures -/

/-- An announcement and a reference to what it announces. -/
def announcedLeaf (k : Nat) : Node :=
  [.announcedInt "g", .ref "g"].getD k { kind := .nullStmt }

/-- A body with these leaves: `extern int g; g;` -/
def announcedBody : Node :=
  { kind := .compoundStmt, children :=
    [{ kind := .declStmt, children := [.announcedInt "g"] }, .ref "g"] }

/-- The statements of the body. -/
def announcedStmts : List (CStmt Nat) :=
  [.decl [0], .simple [1]]

/-- **An announcement captures a reference.**  The program resolves the reference through the
announcement to a variable at file scope; the text binds it to a `let` that holds zero. -/
theorem local_announcement_captures :
    HasForms {} announcedLeaf announcedBody.children announcedStmts ∧
      Global.isAnnouncement (announcedLeaf 0) = true ∧
      (∃ γ, (1, γ) ∈ CStmt.usesAll announcedLeaf .empty announcedStmts ∧ γ "g" = some 0) ∧
      (Function.statements {} plainEntry announcedBody).value =
        ["let mut g: i32 = 0;", "g;"] ∧
      RustStmt.read? (Text.stacked (Function.statements {} plainEntry announcedBody).value) =
        some (CStmt.lowerAll {} announcedLeaf {} announcedStmts).texts ∧
      declareCode {} announcedLeaf 0 ∈
        RustStmt.bindingsAll (CStmt.lowerAll {} announcedLeaf {} announcedStmts) ∧
      ∃ u ∈ RustStmt.usesAll .empty (CStmt.lowerAll {} announcedLeaf {} announcedStmts),
        1 ∈ u.1.sites ∧ u.2 (sanitize "g") = some (declareCode {} announcedLeaf 0) := by
  have isG : "g" ∈ shortNames := by decide
  have forms : HasForms {} announcedLeaf announcedBody.children announcedStmts :=
    .cons (hasForm_announcedInt isG rfl) (.cons (hasForm_reference isG rfl) .nil)
  have texts : (announcedLeaf 1).statementTexts {} = ["g;"] := (texts_shortName "g" isG).1
  have shape : CStmt.lowerAll {} announcedLeaf {} announcedStmts =
      [declareCode {} announcedLeaf 0, .simple (.ofText "g;" 1)] := by
    simp only [CStmt.lowerAll, announcedStmts, CStmt.lower, simpleCodes, simpleCode, texts,
      List.flatMap_cons, List.flatMap_nil, List.map_cons, List.map_nil, List.append_nil,
      List.cons_append, List.nil_append]
  have places : CStmt.usesAll announcedLeaf .empty announcedStmts =
      [(0, Scope.empty.set "g" 0), (1, Scope.empty.set "g" 0)] := rfl
  refine ⟨forms, by decide, ⟨Scope.empty.set "g" 0, ?_, Scope.set_self _ _ _⟩, by decide +kernel,
    read?_statements forms plainEntry, ?_, ?_⟩
  · rw [places]
    simp
  · rw [shape]
    exact List.mem_cons_self
  · refine ⟨(.ofText "g;" 1, Scope.empty.set (sanitize "g") (declareCode {} announcedLeaf 0)), ?_,
      List.mem_singleton.2 rfl, Scope.set_self .empty (sanitize "g") _⟩
    rw [shape]
    exact List.mem_cons_of_mem _ List.mem_cons_self

end Ferric
