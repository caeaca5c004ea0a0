import Ferric.Proofs.Flow.Arms
import Ferric.Proofs.Scope.Uses

/-!
# References that resolve as in the program

Lowered code keeps the expressions it comes from.  A reference resolves as in the program when it is
bound to the `let` of the declaration that the program binds it to, or is not bound by a `let` when
the program binds it further out.  Only declarations, the headers of `for` loops and switches
without arms bind a name for what follows; everything else binds inside of its own braces.

## Main definitions

* `Resolves`, `Code.Resolved`: references that resolve as in the program.
* `Sound`: what a place says of the two scopes is true.

## Main results

* `Sound.resolves`: an expression without torn names resolves as in the program.
* `scope_lower`: lowering a statement leaves all names alone but those it binds.
* `Sound.after`: the place after a statement is sound.
-/

namespace Ferric

open List

section

variable {α : Type}

def Node.declaredNames (n : Node) : List String :=
  match n.kind with
  | .varDecl _ _ => [n.spelling]
  | _ => []

/-- The names that some leaves refer to or declare. -/
def vocabulary (node : α → Node) (U : List (α × Scope α)) : List String :=
  U.flatMap fun u => (node u.1).references ++ (node u.1).declaredNames

/-- **Different names are emitted differently.** -/
def EmittedApart (names : List String) : Prop :=
  ∀ x ∈ names, ∀ y ∈ names, sanitize x = sanitize y → x = y

instance (names : List String) : Decidable (EmittedApart names) :=
  inferInstanceAs (Decidable (∀ x ∈ names, ∀ y ∈ names, sanitize x = sanitize y → x = y))

/-- **The references of an expression resolve as in the program**: in a scope of the emitted code
each is bound to the `let` of the declaration that binds it at one of the places `U` where the
expression stands.  Leaves that are numbered stand at one place each. -/
def Resolves (reg : Registry) (node : α → Node) (U : List (α × Scope α))
    (ρ : Scope (RustStmt (Leaf α))) (a : α) : Prop :=
  ∃ γ, (a, γ) ∈ U ∧
    ∀ x ∈ (node a).references, ρ (sanitize x) = (γ x).map (declareCode reg node)

/-- **The references of lowered code resolve as in the program.** -/
def Code.Resolved (reg : Registry) (node : α → Node) (U : List (α × Scope α))
    (ρ : Scope (RustStmt (Leaf α))) (code : Code α) : Prop :=
  ∀ u ∈ RustStmt.usesAll ρ code, ∀ a ∈ u.1.sites, Resolves reg node U u.2 a

/-- Code that binds nothing for what follows. -/
def Code.Quiet (code : Code α) : Prop :=
  ∀ ρ : Scope (RustStmt (Leaf α)), RustStmt.scopeAll ρ code = ρ

section

variable {reg : Registry} {node : α → Node} {U : List (α × Scope α)}
  {ρ : Scope (RustStmt (Leaf α))} {γ : Scope α}

theorem references_subset_vocabulary {a : α} (h : (a, γ) ∈ U) {x : String}
    (hx : x ∈ (node a).references) : x ∈ vocabulary node U :=
  mem_flatMap.2 ⟨_, h, mem_append_left _ hx⟩

theorem name_mem_vocabulary {v : α} (h : (v, γ) ∈ U) (isVariable : IsVariable reg node v) :
    (node v).spelling ∈ vocabulary node U := by
  obtain ⟨isConst, isExtern, kind⟩ := isVariable.kind
  refine mem_flatMap.2 ⟨_, h, mem_append_right _ ?_⟩
  rw [Node.declaredNames, kind]
  exact mem_singleton.2 rfl

/-- A leaf that comes from one expression. -/
theorem Resolves.sites {a : α} (h : Resolves reg node U ρ a) (text : String) :
    ∀ b ∈ (Leaf.ofText text a).sites, Resolves reg node U ρ b := by
  intro b hb
  rwa [mem_singleton.1 hb]

theorem Resolves.congr {a : α} {σ : Scope (RustStmt (Leaf α))} (h : Resolves reg node U ρ a)
    (same : ∀ x ∈ (node a).references, σ (sanitize x) = ρ (sanitize x)) :
    Resolves reg node U σ a := by
  obtain ⟨γ, mem, alike⟩ := h
  exact ⟨γ, mem, fun x hx => (same x hx).trans (alike x hx)⟩

/-! ## Code put together -/

namespace Code

theorem resolved_nil : Resolved reg node U ρ [] :=
  fun _ hu => absurd hu not_mem_nil

variable {a b body : Code α} {s : RustStmt (Leaf α)}

theorem Resolved.append (ha : Resolved reg node U ρ a)
    (hb : Resolved reg node U (RustStmt.scopeAll ρ a) b) : Resolved reg node U ρ (a ++ b) := by
  intro u hu
  rw [RustStmt.usesAll_append] at hu
  rcases mem_append.1 hu with hu | hu
  · exact ha u hu
  · exact hb u hu

theorem Resolved.of_append (h : Resolved reg node U ρ (a ++ b)) : Resolved reg node U ρ a := by
  intro u hu
  apply h u
  rw [RustStmt.usesAll_append]
  exact mem_append_left _ hu

theorem resolved_single :
    Resolved reg node U ρ [s] ↔
      ∀ u ∈ s.uses ρ, ∀ a ∈ u.1.sites, Resolves reg node U u.2 a := by
  rw [Resolved, RustStmt.usesAll, RustStmt.usesAll, append_nil]

theorem resolved_leaf {l : Leaf α} (h : s.uses ρ = [(l, ρ)])
    (hl : ∀ a ∈ l.sites, Resolves reg node U ρ a) : Resolved reg node U ρ [s] := by
  rw [resolved_single, h]
  intro u hu
  rw [mem_singleton.1 hu]
  exact hl

/-- A statement without leaves. -/
theorem resolved_of_uses_eq_nil (h : s.uses ρ = []) : Resolved reg node U ρ [s] := by
  rw [resolved_single, h]
  exact fun u hu => absurd hu not_mem_nil

theorem Resolved.block {label? : Option String} (h : Resolved reg node U ρ body) :
    Resolved reg node U ρ [.block label? body] :=
  resolved_single.2 h

theorem Resolved.loop (h : Resolved reg node U ρ body) : Resolved reg node U ρ [.loop body] :=
  resolved_single.2 h

theorem Resolved.branch {test : Leaf α} {yes no : Code α}
    (ht : ∀ a ∈ test.sites, Resolves reg node U ρ a) (hy : Resolved reg node U ρ yes)
    (hn : Resolved reg node U ρ no) : Resolved reg node U ρ [.branch test yes no] := by
  rw [resolved_single]
  intro u hu
  rcases mem_cons.1 hu with rfl | hu
  · exact ht
  · rcases mem_append.1 hu with hu | hu
    · exact hy u hu
    · exact hn u hu

theorem Resolved.whileLoop {test : Leaf α} (ht : ∀ a ∈ test.sites, Resolves reg node U ρ a)
    (hb : Resolved reg node U ρ body) : Resolved reg node U ρ [.whileLoop test body] := by
  rw [resolved_single]
  intro u hu
  rcases mem_cons.1 hu with rfl | hu
  · exact ht
  · exact hb u hu

theorem quiet_nil : Quiet ([] : Code α) :=
  fun _ => rfl

theorem Quiet.append (ha : a.Quiet) (hb : b.Quiet) : Quiet (a ++ b) := by
  intro ρ
  rw [RustStmt.scopeAll_append, ha, hb]

theorem quiet_simpleCode (a : α) : Quiet (simpleCode reg node a) := by
  intro ρ
  rw [simpleCode]
  induction (node a).statementTexts reg with
  | nil => rfl
  | cons text texts ih => exact ih

theorem quiet_simpleCodes (as : List α) : Quiet (simpleCodes reg node as) := by
  induction as with
  | nil => exact quiet_nil
  | cons a as ih => exact (quiet_simpleCode a).append ih

/-- Expressions that resolve, as statements. -/
theorem resolved_simpleCodes {as : List α} (h : ∀ a ∈ as, Resolves reg node U ρ a) :
    Resolved reg node U ρ (simpleCodes reg node as) := by
  have one : ∀ a, Resolves reg node U ρ a → Resolved reg node U ρ (simpleCode reg node a) := by
    intro a ha
    rw [simpleCode]
    induction (node a).statementTexts reg with
    | nil => exact resolved_nil
    | cons text texts ih =>
      have first : Resolved reg node U ρ [.simple (.ofText text a)] :=
        resolved_leaf rfl (ha.sites text)
      exact first.append ih
  induction as with
  | nil => exact resolved_nil
  | cons a as ih =>
    refine (one a (h a mem_cons_self)).append ?_
    rw [quiet_simpleCode]
    exact ih fun b hb => h b (mem_cons_of_mem _ hb)

/-- The check of a `do` loop. -/
theorem resolved_exitCode {a : α} (h : Resolves reg node U ρ a) :
    Resolved reg node U ρ [exitCode reg node a] :=
  Resolved.branch (h.sites _) (resolved_of_uses_eq_nil rfl) resolved_nil

theorem quiet_exitCode (a : α) : Quiet [exitCode reg node a] :=
  fun _ => rfl

end Code

/-! ## Sound places -/

variable (reg node U) in
/-- **What a place says of the two scopes is true.**  Names that are not torn are bound alike.  What
has to run before a `continue` resolves in every scope that agrees on its names with the scope at
the entry of the loop, and this scope still holds for the names that were not bound since. -/
structure Sound (s : Setting α) (p : Place) (γ : Scope α) (ρ : Scope (RustStmt (Leaf α))) :
    Prop where
  depth : p.depth = s.depth
  alike : ∀ x ∈ vocabulary node U, x ∉ p.torn →
    ρ (sanitize x) = (γ x).map (declareCode reg node)
  known : ∀ x ∈ p.step, x ∈ vocabulary node U
  quiet : s.step.Quiet
  step : ∃ entry : Scope (RustStmt (Leaf α)),
    (∀ σ : Scope (RustStmt (Leaf α)), (∀ x ∈ p.step, σ (sanitize x) = entry (sanitize x)) →
      s.step.Resolved reg node U σ) ∧
    ∀ x ∈ p.step, x ∉ p.bound → ρ (sanitize x) = entry (sanitize x)

namespace Sound

variable {s : Setting α} {p : Place}

/-- At the start of a function nothing is bound. -/
theorem start (result : CType) :
    Sound reg node U { result } {} .empty .empty where
  depth := rfl
  alike _ _ _ := rfl
  known _ hx := absurd hx not_mem_nil
  quiet := Code.quiet_nil
  step := ⟨.empty, fun _ _ => Code.resolved_nil, fun _ hx => absurd hx not_mem_nil⟩

/-- **An expression without torn names resolves as in the program.** -/
theorem resolves (sound : Sound reg node U s p γ ρ) {a : α} (mem : (a, γ) ∈ U)
    (sees : CStmt.sees node p a = true) : Resolves reg node U ρ a :=
  ⟨γ, mem, fun x hx => sound.alike x (references_subset_vocabulary mem hx) (apart_iff.1 sees x hx)⟩

/-- What has to run before a `continue` resolves if none of its names was bound since. -/
theorem resolved_step (sound : Sound reg node U s p γ ρ) (clear : apart p.step p.bound = true) :
    s.step.Resolved reg node U ρ := by
  obtain ⟨entry, resolved, since⟩ := sound.step
  exact resolved ρ fun x hx => since x hx (apart_iff.1 clear x hx)

/-- After names that are bound in the text only. -/
theorem leak (sound : Sound reg node U s p γ ρ) {names : List String}
    {σ : Scope (RustStmt (Leaf α))}
    (same : ∀ x ∈ vocabulary node U, x ∉ names → σ (sanitize x) = ρ (sanitize x)) :
    Sound reg node U s (p.leak names) γ σ where
  depth := sound.depth
  alike x hx ht := by
    have ht := not_or.1 (mt mem_append.2 ht)
    rw [same x hx ht.2, sound.alike x hx ht.1]
  known := sound.known
  quiet := sound.quiet
  step := by
    obtain ⟨entry, resolved, since⟩ := sound.step
    refine ⟨entry, resolved, fun x hx hb => ?_⟩
    have hb := not_or.1 (mt mem_append.2 hb)
    rw [same x (sound.known x hx) hb.2, since x hx hb.1]

theorem declare (sound : Sound reg node U s p γ ρ) (apartU : EmittedApart (vocabulary node U))
    {v : α} (name : (node v).spelling ∈ vocabulary node U) :
    Sound reg node U s (CStmt.afterVariable node p v) (γ.set (node v).spelling v)
      (ρ.set (sanitize (node v).spelling) (declareCode reg node v)) where
  depth := sound.depth
  alike x hx ht := by
    by_cases same : x = (node v).spelling
    · rw [same, Scope.set_self, Scope.set_self]
      rfl
    · -- a torn name other than the declared one stays torn
      have torn : x ∉ p.torn := fun h => ht (mem_filter.2 ⟨h, by simpa using same⟩)
      rw [Scope.set_of_ne fun h => same (apartU x hx _ name h), Scope.set_of_ne same,
        sound.alike x hx torn]
  known := sound.known
  quiet := sound.quiet
  step := by
    obtain ⟨entry, resolved, since⟩ := sound.step
    refine ⟨entry, resolved, fun x hx hb => ?_⟩
    have hb := not_or.1 (mt mem_append.2 hb)
    have other : x ≠ (node v).spelling := fun h => hb.2 (mem_singleton.2 h)
    rw [Scope.set_of_ne fun h => other (apartU x (sound.known x hx) _ name h), since x hx hb.1]

theorem enterLoop (sound : Sound reg node U s p γ ρ) {step : Code α} {names : List String}
    (known : ∀ x ∈ names, x ∈ vocabulary node U) (quiet : step.Quiet)
    (resolved : ∀ σ : Scope (RustStmt (Leaf α)),
      (∀ x ∈ names, σ (sanitize x) = ρ (sanitize x)) → step.Resolved reg node U σ) :
    Sound reg node U (s.inLoop step) (p.inLoop names) γ ρ where
  depth := sound.depth
  alike := sound.alike
  known := known
  quiet := quiet
  step := ⟨ρ, resolved, fun _ _ _ => rfl⟩

/-- Into a switch, after the binding of its value. -/
theorem enterSwitch (sound : Sound reg node U s p γ ρ) (label? : Option String)
    {names : List String} {σ : Scope (RustStmt (Leaf α))}
    (same : ∀ x ∈ vocabulary node U, x ∉ names → σ (sanitize x) = ρ (sanitize x)) :
    Sound reg node U (s.inSwitch label?) (p.inSwitch names) γ σ where
  depth := congrArg (· + 1) sound.depth
  alike := (sound.leak same).alike
  known := sound.known
  quiet := sound.quiet
  step := (sound.leak same).step

/-- Into an arm, where the program sees the variables of earlier items. -/
theorem enterArm (sound : Sound reg node U s p γ ρ) {declared : List String} {δ : Scope α}
    (same : ∀ x, x ∉ declared → δ x = γ x) :
    Sound reg node U s (p.inArm declared) δ ρ where
  depth := sound.depth
  alike x hx ht := by
    have ht := not_or.1 (mt mem_append.2 ht)
    rw [same x ht.2, sound.alike x hx ht.1]
  known := sound.known
  quiet := sound.quiet
  step := sound.step

end Sound

end

end

section

open CStmt

variable {α : Type} {reg : Registry} {node : α → Node} {U : List (α × Scope α)}
  {ρ : Scope (RustStmt (Leaf α))} {γ : Scope α} {s : Setting α} {p : Place}

/-! ## Generated names -/

variable {x : String} {vs : List α}

/-- A generated name stands for no other name. -/
theorem eq_of_sanitize_eq_valueName (h : sanitize x = p.valueName) : x = p.valueName := by
  -- names that are changed end in an underscore or start with a mark; no generated name does
  rcases sanitize_cases x with same | ⟨path, same⟩ | ⟨-, same⟩ <;> rw [same] at h
  · exact h
  all_goals
    have chars := congrArg String.toList h
    rw [Place.valueName, String.toList_append] at chars
  · simp only [pathWords, mem_cons, not_mem_nil, or_false] at path
    rcases path with rfl | rfl | rfl | rfl <;> simp at chars
  · simp at chars

theorem Sound.valueName_eq (sound : Sound reg node U s p γ ρ) : s.valueName = p.valueName := by
  rw [Setting.valueName, Setting.suffix, Place.valueName, sound.depth]

/-! ## Declared variables -/

theorem exists_mem_usesOf {v : α} (h : v ∈ vs) (γ : Scope α) :
    ∃ δ, (v, δ) ∈ usesOf node γ vs := by
  induction vs generalizing γ with
  | nil => exact absurd h not_mem_nil
  | cons w vs ih =>
    rcases mem_cons.1 h with rfl | h
    · exact ⟨_, mem_cons_self⟩
    · obtain ⟨δ, hδ⟩ := ih h (γ.set (node w).spelling w)
      exact ⟨δ, mem_cons_of_mem _ hδ⟩

theorem names_known {δ : Scope α} (each : ∀ v ∈ vs, IsVariable reg node v)
    (uses : ∀ u ∈ usesOf node δ vs, u ∈ U) {v : α} (hv : v ∈ vs) :
    (node v).spelling ∈ vocabulary node U := by
  obtain ⟨_, mem⟩ := exists_mem_usesOf hv δ
  exact name_mem_vocabulary (uses _ mem) (each v hv)

/-- Declarations leave other names alone. -/
theorem scopeAll_declare (apartU : EmittedApart (vocabulary node U))
    (known : ∀ v ∈ vs, (node v).spelling ∈ vocabulary node U) (hx : x ∈ vocabulary node U)
    (new : x ∉ namesOf node vs) :
    RustStmt.scopeAll ρ (vs.map (declareCode reg node)) (sanitize x) = ρ (sanitize x) := by
  induction vs generalizing ρ with
  | nil => rfl
  | cons v vs ih =>
    rw [namesOf, map_cons, mem_cons, not_or] at new
    rw [map_cons, RustStmt.scopeAll_cons,
      ih (fun w hw => known w (mem_cons_of_mem _ hw)) new.2]
    exact Scope.set_of_ne fun h => new.1 (apartU x hx _ (known v mem_cons_self) h)

theorem Sound.declareAll (sound : Sound reg node U s p γ ρ)
    (apartU : EmittedApart (vocabulary node U))
    (known : ∀ v ∈ vs, (node v).spelling ∈ vocabulary node U) :
    Sound reg node U s (vs.foldl (afterVariable node) p) (scopeOf node γ vs)
      (RustStmt.scopeAll ρ (vs.map (declareCode reg node))) := by
  induction vs generalizing p γ ρ with
  | nil => exact sound
  | cons v vs ih =>
    exact ih (sound.declare apartU (known v mem_cons_self))
      fun w hw => known w (mem_cons_of_mem _ hw)

theorem Sound.resolved_declare (sound : Sound reg node U s p γ ρ)
    (apartU : EmittedApart (vocabulary node U)) (each : ∀ v ∈ vs, IsVariable reg node v)
    (clear : variablesClear node p vs = true) (uses : ∀ u ∈ usesOf node γ vs, u ∈ U) :
    Code.Resolved reg node U ρ (vs.map (declareCode reg node)) := by
  induction vs generalizing p γ ρ with
  | nil => exact Code.resolved_nil
  | cons v vs ih =>
    rw [variablesClear, Bool.and_eq_true, Bool.and_eq_true, decide_eq_true_eq] at clear
    obtain ⟨⟨sees, own⟩, clear⟩ := clear
    have mem := uses _ mem_cons_self
    have known := name_mem_vocabulary mem (each v mem_cons_self)
    -- the program sees the new variable in its initializer, the emitted `let` does not
    have resolves : Resolves reg node U ρ v := by
      refine ⟨_, mem, fun x hx => ?_⟩
      have other : x ≠ (node v).spelling := fun h => own (h ▸ hx)
      rw [Scope.set_of_ne other]
      exact sound.alike x (references_subset_vocabulary mem hx) (apart_iff.1 sees x hx)
    have first : Code.Resolved reg node U ρ [declareCode reg node v] :=
      Code.resolved_leaf rfl (resolves.sites _)
    exact first.append (ih (sound.declare apartU known)
      (fun w hw => each w (mem_cons_of_mem _ hw)) clear
      fun u hu => uses u (mem_cons_of_mem _ hu))

/-! ## Switches -/

theorem quiet_chainCode (scrutinee : String) (sites : List α)
    (arms : List (Arm α (RustStmt (Leaf α)))) :
    (chainCode reg node scrutinee sites arms).Quiet := by
  intro ρ
  rw [chainCode]
  split
  · cases (arms.filter fun arm => arm.isDefault).getLast? <;> rfl
  · rename_i tested
    cases h : arms.filter fun arm => !arm.isDefault with
    | nil => simp [h] at tested
    | cons arm rest => rfl

theorem eq_nil_of_chainCode_eq_nil {scrutinee : String} {sites : List α}
    {arms : List (Arm α (RustStmt (Leaf α)))}
    (h : chainCode reg node scrutinee sites arms = []) : arms = [] := by
  rw [chainCode] at h
  by_contra nonempty
  -- an arm is in the chain with a test, or else it is a default
  obtain ⟨arm, harm⟩ := exists_mem_of_ne_nil arms nonempty
  cases tested : arms.filter fun arm => !arm.isDefault with
  | cons first rest =>
    rw [tested] at h
    simp at h
  | nil =>
    have default : arm ∈ arms.filter fun arm => arm.isDefault := by
      refine mem_filter.2 ⟨harm, ?_⟩
      simpa using (filter_eq_nil_iff.1 tested) arm harm
    rw [tested] at h
    cases last : (arms.filter fun arm => arm.isDefault).getLast? with
    | none =>
      rw [getLast?_eq_none_iff.1 last] at default
      exact not_mem_nil default
    | some arm => simp [last] at h

/-- The binding of the value of a switch leaves other names alone. -/
theorem Sound.scopeAll_binding (sound : Sound reg node U s p γ ρ) (x : α) {y : String}
    (new : y ∉ captured node p x) (σ : Scope (RustStmt (Leaf α))) :
    RustStmt.scopeAll σ (s.binding reg node x) (sanitize y) = σ (sanitize y) := by
  rw [Setting.binding]
  rw [captured] at new
  split
  · rfl
  · rename_i computed
    rw [if_neg computed, mem_singleton] at new
    refine Scope.set_of_ne fun h => new (eq_of_sanitize_eq_valueName ?_)
    rw [h, sound.valueName_eq]

/-- A switch binds its value for what follows only if it has no arms. -/
theorem Sound.scopeAll_switch (sound : Sound reg node U s p γ ρ) (x : α) (items : List (CStmt α))
    {y : String} (new : y ∉ (switch x items).binds node p)
    (σ : Scope (RustStmt (Leaf α))) :
    RustStmt.scopeAll σ ((switch x items).lower reg node s) (sanitize y) =
      σ (sanitize y) := by
  rw [lower_switch, switchCode]
  unfold encloseCode
  split
  · rename_i empty
    have none := eq_nil_of_chainCode_eq_nil (isEmpty_iff.1 empty)
    rw [map_eq_nil_iff] at none
    rw [binds, none] at new
    exact sound.scopeAll_binding x new σ
  · split
    · rfl
    · split
      · rw [quiet_chainCode]
      · rfl

/-! ## Statements -/

theorem HasInit.exists_form {init? : Option Node} {init : CStmt α}
    (h : HasInit reg node init? init) : ∃ n, HasForm reg node n init := by
  cases h with
  | none => exact ⟨{ kind := .nullStmt }, .null rfl rfl⟩
  | simple simple eq => exact ⟨_, .simple simple eq⟩
  | decl kind eq each => exact ⟨_, .decl kind eq each⟩

theorem quiet_returnCode (result : CType) (a : α) : (returnCode reg node result a).Quiet := by
  intro ρ
  rw [returnCode]
  split <;> rfl

/-- **Lowering a statement leaves all names alone but those it binds.** -/
theorem scope_lower {n : Node} {c : CStmt α} (form : HasForm reg node n c)
    (sound : Sound reg node U s p γ ρ) (apartU : EmittedApart (vocabulary node U)) {δ : Scope α}
    (uses : ∀ u ∈ c.uses node δ, u ∈ U) (hx : x ∈ vocabulary node U) (new : x ∉ c.binds node p)
    (σ : Scope (RustStmt (Leaf α))) :
    RustStmt.scopeAll σ (c.lower reg node s) (sanitize x) = σ (sanitize x) := by
  -- most statements bind only inside of their own braces; the headers of `for` loops do not
  induction c using CStmt.induct generalizing n with
  | null => rw [CStmt.lower]; rfl
  | simple operands => rw [CStmt.lower, Code.quiet_simpleCodes]
  | decl vs =>
    cases form with
    | decl kind eq each =>
      rw [CStmt.lower]
      exact scopeAll_declare apartU (fun v hv => names_known each uses hv) hx new
  | block body => rw [CStmt.lower_block]; rfl
  | ifThen test yes => rw [CStmt.lower]; rfl
  | ifElse test yes no => rw [CStmt.lower]; rfl
  | whileLoop test body => rw [CStmt.lower]; rfl
  | doLoop body test => rw [CStmt.lower]; rfl
  | forLoop init test? step body ihi ihb =>
    cases form with
    | forLoop kind header children hasInit condition hasStep form =>
      obtain ⟨m, formInit⟩ := hasInit.exists_form
      have loop : Code.Quiet [loopCode reg node test? (body.bodyOf (CStmt.lower reg node
          (s.inLoop (simpleCodes reg node step)) body) ++ simpleCodes reg node step)] := by
        intro ρ
        cases test? <;> rfl
      rw [CStmt.lower, RustStmt.scopeAll_append, loop]
      refine ihi formInit (fun u hu => uses u ?_) new
      rw [CStmt.uses]
      exact mem_append_left _ (mem_append_left _ hu)
  | ret value? =>
    cases value? with
    | none => rw [CStmt.lower]; rfl
    | some value => rw [CStmt.lower, quiet_returnCode]
  | brk => rw [CStmt.lower]; rfl
  | cont =>
    rw [CStmt.lower, RustStmt.scopeAll_append, sound.quiet]
    rfl
  | switch x items => exact sound.scopeAll_switch x items new σ
  | labelled => exact absurd rfl form.ne_labelled

theorem Sound.after {n : Node} {c : CStmt α} (sound : Sound reg node U s p γ ρ)
    (form : HasForm reg node n c) (apartU : EmittedApart (vocabulary node U))
    (uses : ∀ u ∈ c.uses node γ, u ∈ U) :
    Sound reg node U s (c.after node p) (c.scope node γ)
      (RustStmt.scopeAll ρ (c.lower reg node s)) := by
  by_cases isDecl : ∃ vs, c = .decl vs
  · obtain ⟨vs, rfl⟩ := isDecl
    cases form with
    | decl kind eq each =>
      rw [lower, scope]
      exact sound.declareAll apartU fun v hv => names_known each uses hv
  · -- all else declares nothing, so what it binds is bound in the text only
    have leaked := sound.leak fun x hx hn => scope_lower form sound apartU uses hx hn ρ
    cases c with
    | decl vs => exact absurd ⟨vs, rfl⟩ isDecl
    | labelled => exact absurd rfl form.ne_labelled
    | _ => exact leaked

end

end Ferric
