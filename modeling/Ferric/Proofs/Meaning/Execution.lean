import Mathlib.Logic.Basic
import Ferric.Proofs.Flow.CStmt
import Ferric.Proofs.Meaning.Condition

/-!
# Behaviours and executions of statements

What a statement may do: from a state, leave in some way in some state.  A statement need not
terminate and need not be deterministic, so a behaviour is a relation.  Statements are put together
by saying what happens at each way of leaving the first one, so everything here is an instance of
`Behaviour.via`, and the laws follow from the three laws of `via`.

The statements of emitted text and those of C are executed under any interpretation of their leaves;
a leaf of a C statement means what its text means.  A generated binding is kept in an environment.
A leaf sees those bound names that its text mentions; no leaf of a C statement sees any.

## Main definitions

* `Exit`: the ways of leaving a statement.
* `Behaviour.via`: go on after a statement, by the way it was left.
* `Behaviour.Loop`: a loop with a test before its body and a check after it.
* `Behaviour.redirect`: leave through a label, and run a check before each `continue`.
* `Interp`: what leaves mean.
* `RustStmt.run`, `CStmt.meaning`: the executions of structured statements and of a C statement.

## Main results

* `Behaviour.loop_eq_closed`: the check of a loop may be moved to the end of its body, if it is also
  run before each `continue`.
* `Behaviour.redirect_loop`: no jump of a loop's own leaves the loop.
-/

namespace Ferric

/-- **The ways of leaving a statement.** -/
inductive Exit (V : Type) where
  | normal
  | brk (label? : Option String)
  | cont
  | ret (value? : Option V)

/-- Whether a loop goes on when its body is left in this way. -/
def Exit.goesOn {V : Type} : Exit V → Bool
  | .normal | .cont => true
  | _ => false

/-- Whether a loop is left together with its body. -/
def Exit.goesOut {V : Type} : Exit V → Bool
  | .brk (some _) | .ret _ => true
  | _ => false

/-- **A behaviour**: the executions from a state, by the way and the state in which they end. -/
abbrev Behaviour (σ V : Type) := σ → Exit V → σ → Prop

/-- A test, which may have effects. -/
abbrev Check (σ : Type) := σ → Bool → σ → Prop

namespace Check

variable {σ : Type}

/-- The test that always holds. -/
def always : Check σ :=
  fun st b st' => b = true ∧ st' = st

/-- The opposite test. -/
def not (T : Check σ) : Check σ :=
  fun st b st' => T st (!b) st'

/-- Something that is done and does not decide anything. -/
def ofStep (R : σ → σ → Prop) : Check σ :=
  fun st b st' => b = true ∧ R st st'

end Check

namespace Behaviour

variable {σ V : Type}

/-! ## Putting behaviours together -/

/-- Leave in the given way. -/
def exit (x : Exit V) : Behaviour σ V :=
  fun st e st' => e = x ∧ st' = st

/-- Go on after a statement, by the way it was left. -/
def via (P : Behaviour σ V) (f : Exit V → Behaviour σ V) : Behaviour σ V :=
  fun st e st' => ∃ x m, P st x m ∧ f x m e st'

theorem exit_via (x : Exit V) (f : Exit V → Behaviour σ V) : (exit x).via f = f x := by
  funext st e st'
  refine propext ⟨?_, fun h => ⟨x, st, ⟨rfl, rfl⟩, h⟩⟩
  rintro ⟨y, m, ⟨rfl, rfl⟩, h⟩
  exact h

theorem via_exit (P : Behaviour σ V) : P.via exit = P := by
  funext st e st'
  refine propext ⟨?_, fun h => ⟨e, st', h, rfl, rfl⟩⟩
  rintro ⟨x, m, h, rfl, rfl⟩
  exact h

theorem via_via (P : Behaviour σ V) (f g : Exit V → Behaviour σ V) :
    (P.via f).via g = P.via fun x => (f x).via g := by
  funext st e st'
  refine propext ⟨?_, ?_⟩
  · rintro ⟨y, m', ⟨x, m, hP, hf⟩, hg⟩
    exact ⟨x, m, hP, y, m', hf, hg⟩
  · rintro ⟨x, m, hP, y, m', hf, hg⟩
    exact ⟨y, m', ⟨x, m, hP, hf⟩, hg⟩

variable {P : Behaviour σ V} {x e : Exit V} {W : Type} {st st' : σ}

/-- Only the ways in which a statement can be left matter. -/
theorem via_congr {f g : Exit V → Behaviour σ V} (h : ∀ st x m, P st x m → f x = g x) :
    P.via f = P.via g := by
  funext st e st'
  refine propext ⟨?_, ?_⟩
  · rintro ⟨x, m, hP, hf⟩
    exact ⟨x, m, hP, h st x m hP ▸ hf⟩
  · rintro ⟨x, m, hP, hg⟩
    exact ⟨x, m, hP, (h st x m hP).symm ▸ hg⟩

/-- What follows a statement that is left normally. -/
def andThen (Q : Behaviour σ V) : Exit V → Behaviour σ V
  | .normal => Q
  | x => exit x

/-- **One statement after another.** -/
def seq (P Q : Behaviour σ V) : Behaviour σ V :=
  P.via (andThen Q)

/-- Do nothing. -/
def skip : Behaviour σ V :=
  exit .normal

/-- Something that is done. -/
def act (R : σ → σ → Prop) : Behaviour σ V :=
  fun st e st' => e = .normal ∧ R st st'

/-- Evaluate something and go on with its value. -/
def evaluate {W : Type} (E : σ → W → σ → Prop) (F : W → Behaviour σ V) : Behaviour σ V :=
  fun st e st' => ∃ w m, E st w m ∧ F w m e st'

/-- A choice by a test. -/
def choose (T : Check σ) (P Q : Behaviour σ V) : Behaviour σ V :=
  evaluate T fun b => if b then P else Q

@[simp] theorem skip_seq (P : Behaviour σ V) : skip.seq P = P :=
  exit_via _ _

theorem andThen_of_ne (h : x ≠ .normal) (Q : Behaviour σ V) : andThen Q x = exit x := by
  cases x with
  | normal => exact absurd rfl h
  | brk | cont | ret => rfl

theorem exit_seq (h : x ≠ .normal) (Q : Behaviour σ V) : (exit x).seq Q = exit x := by
  rw [seq, exit_via, andThen_of_ne h]

@[simp] theorem seq_skip (P : Behaviour σ V) : P.seq skip = P := by
  have same : andThen (skip : Behaviour σ V) = exit := by
    funext x
    cases x <;> rfl
  rw [seq, same, via_exit]

theorem seq_assoc (P Q R : Behaviour σ V) : (P.seq Q).seq R = P.seq (Q.seq R) := by
  rw [seq, seq, via_via, seq]
  refine congrArg P.via (funext fun x => ?_)
  cases x with
  | normal => rfl
  | brk | cont | ret => exact exit_via _ _

/-- What comes after a statement that is never left normally does not matter. -/
theorem seq_of_never (h : ∀ st st', ¬ P st .normal st') (Q : Behaviour σ V) : P.seq Q = P := by
  have same : P.via (andThen Q) = P.via exit := by
    refine via_congr fun st x m hP => ?_
    cases x with
    | normal => exact absurd hP (h st m)
    | brk | cont | ret => rfl
  rw [seq, same, via_exit]

theorem evaluate_via (E : σ → W → σ → Prop) (F : W → Behaviour σ V) (f : Exit V → Behaviour σ V) :
    (evaluate E F).via f = evaluate E fun w => (F w).via f := by
  funext st e st'
  refine propext ⟨?_, ?_⟩
  · rintro ⟨x, m', ⟨w, m, hE, hF⟩, hf⟩
    exact ⟨w, m, hE, x, m', hF, hf⟩
  · rintro ⟨w, m, hE, x, m', hF, hf⟩
    exact ⟨x, m', ⟨w, m, hE, hF⟩, hf⟩

variable (K : Check σ) (label? : Option String) (T : Check σ)

theorem choose_via (P Q : Behaviour σ V) (f : Exit V → Behaviour σ V) :
    (choose T P Q).via f = choose T (P.via f) (Q.via f) := by
  rw [choose, evaluate_via, choose]
  refine congrArg (evaluate T) (funext fun b => ?_)
  cases b <;> rfl

theorem choose_not (P Q : Behaviour σ V) : choose T.not P Q = choose T Q P := by
  funext st e st'
  refine propext ⟨?_, ?_⟩
  · rintro ⟨b, m, hT, h⟩
    refine ⟨!b, m, hT, ?_⟩
    cases b <;> exact h
  · rintro ⟨b, m, hT, h⟩
    refine ⟨!b, m, ?_, ?_⟩
    · rw [Check.not, Bool.not_not]
      exact hT
    · cases b <;> exact h

/-! ## Loops -/

/-- **A loop** with a test before its body and a check after it.  The check is also run when the
body is left by a `continue`; a loop without one of them always goes on there. -/
inductive Loop (T K : Check σ) (B : Behaviour σ V) : Behaviour σ V
  | stop {st st' : σ} : T st false st' → Loop T K B st .normal st'
  | again {st m m' m'' st' : σ} {x e : Exit V} : T st true m → B m x m' → x.goesOn = true →
    K m' true m'' → Loop T K B m'' e st' → Loop T K B st e st'
  | done {st m m' st' : σ} {x : Exit V} : T st true m → B m x m' → x.goesOn = true →
    K m' false st' → Loop T K B st .normal st'
  | leave {st m st' : σ} : T st true m → B m (.brk none) st' → Loop T K B st .normal st'
  | out {st m st' : σ} {x : Exit V} : T st true m → B m x st' → x.goesOut = true →
    Loop T K B st x st'

/-- A loop is never left by a jump of its own. -/
theorem Loop.exit_ne {T K : Check σ} {B : Behaviour σ V} (h : Loop T K B st e st') :
    e ≠ .cont ∧ e ≠ .brk none := by
  induction h with
  | stop | done | leave => simp
  | again _ _ _ _ _ ih => exact ih
  | out _ _ hx =>
    constructor <;> rintro rfl <;> simp [Exit.goesOut] at hx

/-! ## Jumps that are redirected -/

/-- A check as a statement: if it fails, the loop is left. -/
def ofCheck (K : Check σ) : Behaviour σ V :=
  choose K skip (exit (.brk none))

theorem ofCheck_ofStep (R : σ → σ → Prop) : (ofCheck (.ofStep R) : Behaviour σ V) = act R := by
  funext st e st'
  refine propext ⟨?_, ?_⟩
  · rintro ⟨b, m, ⟨rfl, hR⟩, rfl, rfl⟩
    exact ⟨rfl, hR⟩
  · rintro ⟨rfl, hR⟩
    exact ⟨true, st', ⟨rfl, hR⟩, rfl, rfl⟩

/-- A check that always holds does nothing. -/
theorem ofCheck_always : (ofCheck .always : Behaviour σ V) = skip :=
  ofCheck_ofStep fun st st' => st' = st

/-- What a jump becomes: a `break` goes through a label, and a `continue` runs a check first. -/
def redirected (K : Check σ) (label? : Option String) : Exit V → Behaviour σ V
  | .brk none => exit (.brk label?)
  | .cont => choose K (exit .cont) (exit (.brk none))
  | x => exit x

theorem ofCheck_seq_cont :
    (ofCheck K).seq (exit .cont) = (redirected K none .cont : Behaviour σ V) := by
  rw [ofCheck, seq, choose_via]
  exact congrArg₂ (choose K) (skip_seq _) (exit_seq (by simp) _)

/-- **A statement with its jumps redirected.** -/
def redirect (K : Check σ) (label? : Option String) (P : Behaviour σ V) : Behaviour σ V :=
  P.via (redirected K label?)

theorem redirect_exit (x : Exit V) : redirect K label? (exit x) = redirected K label? x :=
  exit_via _ _

theorem redirect_seq (P Q : Behaviour σ V) :
    redirect K label? (P.seq Q) = (redirect K label? P).seq (redirect K label? Q) := by
  have stays : ∀ x : Exit V, x ≠ .normal → (exit x).seq (redirect K label? Q) = exit x :=
    fun x hx => exit_seq hx _
  have jumps : ∀ x : Exit V, x ≠ .normal →
      redirected K label? x = (redirected K label? x).seq (redirect K label? Q) := by
    intro x hx
    match x with
    | .normal => exact absurd rfl hx
    | .cont =>
      rw [redirected, seq, choose_via]
      exact congrArg₂ (choose K) (stays .cont (by simp)).symm (stays (.brk none) (by simp)).symm
    | .brk none => exact (stays (.brk label?) (by simp)).symm
    | .brk (some l) => exact (stays (.brk (some l)) (by simp)).symm
    | .ret v => exact (stays (.ret v) (by simp)).symm
  rw [redirect, seq, via_via, seq, redirect, via_via]
  refine congrArg P.via (funext fun x => ?_)
  by_cases hx : x = .normal
  · subst hx
    exact (skip_seq (redirect K label? Q)).symm
  · rw [andThen_of_ne hx, exit_via]
    exact jumps x hx

/-- Outside of loops and switches no jump is redirected. -/
theorem redirect_always (P : Behaviour σ V) : redirect .always none P = P := by
  have same : redirected .always none = (exit : Exit V → Behaviour σ V) := by
    funext x
    match x with
    | .normal | .brk none | .brk (some _) | .ret _ => rfl
    | .cont =>
      have jump : (ofCheck .always : Behaviour σ V).seq (exit .cont) = exit .cont := by
        rw [ofCheck_always, skip_seq]
      rw [← ofCheck_seq_cont, jump]
  rw [redirect, same, via_exit]

/-- A statement without jumps of its own is not changed. -/
theorem redirect_of_never (h : ∀ st e st', P st e st' → e ≠ .cont ∧ e ≠ .brk none) (K : Check σ)
    (label? : Option String) : redirect K label? P = P := by
  have same : P.via (redirected K label?) = P.via exit := by
    refine via_congr fun st x m hP => ?_
    obtain ⟨notCont, notBrk⟩ := h st x m hP
    match x with
    | .normal | .brk (some _) | .ret _ => rfl
    | .cont => exact absurd rfl notCont
    | .brk none => exact absurd rfl notBrk
  rw [redirect, same, via_exit]

theorem redirect_loop (K' : Check σ) (label? : Option String) (T : Check σ) (B : Behaviour σ V) :
    redirect K label? (Loop T K' B) = Loop T K' B :=
  redirect_of_never (fun _ _ _ h => h.exit_ne) K label?

theorem redirect_act (R : σ → σ → Prop) : redirect K label? (act R : Behaviour σ V) = act R := by
  refine redirect_of_never ?_ K label?
  rintro st e st' ⟨rfl, -⟩
  simp

theorem redirect_choose (P Q : Behaviour σ V) :
    redirect K label? (choose T P Q) = choose T (redirect K label? P) (redirect K label? Q) :=
  choose_via _ _ _ _

theorem redirect_evaluate (E : σ → W → σ → Prop) (F : W → Behaviour σ V) :
    redirect K label? (evaluate E F) = evaluate E fun w => redirect K label? (F w) :=
  evaluate_via _ _ _

/-! ## Moving the check of a loop -/

/-- The body of a loop with the check at its end and before each `continue`. -/
def closed (K : Check σ) (B : Behaviour σ V) : Behaviour σ V :=
  (redirect K none B).seq (ofCheck K)

/-- The ways of leaving such a body. -/
theorem closed_iff {K : Check σ} {B : Behaviour σ V} :
    closed K B st e st' ↔ ∃ x m, B st x m ∧
      (x.goesOn = true ∧ (K m true st' ∧ e = x ∨ K m false st' ∧ e = .brk none) ∨
        x.goesOn = false ∧ e = x ∧ st' = m) := by
  have inside : ∀ x : Exit V, (redirected K none x).seq (ofCheck K) =
      if x.goesOn then choose K (exit x) (exit (.brk none)) else exit x := by
    intro x
    match x with
    | .normal => exact skip_seq _
    | .cont =>
      rw [redirected, seq, choose_via]
      exact congrArg₂ (choose K) (exit_seq (by simp) _) (exit_seq (by simp) _)
    | .brk none => exact exit_seq (by simp) _
    | .brk (some l) => exact exit_seq (by simp) _
    | .ret v => exact exit_seq (by simp) _
  have shape : closed K B = B.via fun x =>
      if x.goesOn then choose K (exit x) (exit (.brk none)) else exit x := by
    rw [closed, seq, redirect, via_via]
    exact congrArg B.via (funext inside)
  rw [shape]
  refine exists_congr fun x => exists_congr fun m => and_congr_right fun _ => ?_
  cases hx : x.goesOn with
  | true =>
    have both : choose K (exit x) (exit (.brk none)) m e st' ↔
        K m true st' ∧ e = x ∨ K m false st' ∧ e = .brk none := by
      constructor
      · rintro ⟨b, m', hK, h⟩
        cases b with
        | true =>
          obtain ⟨rfl, rfl⟩ := h
          exact .inl ⟨hK, rfl⟩
        | false =>
          obtain ⟨rfl, rfl⟩ := h
          exact .inr ⟨hK, rfl⟩
      · rintro (⟨hK, rfl⟩ | ⟨hK, rfl⟩)
        · exact ⟨true, st', hK, rfl, rfl⟩
        · exact ⟨false, st', hK, rfl, rfl⟩
    simpa [hx] using both
  | false => simp [hx, exit]

theorem goesOn_of_goesOut (h : x.goesOut = true) : x.goesOn = false := by
  match x with
  | .normal | .cont | .brk none => simp [Exit.goesOut] at h
  | .brk (some _) | .ret _ => rfl

/-- **The check of a loop may be moved to the end of its body**, if it is also run before each
`continue`. -/
theorem loop_eq_closed (K : Check σ) (B : Behaviour σ V) :
    Loop T K B = Loop T Check.always (closed K B) := by
  funext st e st'
  refine propext ⟨fun h => ?_, fun h => ?_⟩
  · induction h with
    | stop hT => exact .stop hT
    | again hT hB hx hK _ ih =>
      exact .again hT (closed_iff.2 ⟨_, _, hB, .inl ⟨hx, .inl ⟨hK, rfl⟩⟩⟩) hx ⟨rfl, rfl⟩ ih
    | done hT hB hx hK => exact .leave hT (closed_iff.2 ⟨_, _, hB, .inl ⟨hx, .inr ⟨hK, rfl⟩⟩⟩)
    | leave hT hB => exact .leave hT (closed_iff.2 ⟨_, _, hB, .inr ⟨rfl, rfl, rfl⟩⟩)
    | out hT hB hx =>
      exact .out hT (closed_iff.2 ⟨_, _, hB, .inr ⟨goesOn_of_goesOut hx, rfl, rfl⟩⟩) hx
  · induction h with
    | stop hT => exact .stop hT
    | again hT hB hx hK _ ih =>
      obtain ⟨-, rfl⟩ := hK
      obtain ⟨y, m, hB, ⟨hy, ⟨hK, rfl⟩ | ⟨-, rfl⟩⟩ | ⟨hy, rfl, rfl⟩⟩ := closed_iff.1 hB
      · exact .again hT hB hy hK ih
      · simp [Exit.goesOn] at hx
      · simp [hx] at hy
    | done _ _ _ hK => exact absurd hK.1 (by simp)
    | leave hT hB =>
      obtain ⟨y, m, hB, ⟨hy, ⟨-, rfl⟩ | ⟨hK, -⟩⟩ | ⟨-, rfl, rfl⟩⟩ := closed_iff.1 hB
      · simp [Exit.goesOn] at hy
      · exact .done hT hB hy hK
      · exact .leave hT hB
    | out hT hB hx =>
      obtain ⟨y, m, hB, ⟨hy, ⟨-, rfl⟩ | ⟨-, rfl⟩⟩ | ⟨-, rfl, rfl⟩⟩ := closed_iff.1 hB
      · simp [goesOn_of_goesOut hx] at hy
      · simp [Exit.goesOut] at hx
      · exact .out hT hB hx

/-! ## Switches and blocks -/

def atSwitchEnd : Exit V → Behaviour σ V
  | .brk none => skip
  | x => exit x

/-- A switch, which its `break`s leave. -/
def endSwitch (P : Behaviour σ V) : Behaviour σ V :=
  P.via atSwitchEnd

def atBlockEnd (label : String) : Exit V → Behaviour σ V
  | .brk (some l) => if l = label then skip else exit (.brk (some l))
  | x => exit x

/-- A block, which jumps to its label leave. -/
def block (label? : Option String) (P : Behaviour σ V) : Behaviour σ V :=
  match label? with
  | none => P
  | some label => P.via (atBlockEnd label)

/-- A behaviour without jumps to labels. -/
def Unlabelled (P : Behaviour σ V) : Prop :=
  ∀ st l st', ¬ P st (.brk (some l)) st'

/-- **A block with a label ends a switch**, if the `break`s go through that label. -/
theorem block_redirect (h : P.Unlabelled) (K : Check σ) (label : String) (label? : Option String) :
    block (some label) (redirect K (some label) P) = redirect K label? (endSwitch P) := by
  have jump : ∀ x : Exit V, x ≠ .brk (some label) → (exit x : Behaviour σ V).via
      (atBlockEnd label) = exit x := by
    intro x hx
    rw [exit_via]
    match x with
    | .normal | .cont | .brk none | .ret _ => rfl
    | .brk (some l) => exact if_neg fun he => hx (by rw [he])
  rw [block, redirect, via_via, redirect, endSwitch, via_via]
  refine via_congr fun st x m hP => ?_
  match x with
  | .normal => exact (jump .normal (by simp)).trans (exit_via .normal (redirected K label?)).symm
  | .ret v =>
    exact (jump (.ret v) (by simp)).trans (exit_via (.ret v) (redirected K label?)).symm
  | .brk none =>
    calc (exit (.brk (some label)) : Behaviour σ V).via (atBlockEnd label)
        = skip := (exit_via _ _).trans (if_pos rfl)
      _ = skip.via (redirected K label?) := (exit_via .normal (redirected K label?)).symm
  | .brk (some l) => exact absurd hP (h st l m)
  | .cont =>
    calc (choose K (exit .cont) (exit (.brk none)) : Behaviour σ V).via (atBlockEnd label)
        = choose K (exit .cont) (exit (.brk none)) := by
          rw [choose_via, jump .cont (by simp), jump (.brk none) (by simp)]
      _ = (exit .cont : Behaviour σ V).via (redirected K label?) :=
          (exit_via .cont (redirected K label?)).symm

/-- Without a `break` of its own a switch needs no label. -/
theorem redirect_endSwitch (h : ∀ st st', ¬ P st (.brk none) st') (K : Check σ)
    (label? : Option String) : redirect K none P = redirect K label? (endSwitch P) := by
  rw [redirect, redirect, endSwitch, via_via]
  refine via_congr fun st x m hP => ?_
  match x with
  | .normal => exact (exit_via .normal (redirected K label?)).symm
  | .cont => exact (exit_via .cont (redirected K label?)).symm
  | .brk (some l) => exact (exit_via (.brk (some l)) (redirected K label?)).symm
  | .ret v => exact (exit_via (.ret v) (redirected K label?)).symm
  | .brk none => exact absurd hP (h st m)

theorem block_skip : block label? (skip : Behaviour σ V) = skip := by
  cases label? with
  | none => rfl
  | some label => exact exit_via _ _

theorem block_evaluate (E : σ → W → σ → Prop) (F : W → Behaviour σ V) :
    block label? (evaluate E F) = evaluate E fun w => block label? (F w) := by
  cases label? with
  | none => rfl
  | some label => exact evaluate_via _ _ _

def readOff {W : Type} (f : σ → W) : σ → W → σ → Prop :=
  fun st w st' => w = f st ∧ st' = st

theorem evaluate_readOff_iff {f : σ → W} {F : W → Behaviour σ V} :
    evaluate (readOff f) F st e st' ↔ F (f st) st e st' := by
  constructor
  · rintro ⟨w, m, ⟨rfl, rfl⟩, h⟩
    exact h
  · exact fun h => ⟨f st, st, ⟨rfl, rfl⟩, h⟩

theorem choose_readOff_iff {f : σ → Bool} {Q : Behaviour σ V} :
    choose (readOff f) P Q st e st' ↔ (bif f st then P else Q) st e st' := by
  constructor
  · rintro ⟨b, m, ⟨rfl, rfl⟩, h⟩
    cases hf : f m <;> simpa [hf] using h
  · intro h
    refine ⟨f st, st, ⟨rfl, rfl⟩, ?_⟩
    cases hf : f st <;> simpa [hf] using h

theorem evaluate_const (w : W) (F : W → Behaviour σ V) : evaluate (readOff fun _ => w) F = F w := by
  funext st e st'
  exact propext evaluate_readOff_iff

/-- A value that is evaluated and forgotten. -/
theorem evaluate_skip_seq (E : σ → W → σ → Prop) (Q : Behaviour σ V) :
    (evaluate E fun _ => skip).seq Q = evaluate E fun _ => Q := by
  rw [seq, evaluate_via]
  congr 1
  funext w
  exact skip_seq Q

end Behaviour

section

open Chars

/-! ## Environments -/

/-- The values of generated names. -/
abbrev Env (V : Type) := String → Option V

def Mentions (text name : String) : Prop :=
  name.toList ∈ text.toList.splitOnP fun c => !isWordChar c

instance (text name : String) : Decidable (Mentions text name) :=
  inferInstanceAs (Decidable (_ ∈ _))

namespace Env

variable {V : Type}

/-- No names. -/
def empty : Env V := fun _ => none

/-- Give a name a value. -/
def set (ρ : Env V) (name : String) (v : V) : Env V :=
  fun x => if x = name then some v else ρ x

/-- Forget a name, since the program declares it anew. -/
def unset (ρ : Env V) (name : String) : Env V :=
  fun x => if x = name then none else ρ x

/-- The names that a text mentions. -/
def visible (ρ : Env V) (text : String) : Env V :=
  fun x => if Mentions text x then ρ x else none

@[simp] theorem visible_empty (text : String) : (empty : Env V).visible text = empty := by
  funext x
  simp [visible, empty]

end Env

/-! ## Interpretations -/

/-- **An interpretation of the leaves**, which may depend on the values of generated names. -/
structure Interp (σ V : Type) where
  /-- What a simple statement does. -/
  act : Env V → String → σ → σ → Prop
  /-- The values of an expression. -/
  eval : Env V → String → σ → V → σ → Prop
  /-- The truth values of a condition. -/
  test : Env V → Atom → Check σ
  /-- The value of a case label. -/
  label : String → V

/-- The truth values of a condition that has been read. -/
def Test.check {σ : Type} (f : Atom → Check σ) : Test → Check σ
  | .atom a => f a
  | .not t => (t.check f).not

namespace Interp

variable {σ V : Type} (I : Interp σ V)

/-- The truth values of a condition. -/
def check (ρ : Env V) (text : String) : Check σ :=
  (Test.ofText text).check (I.test (ρ.visible text))

/-- What a simple statement does. -/
def perform (ρ : Env V) (text : String) : Behaviour σ V :=
  .act (I.act (ρ.visible text) text)

def value (ρ : Env V) (text : String) : σ → V → σ → Prop :=
  I.eval (ρ.visible text) text

/-- What some simple statements do, one after the other. -/
def acts : List String → σ → σ → Prop
  | [], st, st' => st' = st
  | text :: texts, st, st' => ∃ m, I.act .empty text st m ∧ acts texts m st'

end Interp

/-! ## Emitted statements -/

namespace RustStmt

variable {σ V : Type} (I : Interp σ V)

def declaration (name rest : String) : String :=
  "let mut " ++ name ++ ": " ++ rest ++ ";"

/-- What a declaration does; it does not see the name it declares. -/
def declared (ρ : Env V) (name rest : String) : Behaviour σ V :=
  .act (I.act (ρ.visible rest) (declaration name rest))

mutual

/-- The executions of one statement. -/
def step (ρ : Env V) : RustStmt String → Behaviour σ V
  | .simple text => I.perform ρ text
  | .declare name rest => declared I ρ name rest
  | .capture _ value => .evaluate (I.value ρ value) fun _ => .skip
  | .brk label? => .exit (.brk label?)
  | .cont => .exit .cont
  | .ret none => .exit (.ret none)
  | .ret (some value) => .evaluate (I.value ρ value) fun v => .exit (.ret (some v))
  | .block label? body => .block label? (run ρ body)
  | .branch test yes no => .choose (I.check ρ test) (run ρ yes) (run ρ no)
  | .whileLoop test body => .Loop (I.check ρ test) .always (run ρ body)
  | .loop body => .Loop .always .always (run ρ body)

/-- **The executions of statements**: a name is bound in what follows its binding. -/
def run (ρ : Env V) : List (RustStmt String) → Behaviour σ V
  | [] => .skip
  | .capture name value :: rest => .evaluate (I.value ρ value) fun v => run (ρ.set name v) rest
  | .declare name value :: rest =>
    (declared I ρ name value).seq (run (ρ.unset name) rest)
  | s :: rest => (step ρ s).seq (run ρ rest)

end

end RustStmt

/-! ## C statements -/

namespace CStmt

variable {α σ V : Type} (reg : Registry) (node : α → Node) (I : Interp σ V) (result : CType)

/-- The texts of expressions as statements. -/
def simpleTexts (operands : List α) : List String :=
  operands.flatMap fun a => (node a).statementTexts reg

/-- The truth values of a condition that may be absent. -/
def checkOf (test? : Option α) : Check σ :=
  match test? with
  | some test => I.check .empty ((node test).conditionText reg)
  | none => .always

/-- A `return` with a value; without a result the value is only evaluated. -/
def returnMeaning (value : α) : Behaviour σ V :=
  let text := (node value).expressionText reg
  if result.isVoid then (Behaviour.act (I.acts [text ++ ";"])).seq (.exit (.ret none))
  else .evaluate (I.value .empty (Fragment.asExpression (Fragment.nullIfZero text result)))
    fun v => .exit (.ret (some v))

/-- Whether an item of a switch has a label with a property. -/
def hasLabel (p : α → Bool) : CStmt α → Bool
  | .labelled labels _ _ _ => labels.any p
  | _ => false

/-- Whether an item of a switch is the default. -/
def isDefault : CStmt α → Bool
  | .labelled _ isDefault _ _ => isDefault
  | _ => false

variable [DecidableEq V]

mutual

/-- **The executions of a C statement.** -/
def meaning : CStmt α → Behaviour σ V
  | .null => .skip
  | .simple operands => .act (I.acts (simpleTexts reg node operands))
  | .decl vars => .act (I.acts (vars.map fun v =>
      RustStmt.declaration (sanitize (node v).spelling) ((node v).variableText reg)))
  | .block body => meaningAll body
  | .ifThen test yes => .choose (checkOf reg node I (some test)) (meaning yes) .skip
  | .ifElse test yes no => .choose (checkOf reg node I (some test)) (meaning yes) (meaning no)
  | .whileLoop test body => .Loop (checkOf reg node I (some test)) .always (meaning body)
  | .doLoop body test => .Loop .always (checkOf reg node I (some test)) (meaning body)
  | .forLoop init test? step body =>
    (meaning init).seq <| .Loop (checkOf reg node I test?)
      (.ofStep (I.acts (simpleTexts reg node step))) (meaning body)
  | .ret none => .exit (.ret none)
  | .ret (some value) => returnMeaning reg node I result value
  | .brk => .exit (.brk none)
  | .cont => .exit .cont
  | .switch x items =>
    .evaluate (I.value .empty ((node x).scrutineeText reg)) fun v =>
      let carries := fun l => decide (I.label ((node l).expressionText reg) = v)
      .endSwitch <|
        ((meaningFrom (hasLabel carries) items).or (meaningFrom isDefault items)).getD .skip
  | .labelled _ _ _ body => meaningAll body

/-- The executions of some statements in turn. -/
def meaningAll : List (CStmt α) → Behaviour σ V
  | [] => .skip
  | c :: cs => (meaning c).seq (meaningAll cs)

/-- The executions of the items of a switch from the first one with a property on. -/
def meaningFrom (p : CStmt α → Bool) : List (CStmt α) → Option (Behaviour σ V)
  | [] => none
  | c :: cs => if p c then some ((meaning c).seq (meaningAll cs)) else meaningFrom p cs

end

end CStmt

end

end Ferric
