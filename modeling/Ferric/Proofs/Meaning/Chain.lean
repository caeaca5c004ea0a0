import Ferric.Proofs.Flow.Reading
import Ferric.Proofs.Meaning.Selection

/-!
# What lowered statements and switches mean

Lowered statements have a meaning of their own if no leaf sees a generated name that it is not
meant to see.  `Means` says so wherever the statements stand: whatever names are bound before, as
long as nothing from the program mentions them, and whatever comes after.

The chain of a lowered switch compares the value of the switch with the labels of one arm after the
other.  It does what the chosen arm does, if the labels are constants and the value is either bound
to a name that nothing else mentions or may be read again.

## Main definitions

* `Code.Avoids`: no part that comes from the program mentions a name in whose scope it stands.
* `Means`: lowered statements and their meaning.
* `Interp.Compares`: comparisons compare, from left to right.
* `CStmt.Comparable`: what is asked of the labels and of the value of a switch.

## Main results

* `Means.append`, `Means.block`, `Means.branch`, `Means.whileLoop`: statements put together.
* `check_armTest`: the test of an arm looks for the value among the labels.
* `means_switchCode`: a lowered switch does what the chosen arm does.
-/

namespace Ferric

open RustStmt Behaviour

/-! ## Names that are avoided -/

section Avoids

variable {α : Type}

/-- No part of the leaf that comes from the program mentions one of the names. -/
def Leaf.Avoids (names : List String) (l : Leaf α) : Prop :=
  ∀ part ∈ l.parts, ∀ name ∈ names, ¬ Mentions part name

/-- The names that a statement generates for what follows it. -/
def RustStmt.captures : RustStmt (Leaf α) → List String
  | .capture name _ => [name]
  | _ => []

mutual

/-- No leaf of a statement mentions a generated name in whose scope it stands. -/
def RustStmt.Avoids (names : List String) : RustStmt (Leaf α) → Prop
  | .simple l | .declare _ l | .capture _ l | .ret (some l) => l.Avoids names
  | .brk _ | .cont | .ret none => True
  | .block _ body | .loop body => avoidsAll names body
  | .branch test yes no => test.Avoids names ∧ avoidsAll names yes ∧ avoidsAll names no
  | .whileLoop test body => test.Avoids names ∧ avoidsAll names body

/-- No leaf of some statements mentions a generated name in whose scope it stands. -/
def RustStmt.avoidsAll (names : List String) : List (RustStmt (Leaf α)) → Prop
  | [] => True
  | s :: rest => RustStmt.Avoids names s ∧ avoidsAll (s.captures ++ names) rest

end

instance (names : List String) (l : Leaf α) : Decidable (l.Avoids names) :=
  inferInstanceAs (Decidable (∀ part ∈ l.parts, ∀ name ∈ names, ¬ Mentions part name))

mutual

/-- Deciding it for a statement. -/
def RustStmt.decidableAvoids (names : List String) :
    (s : RustStmt (Leaf α)) → Decidable (RustStmt.Avoids names s)
  | .simple l | .declare _ l | .capture _ l | .ret (some l) =>
    inferInstanceAs (Decidable (l.Avoids names))
  | .brk _ | .cont | .ret none => .isTrue trivial
  | .block _ body | .loop body => decidableAvoidsAll names body
  | .branch test yes no =>
    @instDecidableAnd _ _ (inferInstanceAs (Decidable (test.Avoids names)))
      (@instDecidableAnd _ _ (decidableAvoidsAll names yes) (decidableAvoidsAll names no))
  | .whileLoop test body =>
    @instDecidableAnd _ _ (inferInstanceAs (Decidable (test.Avoids names)))
      (decidableAvoidsAll names body)

/-- Deciding it for some statements. -/
def RustStmt.decidableAvoidsAll (names : List String) :
    (code : List (RustStmt (Leaf α))) → Decidable (RustStmt.avoidsAll names code)
  | [] => .isTrue trivial
  | s :: rest =>
    @instDecidableAnd _ _ (decidableAvoids names s) (decidableAvoidsAll (s.captures ++ names) rest)

end

/-- **No leaf mentions a generated name in whose scope it stands.** -/
def Code.Avoids (names : List String) (code : Code α) : Prop :=
  RustStmt.avoidsAll names code

instance (names : List String) (code : Code α) : Decidable (code.Avoids names) :=
  RustStmt.decidableAvoidsAll names code

end Avoids

namespace Env

variable {V : Type} {ρ : Env V} {names : List String}

/-- At most the given names have a value, and these are words. -/
structure Within (ρ : Env V) (names : List String) : Prop where
  mem : ∀ x, ρ x ≠ none → x ∈ names
  word : ∀ x, ρ x ≠ none → ∀ c ∈ x.toList, Chars.isWordChar c = true

theorem within_empty (names : List String) : (empty : Env V).Within names where
  mem _ h := absurd rfl h
  word _ h := absurd rfl h

theorem Within.set (h : ρ.Within names) {name : String}
    (hw : ∀ c ∈ name.toList, Chars.isWordChar c = true) (v : V) :
    (ρ.set name v).Within (name :: names) where
  mem x hx := by
    by_cases he : x = name
    · simp [he]
    · exact List.mem_cons_of_mem _ (h.mem x (by simpa [Env.set, he] using hx))
  word x hx := by
    by_cases he : x = name
    · rw [he]
      exact hw
    · exact h.word x (by simpa [Env.set, he] using hx)

theorem Within.unset (h : ρ.Within names) (name : String) : (ρ.unset name).Within names := by
  have kept : ∀ x, ρ.unset name x ≠ none → ρ x ≠ none := by
    intro x hx hn
    exact hx (by simp only [Env.unset, hn, ite_self])
  exact ⟨fun x hx => h.mem x (kept x hx), fun x hx => h.word x (kept x hx)⟩

theorem Within.visible_eq (h : ρ.Within names) {text : String}
    (ht : ∀ name ∈ names, ¬ Mentions text name) : ρ.visible text = empty := by
  funext x
  simp only [visible, empty]
  split
  · rename_i mentioned
    by_contra hx
    exact ht x (h.mem x hx) mentioned
  · rfl

end Env

/-! ## Meanings -/

section Meanings

variable {α σ V : Type} (I : Interp σ V)

/-- **Lowered statements and their meaning**, wherever they stand. -/
def Means (code : Code α) (P : Behaviour σ V) : Prop :=
  ∀ (names : List String) (ρ : Env V) (rest : Code α) (Q : Behaviour σ V), ρ.Within names →
    Code.Avoids names (code ++ rest) →
    (∀ (names' : List String) (ρ' : Env V), ρ'.Within names' → rest.Avoids names' →
      RustStmt.run I ρ' rest.texts = Q) →
    RustStmt.run I ρ (Code.texts (code ++ rest)) = P.seq Q

variable {I} {code a b : Code α} {P Q : Behaviour σ V}

variable {names : List String} {ρ : Env V} {s : RustStmt (Leaf α)} {text : String} {x : α}

/-- Lowered statements on their own. -/
theorem Means.run_eq (h : Means I code P) (hρ : ρ.Within names) (ha : code.Avoids names) :
    run I ρ code.texts = P := by
  have alone := h names ρ [] .skip hρ (by simpa using ha) fun _ _ _ _ => rfl
  simpa using alone

theorem means_nil : Means I ([] : Code α) .skip := by
  intro names ρ rest Q hρ ha hQ
  rw [skip_seq]
  exact hQ names ρ hρ ha

theorem Means.append (ha : Means I a P) (hb : Means I b Q) : Means I (a ++ b) (P.seq Q) := by
  intro names ρ rest R hρ hn hR
  rw [List.append_assoc] at hn ⊢
  rw [seq_assoc]
  exact ha names ρ (b ++ rest) (Q.seq R) hρ hn fun names' ρ' hρ' hn' =>
    hb names' ρ' rest R hρ' hn' hR

/-- A statement that binds no name. -/
theorem Means.single {s : RustStmt (Leaf α)} (hc : ∀ name value, s ≠ .capture name value)
    (hd : ∀ name value, s ≠ .declare name value)
    (h : ∀ names (ρ : Env V), ρ.Within names → s.Avoids names →
      step I ρ (s.map Leaf.text) = P) : Means I [s] P := by
  intro names ρ rest Q hρ ha hQ
  have parts : s.Avoids names ∧ rest.Avoids names := by
    cases s with
    | capture name value => exact absurd rfl (hc name value)
    | _ => exact ha
  have run : run I ρ (Code.texts (s :: rest)) =
      (step I ρ (s.map Leaf.text)).seq (run I ρ rest.texts) := by
    cases s with
    | capture name value => exact absurd rfl (hc name value)
    | declare name value => exact absurd rfl (hd name value)
    | _ => rfl
  rw [List.singleton_append, run, h names ρ hρ parts.1, hQ names ρ hρ parts.2]

/-- A statement that binds no name, by its executions on its own. -/
theorem Means.of_run {s : RustStmt (Leaf α)} (hc : ∀ name value, s ≠ .capture name value)
    (hd : ∀ name value, s ≠ .declare name value)
    (h : ∀ names (ρ : Env V), ρ.Within names → Code.Avoids names [s] →
      run I ρ (Code.texts [s]) = P) : Means I [s] P := by
  refine .single hc hd fun names ρ hρ ha => ?_
  have alone : Code.Avoids names [s] ∧ run I ρ (Code.texts [s]) =
      (step I ρ (s.map Leaf.text)).seq .skip := by
    cases s with
    | capture name value => exact absurd rfl (hc name value)
    | declare name value => exact absurd rfl (hd name value)
    | _ => exact ⟨⟨ha, trivial⟩, rfl⟩
  rw [← h names ρ hρ alone.1, alone.2, seq_skip]

theorem means_exit {x : Exit V} (hc : ∀ name value, s ≠ .capture name value)
    (hd : ∀ name value, s ≠ .declare name value)
    (h : ∀ ρ, step I ρ (s.map Leaf.text) = .exit x) : Means I [s] (.exit x) :=
  .single hc hd fun _ ρ _ _ => h ρ

/-! ### Leaves -/

theorem Leaf.avoids_ofText (h : (Leaf.ofText text x).Avoids names) :
    ∀ name ∈ names, ¬ Mentions text name :=
  h text (by simp [Leaf.ofText])

theorem act_acts_singleton (text : String) :
    (act (I.acts [text]) : Behaviour σ V) = .act (I.act .empty text) := by
  funext st e st'
  simp [act, Interp.acts]

theorem means_simple (text : String) (x : α) :
    Means I [.simple (.ofText text x)] (.act (I.acts [text])) := by
  refine .single (by simp) (by simp) fun names ρ hρ ha => ?_
  rw [act_acts_singleton]
  show act (I.act (ρ.visible text) text) = _
  rw [hρ.visible_eq (Leaf.avoids_ofText ha)]

theorem acts_nil : (act (I.acts []) : Behaviour σ V) = .skip := rfl

theorem acts_cons (text : String) (texts : List String) :
    (act (I.acts (text :: texts)) : Behaviour σ V) =
      (act (I.acts [text])).seq (.act (I.acts texts)) := by
  rw [act_acts_singleton]
  funext st e st'
  refine propext ⟨?_, ?_⟩
  · rintro ⟨rfl, m, first, rest⟩
    exact ⟨.normal, m, ⟨rfl, first⟩, rfl, rest⟩
  · rintro ⟨x, m, ⟨rfl, first⟩, rfl, rest⟩
    exact ⟨rfl, m, first, rest⟩

theorem acts_append (as bs : List String) :
    (act (I.acts (as ++ bs)) : Behaviour σ V) =
      (act (I.acts as)).seq (.act (I.acts bs)) := by
  induction as with
  | nil => rw [List.nil_append, acts_nil, skip_seq]
  | cons text as ih =>
    rw [List.cons_append, acts_cons, ih, ← seq_assoc, ← acts_cons]

variable {reg : Registry} {node : α → Node}

theorem means_simpleCode (x : α) :
    Means I (simpleCode reg node x) (.act (I.acts ((node x).statementTexts reg))) := by
  rw [simpleCode]
  induction (node x).statementTexts reg with
  | nil => exact means_nil
  | cons text texts ih =>
    rw [acts_cons]
    exact (means_simple text x).append ih

/-- Expressions as statements. -/
theorem means_simpleCodes (xs : List α) :
    Means I (simpleCodes reg node xs) (.act (I.acts (CStmt.simpleTexts reg node xs))) := by
  induction xs with
  | nil => exact means_nil
  | cons x xs ih =>
    rw [CStmt.simpleTexts, List.flatMap_cons, acts_append]
    exact (means_simpleCode x).append ih

theorem means_declareCode (v : α) :
    Means I [declareCode reg node v] (.act (I.acts [declaration
      (sanitize (node v).spelling) ((node v).variableText reg)])) := by
  intro names ρ rest Q hρ ha hQ
  rw [act_acts_singleton]
  show (act (I.act (ρ.visible ((node v).variableText reg)) _)).seq
    (run I (ρ.unset (sanitize (node v).spelling)) rest.texts) = _
  rw [hρ.visible_eq (Leaf.avoids_ofText ha.1), hQ names _ (hρ.unset _) ha.2, Leaf.text_ofText]

theorem means_declareCodes (vs : List α) :
    Means I (vs.map (declareCode reg node)) (.act (I.acts (vs.map fun v =>
      declaration (sanitize (node v).spelling) ((node v).variableText reg)))) := by
  induction vs with
  | nil => exact means_nil
  | cons v vs ih =>
    rw [List.map_cons, List.map_cons, acts_cons]
    exact (means_declareCode v).append ih

/-- A condition of the program. -/
theorem check_eq (hρ : ρ.Within names) (ht : ∀ name ∈ names, ¬ Mentions text name) :
    I.check ρ text = I.check .empty text := by
  rw [Interp.check, hρ.visible_eq ht, Interp.check, Env.visible_empty]

theorem value_eq (hρ : ρ.Within names) (ht : ∀ name ∈ names, ¬ Mentions text name) :
    I.value ρ text = I.value .empty text := by
  rw [Interp.value, hρ.visible_eq ht, Interp.value, Env.visible_empty]

/-! ### Blocks, branches and loops -/

theorem Means.block (h : Means I code P) (label? : Option String) :
    Means I [.block label? code] (.block label? P) := by
  refine .single (by simp) (by simp) fun names ρ hρ ha => ?_
  show Behaviour.block label? (run I ρ code.texts) = _
  rw [h.run_eq hρ ha]

theorem Means.branch (hy : Means I a P) (hn : Means I b Q) :
    Means I [.branch (.ofText text x) a b] (.choose (I.check .empty text) P Q) := by
  refine .single (by simp) (by simp) fun names ρ hρ ha => ?_
  obtain ⟨hl, hy', hn'⟩ := ha
  show choose (I.check ρ text) (run I ρ a.texts)
    (run I ρ b.texts) = _
  rw [hy.run_eq hρ hy', hn.run_eq hρ hn', check_eq hρ (Leaf.avoids_ofText hl)]

theorem Means.whileLoop (h : Means I code P) :
    Means I [.whileLoop (.ofText text x) code] (.Loop (I.check .empty text) .always P) := by
  refine .single (by simp) (by simp) fun names ρ hρ ha => ?_
  show Behaviour.Loop (I.check ρ text) .always (run I ρ code.texts) = _
  rw [h.run_eq hρ ha.2, check_eq hρ (Leaf.avoids_ofText ha.1)]

theorem Means.loop (h : Means I code P) : Means I [.loop code] (.Loop .always .always P) := by
  refine .single (by simp) (by simp) fun names ρ hρ ha => ?_
  show Behaviour.Loop .always .always (run I ρ code.texts) = _
  rw [h.run_eq hρ ha]

theorem means_ret_value (text : String) (x : α) :
    Means I [.ret (some (.ofText text x))]
      (.evaluate (I.value .empty text) fun v => .exit (.ret (some v))) := by
  refine .single (by simp) (by simp) fun names ρ hρ ha => ?_
  show evaluate (I.value ρ text) _ = _
  rw [value_eq hρ (Leaf.avoids_ofText ha)]

end Meanings

section

open Chars CStmt List

/-! ## Comparing -/

namespace Interp

variable {σ V : Type} (I : Interp σ V)

/-- The values of an operand: the one bound to it, if it is a generated name. -/
def operand (ρ : Env V) (text : String) : σ → V → σ → Prop :=
  match ρ text with
  | some v => readOff fun _ => v
  | none => I.value ρ text

/-- Compare an operand with some values until one is equal. -/
def compare (ρ : Env V) (text : String) : List String → Check σ
  | [], st, b, st' => b = false ∧ st' = st
  | value :: values, st, b, st' => ∃ v w m m', I.operand ρ text st v m ∧ I.operand ρ value m w m' ∧
      (w = v ∧ b = true ∧ st' = m' ∨ w ≠ v ∧ compare ρ text values m' b st')

/-- **Comparisons compare.** -/
def Compares : Prop :=
  ∀ ρ text values, I.test ρ (.oneOf text values) = I.compare ρ text values

variable {I} [DecidableEq V]

theorem compare_eq {ρ : Env V} {text : String} {val : σ → V} {values : List String}
    (hv : I.operand ρ text = readOff val)
    (hl : ∀ value ∈ values, I.operand ρ value = readOff fun _ => I.label value) :
    I.compare ρ text values =
      readOff fun st => values.any fun value => decide (I.label value = val st) := by
  induction values with
  | nil => rfl
  | cons value values ih =>
    funext st b st'
    rw [compare, hv, hl value (by simp), ih fun l h => hl l (by simp [h])]
    refine propext ⟨?_, ?_⟩
    · rintro ⟨v, w, m, m', ⟨rfl, rfl⟩, ⟨rfl, rfl⟩, ⟨same, rfl, rfl⟩ | ⟨other, rfl, rfl⟩⟩
      · exact ⟨by simp [same], rfl⟩
      · exact ⟨by simp [other], rfl⟩
    · rintro ⟨rfl, rfl⟩
      refine ⟨_, _, _, _, ⟨rfl, rfl⟩, ⟨rfl, rfl⟩, ?_⟩
      by_cases same : I.label value = val st'
      · exact .inl ⟨same, by simp [same], rfl⟩
      · exact .inr ⟨same, by simp [same], rfl⟩

end Interp

/-! ## Names -/

theorem mentions_self {name : String} (h : ∀ c ∈ name.toList, isWordChar c = true) :
    Mentions name name := by
  rw [Mentions, splitOnP_eq_singleton fun c hc => by simp [h c hc]]
  exact mem_singleton_self _

theorem mentions_of_toList_eq {text name : String} {rest : List Char}
    (h : ∀ c ∈ name.toList, isWordChar c = true) (ht : text.toList = name.toList ++ ' ' :: rest) :
    Mentions text name := by
  rw [Mentions, ht, splitOnP_append_cons _ _ (by decide),
    splitOnP_eq_singleton fun c hc => by simp [h c hc]]
  simp

theorem Env.Within.visible {V : Type} {ρ : Env V} {names : List String} (h : ρ.Within names)
    (text : String) : (ρ.visible text).Within names := by
  have kept : ∀ x, ρ.visible text x ≠ none → ρ x ≠ none := by
    intro x hx hn
    exact hx (by simp only [Env.visible, hn, ite_self])
  exact ⟨fun x hx => h.mem x (kept x hx), fun x hx => h.word x (kept x hx)⟩

theorem operand_eq {σ V : Type} {I : Interp σ V} {ρ : Env V} {names : List String}
    (hρ : ρ.Within names) {text : String} (ht : ∀ name ∈ names, ¬ Mentions text name) :
    I.operand ρ text = I.value .empty text := by
  have unbound : ρ text = none := by
    by_contra bound
    exact ht text (hρ.mem text bound) (mentions_self (hρ.word text bound))
  rw [Interp.operand, unbound]
  exact value_eq hρ ht

/-! ## The test of an arm -/

section ArmTest

variable {α σ V : Type} {I : Interp σ V} {reg : Registry} {node : α → Node}

theorem toList_armTest (scrutinee : String) (sites labels : List α) :
    (armTest reg node scrutinee sites labels).text.toList =
      comparisonText scrutinee.toList
        (labels.map fun l => ((node l).expressionText reg).toList) := by
  rw [armTest, Text.joined, String.toList_intercalate, comparisonText, map_map, map_map]
  congr 1
  refine map_congr_left fun l _ => ?_
  simp

theorem ofText_armTest {scrutinee : String} (sites : List α) {labels : List α}
    (hs : IsOperand scrutinee.toList) (hn : Nested scrutinee.toList) (nonempty : labels ≠ [])
    (hl : ∀ l ∈ labels, IsOperand ((node l).expressionText reg).toList) :
    Test.ofText (armTest reg node scrutinee sites labels).text =
      .atom (.oneOf scrutinee (labels.map fun l => (node l).expressionText reg)) := by
  obtain ⟨l, ls, rfl⟩ := exists_cons_of_ne_nil nonempty
  have operands : ∀ v ∈ (l :: ls).map fun l => ((node l).expressionText reg).toList,
      IsOperand v := by
    intro v hv
    obtain ⟨m, hm, rfl⟩ := mem_map.1 hv
    exact hl m hm
  rw [Test.ofText, toList_armTest, map_cons, test_comparisonText hs hn operands]
  simp [Function.comp_def]

variable [DecidableEq V]

/-- **The test of an arm looks for the value among the labels.** -/
theorem check_armTest (compares : I.Compares) {ρ : Env V} {scrutinee : String}
    {sites labels : List α} {val : σ → V} (hs : IsOperand scrutinee.toList)
    (hn : Nested scrutinee.toList) (nonempty : labels ≠ [])
    (hl : ∀ l ∈ labels, IsOperand ((node l).expressionText reg).toList)
    (hv : I.operand (ρ.visible (armTest reg node scrutinee sites labels).text) scrutinee =
      readOff val)
    (hc : ∀ l ∈ labels, I.operand (ρ.visible (armTest reg node scrutinee sites labels).text)
      ((node l).expressionText reg) = readOff fun _ => I.label ((node l).expressionText reg)) :
    I.check ρ (armTest reg node scrutinee sites labels).text =
      readOff fun st => labels.any (carries reg node I (val st)) := by
  rw [Interp.check, ofText_armTest sites hs hn nonempty hl]
  show I.test _ (.oneOf scrutinee (labels.map fun l => (node l).expressionText reg)) = _
  rw [compares, Interp.compare_eq hv]
  · congr 1
    funext st
    rw [any_map]
    rfl
  · intro value hm
    obtain ⟨l, hl, rfl⟩ := mem_map.1 hm
    exact hc l hl

/-! ## The chain -/

/-- What is asked of the labels of an arm with a test. -/
structure Testable (I : Interp σ V) (reg : Registry) (node : α → Node) (labels : List α) :
    Prop where
  nonempty : labels ≠ []
  operand : ∀ l ∈ labels, IsOperand ((node l).expressionText reg).toList
  const : ∀ l ∈ labels, I.value .empty ((node l).expressionText reg) =
    readOff fun _ => I.label ((node l).expressionText reg)

/-- What is asked of the text by which the value of a switch is compared. -/
structure Readable (I : Interp σ V) (names : List String) (ρ : Env V) (scrutinee : String)
    (sites : List α) (reg : Registry) (node : α → Node) (val : σ → V) : Prop where
  operand : IsOperand scrutinee.toList
  nested : Nested scrutinee.toList
  reads : ∀ labels : List α, labels ≠ [] → (armTest reg node scrutinee sites labels).Avoids names →
    I.operand (ρ.visible (armTest reg node scrutinee sites labels).text) scrutinee = readOff val

variable {names : List String} {ρ : Env V} {scrutinee : String} {sites : List α} {val : σ → V}
  {code : Arm α (CStmt α) → Code α} {B : Arm α (CStmt α) → Behaviour σ V}

/-- Branches on the tests of some arms, one after the other. -/
theorem run_branches (compares : I.Compares) (hρ : ρ.Within names)
    (readable : Readable I names ρ scrutinee sites reg node val) {arms : List (Arm α (CStmt α))}
    (testable : ∀ arm ∈ arms, Testable I reg node arm.labels)
    (bodies : ∀ arm ∈ arms, Means I (code arm) (B arm)) {last : Code α} {Q : Behaviour σ V}
    (hq : last.Avoids names → run I ρ last.texts = Q)
    (avoids : Code.Avoids names (arms.foldr (fun arm no =>
      [.branch (armTest reg node scrutinee sites arm.labels) (code arm) no]) last)) :
    run I ρ (Code.texts (arms.foldr (fun arm no =>
        [.branch (armTest reg node scrutinee sites arm.labels) (code arm) no]) last)) =
      .evaluate (readOff val) fun v =>
        ((arms.find? fun arm => arm.labels.any (carries reg node I v)).map B).getD Q := by
  induction arms with
  | nil =>
    rw [foldr_nil] at avoids ⊢
    rw [hq avoids]
    funext st e st'
    rw [evaluate_readOff_iff]
    rfl
  | cons arm arms ih =>
    rw [foldr_cons] at avoids ⊢
    obtain ⟨⟨test, body, no⟩, -⟩ := avoids
    have later := ih (fun a h => testable a (by simp [h])) (fun a h => bodies a (by simp [h])) no
    have labels := testable arm (by simp)
    have check : I.check ρ (armTest reg node scrutinee sites arm.labels).text =
        readOff fun st => arm.labels.any (carries reg node I (val st)) := by
      refine check_armTest compares readable.operand readable.nested labels.nonempty labels.operand
        (readable.reads _ labels.nonempty test) fun l hl => ?_
      rw [operand_eq (hρ.visible _), labels.const l hl]
      exact test _ (mem_map.2 ⟨l, mem_append_right _ hl, rfl⟩)
    show (Behaviour.choose (I.check ρ _) (run I ρ (code arm).texts)
      (run I ρ (Code.texts _))).seq skip = _
    rw [seq_skip, check, (bodies arm (by simp)).run_eq hρ body, later]
    funext st e st'
    rw [choose_readOff_iff, evaluate_readOff_iff, find?_cons]
    cases chosen : arm.labels.any (carries reg node I (val st)) with
    | true => rfl
    | false => exact propext evaluate_readOff_iff

/-- An arm with lowered statements. -/
def armCode (code : Arm α (CStmt α) → Code α) (arm : Arm α (CStmt α)) :
    Arm α (RustStmt (Leaf α)) :=
  ⟨arm.labels, arm.isDefault, code arm⟩

omit [DecidableEq V] in
theorem chainCode_armCode (arms : List (Arm α (CStmt α))) :
    chainCode reg node scrutinee sites (arms.map (armCode code)) =
      if (arms.filter fun arm => !arm.isDefault).isEmpty then
        ((arms.filter fun arm => arm.isDefault).getLast?.map code).toList.map (.block none)
      else (arms.filter fun arm => !arm.isDefault).foldr (fun arm no =>
        [.branch (armTest reg node scrutinee sites arm.labels) (code arm) no])
        (((arms.filter fun arm => arm.isDefault).getLast?.map code).getD []) := by
  rw [chainCode, filter_map, filter_map]
  simp only [isEmpty_map, foldr_map, getLast?_map, Option.map_map]
  rfl

/-- **The chain of some arms does what the chosen arm does.** -/
theorem run_chainCode (compares : I.Compares) (hρ : ρ.Within names)
    (readable : Readable I names ρ scrutinee sites reg node val) {arms : List (Arm α (CStmt α))}
    (testable : ∀ arm ∈ arms, arm.isDefault = false → Testable I reg node arm.labels)
    (bodies : ∀ arm ∈ arms, Means I (code arm) (B arm))
    (avoids : Code.Avoids names
      (chainCode reg node scrutinee sites (arms.map (armCode code)))) :
    run I ρ (Code.texts (chainCode reg node scrutinee sites (arms.map (armCode code)))) =
      .evaluate (readOff val) fun v =>
        ((chosen? reg node I v arms).map B).getD skip := by
  have default : ∀ {arm}, (arms.filter fun arm => arm.isDefault).getLast? = some arm →
      Means I (code arm) (B arm) := fun h =>
    bodies _ (List.mem_of_mem_filter (List.mem_of_getLast? h))
  have ordered : ∀ v, ((chosen? reg node I v arms).map B).getD skip =
      (((arms.filter fun arm => !arm.isDefault).find? fun arm =>
        arm.labels.any (carries reg node I v)).map B).getD
        (((arms.filter fun arm => arm.isDefault).getLast?.map B).getD skip) := by
    intro v
    rw [chosen?]
    cases (arms.filter fun arm => !arm.isDefault).find? fun arm =>
      arm.labels.any (carries reg node I v) <;> rfl
  simp only [ordered]
  rw [chainCode_armCode] at avoids ⊢
  -- without a branch that has a test the default stands alone
  split at avoids
  · rename_i none
    rw [if_pos none]
    rw [List.isEmpty_iff] at none
    rw [none]
    funext st e st'
    rw [evaluate_readOff_iff]
    cases last : (arms.filter fun arm => arm.isDefault).getLast? with
    | none => rfl
    | some arm =>
      rw [last] at avoids
      have body := (default last).run_eq hρ avoids.1
      show ((run I ρ (code arm).texts).seq skip) st e st' = _
      rw [body, seq_skip]
      rfl
  · rename_i some
    rw [if_neg some]
    refine run_branches compares hρ readable ?_ ?_ ?_ avoids
    · intro arm harm
      obtain ⟨mem, tested⟩ := List.mem_filter.1 harm
      exact testable arm mem (by simpa using tested)
    · exact fun arm harm => bodies arm (List.mem_of_mem_filter harm)
    · cases last : (arms.filter fun arm => arm.isDefault).getLast? with
      | none => exact fun _ => rfl
      | some arm => exact fun h => (default last).run_eq hρ h

/-! ## The switch -/

omit [DecidableEq V] in
theorem exists_chainCode_eq (arm : Arm α (CStmt α)) (arms : List (Arm α (CStmt α))) :
    ∃ stmt, chainCode reg node scrutinee sites ((arm :: arms).map (armCode code)) = [stmt] ∧
      (∀ name value, stmt ≠ .capture name value) ∧ ∀ name value, stmt ≠ .declare name value := by
  rw [chainCode_armCode]
  split
  · rename_i none
    have hd : arm.isDefault = true := by
      by_contra hd
      simp [hd] at none
    rw [List.filter_cons_of_pos hd, List.getLast?_cons]
    exact ⟨_, rfl, by simp, by simp⟩
  · rename_i some
    rw [List.isEmpty_iff] at some
    obtain ⟨first, others, he⟩ := List.exists_cons_of_ne_nil some
    rw [he, List.foldr_cons]
    exact ⟨_, rfl, by simp, by simp⟩

/-- What is asked of the value of a switch: its brackets match, and if it may be repeated it can be
compared and reading it changes nothing. -/
structure IsScrutinee (I : Interp σ V) (reg : Registry) (node : α → Node) (x : α) : Prop where
  nested : Nested ((node x).expressionText reg).toList
  operand : Draft.isRepeatable (node x) = true → IsOperand ((node x).expressionText reg).toList
  reads : Draft.isRepeatable (node x) = true →
    ∃ val, I.value .empty ((node x).expressionText reg) = readOff val

variable {s : Setting α} {x : α} {label? : Option String}

theorem Setting.isOperand_valueName (s : Setting α) : IsOperand s.valueName.toList := by
  have shape : s.valueName.toList = 's' :: ("witch_value" ++ s.suffix).toList := by
    simp [Setting.valueName]
  have word := s.isWordChar_valueName
  rw [shape] at word ⊢
  refine isOperand_of_solid (fun d hd => ⟨isBlank_of_isWordChar (word d hd), ?_⟩) (by decide)
    (by simp) (by simp)
  rintro rfl
  exact absurd (word _ hd) (by decide)

omit [DecidableEq V] in
theorem IsScrutinee.readable (h : IsScrutinee I reg node x)
    (hx : Draft.isRepeatable (node x) = true) (hρ : ρ.Within names)
    (hv : I.value .empty ((node x).expressionText reg) = readOff val) :
    Readable I names ρ ((node x).expressionText reg) [x] reg node val where
  operand := h.operand hx
  nested := h.nested
  reads labels nonempty avoids := by
    rw [operand_eq (hρ.visible _), hv]
    exact avoids _ (mem_map.2 ⟨x, by simp, rfl⟩)

omit [DecidableEq V] in
/-- The value that was bound to a name, as the chain reads it. -/
theorem Setting.readable_valueName (s : Setting α) (ρ : Env V) (names : List String) (v : V) :
    Readable I names (ρ.set s.valueName v) s.valueName [] reg node fun _ => v where
  operand := s.isOperand_valueName
  nested := (flat_of_word s.isWordChar_valueName).nested
  reads labels nonempty avoids := by
    have mentioned : Mentions (armTest reg node s.valueName [] labels).text s.valueName := by
      obtain ⟨l, ls, rfl⟩ := exists_cons_of_ne_nil nonempty
      obtain ⟨front, last, -, starts⟩ := comparisonText_ends s.valueName.toList
        ((node l).expressionText reg).toList (ls.map fun l => ((node l).expressionText reg).toList)
      refine @mentions_of_toList_eq _ _ (front ++ last) s.isWordChar_valueName ?_
      rw [toList_armTest, map_cons, starts, append_assoc]
      rfl
    have bound : (ρ.set s.valueName v).visible (armTest reg node s.valueName [] labels).text
        s.valueName = some v := by
      rw [Env.visible, if_pos mentioned, Env.set, if_pos rfl]
    rw [Interp.operand, bound]

section Switch

variable {arms : List (Arm α (CStmt α))} (compares : I.Compares)
  (value : IsScrutinee I reg node x)
  (testable : ∀ arm ∈ arms, arm.isDefault = false → Testable I reg node arm.labels)
  (bodies : ∀ arm ∈ arms, Means I (code arm) (B arm))

include compares testable bodies

include value in
/-- A switch that compares its value as it stands. -/
theorem means_repeated (hx : Draft.isRepeatable (node x) = true) :
    Means I (encloseCode label? [] (chainCode reg node ((node x).expressionText reg) [x]
        (arms.map (armCode code))))
      (.evaluate (I.value .empty ((node x).scrutineeText reg)) fun v =>
        .block label? (((chosen? reg node I v arms).map B).getD skip)) := by
  obtain ⟨val, hv⟩ := value.reads hx
  have text : (node x).scrutineeText reg = (node x).expressionText reg := by
    rw [Node.scrutineeText, Text.onChars, (value.operand hx).unterminated,
      String.ofList_toList]
  rw [text, hv]
  cases arms with
  | nil =>
    have nothing : (evaluate (readOff val) fun v =>
        .block label? (((chosen? reg node I v []).map B).getD skip)) = skip := by
      funext st e st'
      rw [evaluate_readOff_iff]
      exact congrFun (congrFun (congrFun (block_skip label?) st) e) st'
    rw [nothing]
    exact means_nil
  | cons arm arms =>
    obtain ⟨stmt, he, hc, hd⟩ := @exists_chainCode_eq _ reg node
      ((node x).expressionText reg) [x] code arm arms
    have chain : Means I [stmt] (.evaluate (readOff val) fun v =>
        ((chosen? reg node I v (arm :: arms)).map B).getD skip) := by
      refine .of_run hc hd fun names ρ hρ ha => ?_
      rw [← he] at ha ⊢
      exact run_chainCode compares hρ (value.readable hx hρ hv) testable bodies ha
    rw [he, ← block_evaluate]
    cases label? with
    | none => exact chain
    | some label => exact chain.block (some label)

theorem means_captured :
    Means I (encloseCode label? [.capture s.valueName (.ofText ((node x).scrutineeText reg) x)]
        (chainCode reg node s.valueName [] (arms.map (armCode code))))
      (.evaluate (I.value .empty ((node x).scrutineeText reg)) fun v =>
        .block label? (((chosen? reg node I v arms).map B).getD skip)) := by
  cases arms with
  | nil =>
    -- nothing is compared: the name is bound in what follows the switch
    intro names ρ rest Q hρ ha hQ
    have nothing : (evaluate (I.value .empty ((node x).scrutineeText reg)) fun v =>
        .block label? (((chosen? reg node I v []).map B).getD skip)) =
        evaluate (I.value .empty ((node x).scrutineeText reg)) fun _ => skip := by
      congr 1
      funext v
      exact block_skip label?
    rw [nothing, evaluate_skip_seq, ← value_eq hρ (Leaf.avoids_ofText ha.1)]
    show (evaluate (I.value ρ ((node x).scrutineeText reg)) fun v =>
      run I (ρ.set s.valueName v) rest.texts) = _
    congr 1
    funext v
    exact hQ _ _ (hρ.set s.isWordChar_valueName v) ha.2
  | cons arm arms =>
    obtain ⟨stmt, he, -⟩ := @exists_chainCode_eq _ reg node s.valueName [] code arm arms
    have enclosed : encloseCode label?
        [.capture s.valueName (.ofText ((node x).scrutineeText reg) x)]
        (chainCode reg node s.valueName [] ((arm :: arms).map (armCode code))) =
        [.block label? (.capture s.valueName (.ofText ((node x).scrutineeText reg) x) ::
          chainCode reg node s.valueName [] ((arm :: arms).map (armCode code)))] := by
      rw [he]
      cases label? <;> rfl
    rw [enclosed, ← block_evaluate]
    refine .single (by simp) (by simp) fun names ρ hρ ha => ?_
    show Behaviour.block label? (.evaluate (I.value ρ ((node x).scrutineeText reg)) fun v =>
      run I (ρ.set s.valueName v) (Code.texts _)) = _
    rw [value_eq hρ (Leaf.avoids_ofText ha.1)]
    congr 2
    funext v
    rw [run_chainCode compares (hρ.set s.isWordChar_valueName v)
      (s.readable_valueName ρ _ v) testable bodies ha.2, evaluate_const]

include value in
/-- **A lowered switch does what the chosen arm does**, inside a block with its label. -/
theorem means_switchCode :
    Means I (switchCode reg node s x label? (arms.map (armCode code)))
      (.evaluate (I.value .empty ((node x).scrutineeText reg)) fun v =>
        .block label? (((chosen? reg node I v arms).map B).getD skip)) := by
  unfold switchCode Setting.binding Setting.scrutinee scrutineeSites
  split
  · rename_i hx
    exact means_repeated compares value testable bodies hx
  · exact means_captured compares testable bodies

end Switch

end ArmTest

end

end Ferric
