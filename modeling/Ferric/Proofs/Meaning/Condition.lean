import Ferric.Proofs.Nesting.Brackets

/-!
# Conditions

A condition is read as far as the control flow needs it: enclosing parentheses do not count, a `!`
before parentheses negates, and comparisons of one operand with several values, joined by `||`, are
a choice among these values.  Everything else is opaque.

## Main definitions

* `Test`: a condition that has been read.
* `Test.ofText`: reading a condition.

## Main results

* `Test.ofText_not`: the negation of a condition is read as its negation.
* `Chars.test_comparisonText`: comparisons are read as such.
-/

namespace Ferric

open Chars List

/-- A condition without negations. -/
inductive Atom where
  | text (text : String)
  /-- The operand equals one of the values. -/
  | oneOf (operand : String) (values : List String)
deriving DecidableEq

/-- **A condition that has been read.** -/
inductive Test where
  | atom (a : Atom)
  | not (t : Test)
deriving DecidableEq

namespace Chars

def sides? (words : List (List Char)) : Option (List Char × List Char) :=
  match words.splitOn "==".toList with
  | [operand, value] => some ([' '].intercalate operand, [' '].intercalate value)
  | _ => none

/-- The operand and the values of some comparisons, by the words of each. -/
def comparisons? : List (List (List Char)) → Option (List Char × List (List Char))
  | [] => none
  | [words] => (sides? words).map fun (operand, value) => (operand, [value])
  | words :: rest =>
    (sides? words).bind fun (operand, value) =>
      (comparisons? rest).bind fun (same, values) =>
        if same = operand then some (operand, value :: values) else none

/-- A condition without negations. -/
def atom (cs : List Char) : Atom :=
  match comparisons? ((cs.splitOn ' ').splitOn "||".toList) with
  | some (operand, values) => .oneOf (String.ofList operand) (values.map String.ofList)
  | none => .text (String.ofList cs)

theorem length_ungrouped_le (cs : List Char) : (ungrouped cs).length ≤ cs.length := by
  have from_le : ∀ cs : List Char, (ungroupedFrom cs).length ≤ cs.length := by
    intro cs
    fun_induction ungroupedFrom cs with
    | case1 cs hw smaller ih => exact ih.trans smaller.le
    | case2 cs hw => exact le_rfl
  exact (from_le _).trans (length_trim_le cs)

/-- The condition that is negated, if a condition is a negation. -/
def negated? (cs : List Char) : Option (List Char) :=
  match cs with
  | '!' :: rest => if isWrapped rest then some rest else none
  | _ => none

theorem length_negated?_lt {cs rest : List Char} (h : negated? cs = some rest) :
    rest.length < cs.length := by
  unfold negated? at h
  split at h
  · split at h
    · obtain rfl := Option.some.inj h
      simp
    · simp at h
  · simp at h

/-- Read a condition. -/
def test (cs : List Char) : Test :=
  match h : negated? (ungrouped cs) with
  | some rest =>
    have : rest.length < cs.length :=
      (length_negated?_lt h).trans_le (length_ungrouped_le cs)
    .not (test rest)
  | none => .atom (atom (ungrouped cs))
termination_by cs.length

/-! ## Groups -/

theorem test_eq (cs : List Char) :
    test cs = match negated? (ungrouped cs) with
      | some rest => .not (test rest)
      | none => .atom (atom (ungrouped cs)) := by
  rw [test]
  split <;> simp_all

/-- Enclosing parentheses do not change what is read. -/
theorem test_congr {as bs : List Char} (h : ungrouped as = ungrouped bs) : test as = test bs := by
  rw [test_eq as, test_eq bs, h]

/-- A `!` before parentheses negates. -/
theorem test_not {cs : List Char} (h : Nested cs) :
    test ('!' :: '(' :: cs ++ [')']) = .not (test cs) := by
  have alone : ungrouped ('!' :: '(' :: cs ++ [')']) = '!' :: '(' :: cs ++ [')'] := by
    have trimmed := trim_closed (c := '!') (by decide) ('(' :: cs)
    rw [ungrouped, trimmed, ungroupedFrom, dif_neg (by simp [isWrapped])]
  have inside : negated? ('!' :: '(' :: cs ++ [')']) = some ('(' :: cs ++ [')']) :=
    if_pos (isWrapped_parens h)
  rw [test_eq, alone, inside]
  exact congrArg Test.not (test_congr (ungrouped_parens h))

end Chars

/-- **Reading a condition.** -/
def Test.ofText (text : String) : Test :=
  Chars.test text.toList

/-- **The negation of a condition is read as its negation.** -/
theorem Test.ofText_not {text : String} (h : Nested text.toList) :
    Test.ofText ("!(" ++ Fragment.ungrouped text ++ ")") = .not (Test.ofText text) := by
  have shape : ("!(" ++ Fragment.ungrouped text ++ ")").toList =
      '!' :: '(' :: ungrouped text.toList ++ [')'] := by
    simp [Fragment.ungrouped]
  rw [Test.ofText, shape, test_not (nested_ungrouped h), Test.ofText]
  exact congrArg Test.not (test_congr (ungrouped_ungrouped _))

/-! ## Comparisons -/

namespace Chars

/-- **A text that may be compared**: it is not empty, neither starts nor ends with a blank, is not
negated or terminated, and does not itself compare or choose. -/
structure IsOperand (cs : List Char) : Prop where
  head : cs.head?.any (fun c => !isBlank c && c != '!') = true
  last : cs.getLast?.any (fun c => !isBlank c && c != ';') = true
  equals : "==".toList ∉ cs.splitOn ' '
  bars : "||".toList ∉ cs.splitOn ' '

instance (cs : List Char) : Decidable (IsOperand cs) :=
  decidable_of_iff (cs.head?.any (fun c => !isBlank c && c != '!') = true ∧
      cs.getLast?.any (fun c => !isBlank c && c != ';') = true ∧
      "==".toList ∉ cs.splitOn ' ' ∧ "||".toList ∉ cs.splitOn ' ')
    ⟨fun h => ⟨h.1, h.2.1, h.2.2.1, h.2.2.2⟩, fun h => ⟨h.head, h.last, h.equals, h.bars⟩⟩

variable {cs operand value : List Char}

theorem IsOperand.exists_cons (h : IsOperand cs) :
    ∃ c rest, cs = c :: rest ∧ isBlank c = false ∧ c ≠ '!' := by
  cases cs with
  | nil => exact absurd h.head (by simp)
  | cons c rest => exact ⟨c, rest, rfl, by simpa using h.head⟩

theorem IsOperand.ne_nil (h : IsOperand cs) : cs ≠ [] := by
  obtain ⟨c, rest, rfl, -⟩ := h.exists_cons
  simp

theorem IsOperand.exists_getLast? (h : IsOperand cs) :
    ∃ c, cs.getLast? = some c ∧ isBlank c = false ∧ c ≠ ';' := by
  obtain ⟨c, hc, solid⟩ := (Option.any_eq_true _ _).1 h.last
  exact ⟨c, hc, by simpa using solid⟩

theorem IsOperand.unterminated (h : IsOperand cs) : unterminated cs = cs := by
  obtain ⟨c, hc, blank, semi⟩ := h.exists_getLast?
  have kept : ∀ p : Char → Bool, p c = false → dropEndWhile p cs = cs := by
    intro p hp
    refine dropEndWhile_of_getLast? fun d hd => ?_
    rw [hc] at hd
    obtain rfl := Option.some.inj hd
    exact hp
  have blanks : trimEnd cs = cs := kept _ blank
  rw [Chars.unterminated, blanks, kept _ (by simpa using semi), blanks]

/-- A text without blanks may be compared, if it is no operator. -/
theorem isOperand_of_solid {c : Char} (h : ∀ d ∈ c :: cs, isBlank d = false ∧ d ≠ ';')
    (not : c ≠ '!') (equals : c :: cs ≠ "==".toList) (bars : c :: cs ≠ "||".toList) :
    IsOperand (c :: cs) := by
  have words : (c :: cs).splitOn ' ' = [c :: cs] :=
    splitOn_eq_singleton fun hc => absurd (h ' ' hc).1 (by decide)
  refine ⟨by simp [h c (by simp), not], ?_, ?_, ?_⟩
  · obtain ⟨d, hd⟩ := Option.isSome_iff_exists.1 (getLast?_isSome.2 (cons_ne_nil c cs))
    rw [hd]
    simp [h d (mem_of_getLast? hd)]
  · rw [words, mem_singleton]
    exact equals.symm
  · rw [words, mem_singleton]
    exact bars.symm

def comparison (operand value : List Char) : List (List Char) :=
  operand.splitOn ' ' ++ "==".toList :: value.splitOn ' '

theorem splitOn_comparison (operand value : List Char) :
    (operand ++ " == ".toList ++ value).splitOn ' ' = comparison operand value := by
  have shape : operand ++ " == ".toList ++ value =
      operand ++ ' ' :: ("==".toList ++ ' ' :: value) := by simp
  rw [shape, splitOn_append_cons_self, splitOn_append_cons_self]
  rfl

theorem sides?_comparison (ho : IsOperand operand) (hv : IsOperand value) :
    sides? (comparison operand value) = some (operand, value) := by
  rw [sides?, comparison, splitOn_append_cons_self, splitOn_eq_singleton ho.equals,
    splitOn_eq_singleton hv.equals]
  simp

theorem bars_not_mem_comparison (ho : IsOperand operand) (hv : IsOperand value) :
    "||".toList ∉ comparison operand value := by
  simpa [comparison] using ⟨ho.bars, hv.bars⟩

def comparisonText (operand : List Char) (values : List (List Char)) : List Char :=
  " || ".toList.intercalate (values.map fun value => operand ++ " == ".toList ++ value)

theorem comparisonText_cons_cons (operand value next : List Char) (values : List (List Char)) :
    comparisonText operand (value :: next :: values) =
      operand ++ " == ".toList ++ value ++ " || ".toList ++
        comparisonText operand (next :: values) := by
  rw [comparisonText, map_cons, map_cons, intercalate_cons_cons, ← map_cons,
    comparisonText]

theorem splitOn_comparisonText (operand value : List Char) (values : List (List Char)) :
    (comparisonText operand (value :: values)).splitOn ' ' =
      ["||".toList].intercalate ((value :: values).map (comparison operand)) := by
  induction values generalizing value with
  | nil =>
    rw [comparisonText, map_singleton, intercalate_singleton, splitOn_comparison,
      map_singleton, intercalate_singleton]
  | cons next values ih =>
    have shape : comparisonText operand (value :: next :: values) =
        (operand ++ " == ".toList ++ value) ++ ' ' ::
          ("||".toList ++ ' ' :: comparisonText operand (next :: values)) := by
      rw [comparisonText_cons_cons]
      simp
    rw [shape, splitOn_append_cons_self, splitOn_append_cons_self, splitOn_comparison, ih,
      map_cons]
    simp only [map_cons, intercalate_cons_cons, append_assoc]
    rfl

theorem comparisons?_map {operand value : List Char} {values : List (List Char)}
    (ho : IsOperand operand) (hv : ∀ v ∈ value :: values, IsOperand v) :
    comparisons? ((value :: values).map (comparison operand)) =
      some (operand, value :: values) := by
  induction values generalizing value with
  | nil =>
    rw [map_singleton, comparisons?, sides?_comparison ho (hv value (by simp))]
    rfl
  | cons next values ih =>
    have rest := ih fun v hm => hv v (mem_cons_of_mem _ hm)
    rw [map_cons, map_cons, comparisons?, ← map_cons, rest,
      sides?_comparison ho (hv value (by simp))]
    · simp
    · simp

theorem comparisonText_ends (operand value : List Char) (values : List (List Char)) :
    ∃ front, ∃ last ∈ value :: values,
      comparisonText operand (value :: values) = operand ++ ' ' :: front ++ last := by
  induction values generalizing value with
  | nil => exact ⟨"== ".toList, value, by simp, by simp [comparisonText]⟩
  | cons next values ih =>
    obtain ⟨front, last, hl, he⟩ := ih next
    refine ⟨"== ".toList ++ value ++ " || ".toList ++ operand ++ ' ' :: front, last,
      mem_cons_of_mem _ hl, ?_⟩
    rw [comparisonText_cons_cons, he]
    simp

/-- A nested text before something else does not start a group around both. -/
theorem isWrapped_append {rest : List Char} (h : Nested cs) (hc : cs ≠ []) (hr : rest ≠ []) :
    isWrapped (cs ++ rest) = false := by
  by_contra hw
  have hw : isWrapped (cs ++ rest) = true := by simpa using hw
  simp only [isWrapped, Bool.and_eq_true, beq_iff_eq] at hw
  obtain ⟨⟨head, -⟩, closes⟩ := hw
  obtain ⟨c, cs, rfl⟩ := exists_cons_of_ne_nil hc
  obtain rfl : c = '(' := by simpa using head
  rw [cons_append, closesLast] at closes
  have opened : openAfter ([] ++ ['(']) cs = some [] := by
    rw [Nested, openAfter_of_isOpening (by decide)] at h
    exact h
  obtain ⟨above, ha, -⟩ := openAfter_of_closesLast [] hr opened closes
  simp at ha

/-- **Comparisons are read as such.** -/
theorem test_comparisonText {values : List (List Char)} (ho : IsOperand operand)
    (hn : Nested operand) (hv : ∀ v ∈ value :: values, IsOperand v) :
    test (comparisonText operand (value :: values)) =
      .atom (.oneOf (String.ofList operand) ((value :: values).map String.ofList)) := by
  obtain ⟨front, last, hl, ends⟩ := comparisonText_ends operand value values
  have trimmed : trim (comparisonText operand (value :: values)) =
      comparisonText operand (value :: values) := by
    have start : trimStart (comparisonText operand (value :: values)) =
        comparisonText operand (value :: values) := by
      obtain ⟨c, cs, hc, blank, -⟩ := ho.exists_cons
      rw [ends, hc]
      exact trimStart_cons blank _
    rw [trim, start]
    refine dropEndWhile_of_getLast? fun c hc => ?_
    obtain ⟨d, hd, blank, -⟩ := (hv last hl).exists_getLast?
    rw [ends, getLast?_append, hd, Option.some_or] at hc
    obtain rfl := Option.some.inj hc
    exact blank
  have alone : ungrouped (comparisonText operand (value :: values)) =
      comparisonText operand (value :: values) := by
    rw [ungrouped, trimmed, ungroupedFrom, dif_neg]
    rw [ends, append_assoc, isWrapped_append hn ho.ne_nil (by simp)]
    decide
  have plain : negated? (comparisonText operand (value :: values)) = none := by
    rw [ends, append_assoc]
    obtain ⟨c, cs, rfl, -, not⟩ := ho.exists_cons
    simp [negated?, not]
  rw [test_eq, alone, plain]
  have groups : ∀ words ∈ (value :: values).map (comparison operand), "||".toList ∉ words := by
    intro words hw
    obtain ⟨v, hm, rfl⟩ := mem_map.1 hw
    exact bars_not_mem_comparison ho (hv v hm)
  simp only [atom, splitOn_comparisonText]
  rw [splitOn_intercalate _ groups (by simp), comparisons?_map ho hv]

end Chars

end Ferric
