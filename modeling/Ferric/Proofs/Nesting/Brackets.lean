import Mathlib.Data.List.Basic
import Ferric.Draft.Basic
import Ferric.Identifier
import Ferric.Literal
import Ferric.Proofs.Text.Layout

/-!
# Nested brackets

Emitted text is built from pieces whose brackets match, by putting pieces side by side and by
putting brackets around them.  `Nested` says that the brackets of a text match; the lemmas follow
the operations of `Ferric.Fragment`, so that the property goes from the pieces to the whole.

Whether the brackets of a text match depends on its brackets alone.  Most operations on texts leave
them as they are: trimming and indenting, dropping the suffix of a literal or the qualifiers of a
type, keeping reserved words apart.  The others put texts side by side, with fixed text around
them, so that it is enough to follow which brackets are open from left to right.

## Main definitions

* `Chars.Nested`: every bracket is closed by its partner, and nothing else is closed.
* `Chars.brackets`, `Chars.openAfter`: the brackets of a text, and those that are open after it.
* `Leaves`: the brackets that a text opens and does not close.
* `Balanced`: a text whose brackets match.

## Main results

* `Chars.Nested.between`: between the parentheses that enclose a nested text stands a nested text.
* `Chars.isWrapped_parens`: parentheses around a nested text enclose the whole of it.
* `Chars.nested_congr`: texts with the same brackets are nested alike.
* `Leaves.text`, `Leaves.literal`: texts that are put behind another.
* `Balanced.block`: statements in braces.
-/

namespace Ferric

open List

namespace Chars

/-- Whether a character opens a bracket. -/
def isOpening (c : Char) : Bool :=
  c == '(' || c == '[' || c == '\x7b'

/-- Whether a character closes a bracket. -/
def isClosing (c : Char) : Bool :=
  c == ')' || c == ']' || c == '\x7d'

/-- The bracket that a closing bracket closes. -/
def partner (c : Char) : Char :=
  if c == ')' then '(' else if c == ']' then '[' else '\x7b'

def isBracket (c : Char) : Bool :=
  isOpening c || isClosing c

/-- **The brackets that are open after a text**, the innermost first, given those that are open
before it; none when a bracket is closed that is not the innermost open one. -/
def openAfter : List Char → List Char → Option (List Char)
  | stack, [] => some stack
  | stack, c :: cs =>
    if isOpening c then openAfter (c :: stack) cs
    else if isClosing c then
      match stack with
      | [] => none
      | o :: rest => if o = partner c then openAfter rest cs else none
    else openAfter stack cs

/-- **Nested text**: all brackets match. -/
def Nested (cs : List Char) : Prop :=
  openAfter [] cs = some []

instance : DecidablePred Nested := fun cs =>
  inferInstanceAs (Decidable (openAfter [] cs = some []))

variable {c : Char} {stack left cs as bs : List Char} {p : Char → Bool}

theorem openAfter_of_isOpening (h : isOpening c = true) (stack cs : List Char) :
    openAfter stack (c :: cs) = openAfter (c :: stack) cs := by
  simp [openAfter, h]

theorem openAfter_of_isClosing (ho : isOpening c = false) (hc : isClosing c = true)
    (stack cs : List Char) : openAfter (partner c :: stack) (c :: cs) = openAfter stack cs := by
  simp [openAfter, ho, hc]

theorem openAfter_of_other (ho : isOpening c = false) (hc : isClosing c = false)
    (stack cs : List Char) : openAfter stack (c :: cs) = openAfter stack cs := by
  simp [openAfter, ho, hc]

/-! ## Side by side -/

theorem openAfter_append (stack as bs : List Char) :
    openAfter stack (as ++ bs) = (openAfter stack as).bind (openAfter · bs) := by
  induction as generalizing stack with
  | nil => rfl
  | cons c as ih =>
    simp only [cons_append, openAfter]
    split
    · exact ih _
    · split
      · cases stack with
        | nil => rfl
        | cons o rest =>
          simp only
          split
          · exact ih _
          · rfl
      · exact ih _

/-- Brackets that were open before and are not reached stay open. -/
theorem openAfter_append_stack (h : openAfter stack cs = some left) (base : List Char) :
    openAfter (stack ++ base) cs = some (left ++ base) := by
  induction cs generalizing stack with
  | nil =>
    obtain rfl : stack = left := by simpa [openAfter] using h
    rfl
  | cons c cs ih =>
    simp only [openAfter] at h ⊢
    split at h
    · rename_i opening
      rw [if_pos opening]
      exact ih h
    · rename_i opening
      rw [if_neg opening]
      split at h
      · rename_i closing
        rw [if_pos closing]
        cases stack with
        | nil => simp at h
        | cons o rest =>
          simp only [cons_append] at h ⊢
          split at h
          · rename_i partnered
            rw [if_pos partnered]
            exact ih h
          · simp at h
      · rename_i closing
        rw [if_neg closing]
        exact ih h

theorem Nested.openAfter_eq (h : Nested cs) (stack : List Char) :
    openAfter stack cs = some stack := by
  simpa using openAfter_append_stack h stack

theorem nested_nil : Nested [] := rfl

theorem nested_append_right (ha : Nested as) : Nested (as ++ bs) ↔ Nested bs := by
  simp only [Nested, openAfter_append, ha.openAfter_eq, Option.bind_some]

theorem nested_append_left (hb : Nested bs) : Nested (as ++ bs) ↔ Nested as := by
  simp only [Nested, openAfter_append]
  constructor
  · intro h
    obtain ⟨stack, hs, he⟩ := Option.bind_eq_some_iff.1 h
    rw [hb.openAfter_eq, Option.some.injEq] at he
    rw [hs, he]
  · intro h
    rw [h, Option.bind_some, hb.openAfter_eq]

theorem Nested.append (ha : Nested as) (hb : Nested bs) : Nested (as ++ bs) :=
  (nested_append_right ha).2 hb

theorem nested_intercalate {separator : List Char} {parts : List (List Char)}
    (hs : Nested separator) (h : ∀ part ∈ parts, Nested part) :
    Nested (separator.intercalate parts) := by
  induction parts with
  | nil => exact nested_nil
  | cons part parts ih =>
    have hp : Nested part := h part (by simp)
    have ih := ih fun p hp => h p (by simp [hp])
    cases parts with
    | nil => simpa using hp
    | cons next parts =>
      rw [intercalate_cons_cons]
      exact (hp.append hs).append ih

/-! ## Other characters -/

theorem nested_of_not_bracket (h : ∀ c ∈ cs, isBracket c = false) : Nested cs := by
  induction cs with
  | nil => rfl
  | cons c cs ih =>
    have hc := h c (by simp)
    simp only [isBracket, Bool.or_eq_false_iff] at hc
    simp only [Nested, openAfter, hc.1, hc.2]
    exact ih fun d hd => h d (by simp [hd])

theorem isBracket_eq_false (others : ∀ c ∈ ['(', '[', '\x7b', ')', ']', '\x7d'], p c = false)
    (h : p c = true) : isBracket c = false := by
  cases hb : isBracket c with
  | false => rfl
  | true =>
    simp only [isBracket, isOpening, isClosing, Bool.or_eq_true, beq_iff_eq, or_assoc] at hb
    rw [others c (by simpa using hb)] at h
    cases h

theorem isBracket_of_isBlank (h : isBlank c = true) : isBracket c = false :=
  isBracket_eq_false (by decide) h

theorem nested_dropWhile (hp : ∀ c, p c = true → isBracket c = false) (cs : List Char) :
    Nested (cs.dropWhile p) ↔ Nested cs := by
  have front : Nested (cs.takeWhile p) :=
    nested_of_not_bracket fun c hc => hp c (mem_takeWhile_imp hc)
  rw [← nested_append_right front, takeWhile_append_dropWhile]

theorem nested_dropEndWhile (hp : ∀ c, p c = true → isBracket c = false) (cs : List Char) :
    Nested (dropEndWhile p cs) ↔ Nested cs := by
  have back : Nested (cs.reverse.takeWhile p).reverse :=
    nested_of_not_bracket fun c hc => hp c (mem_takeWhile_imp (mem_reverse.1 hc))
  rw [← nested_append_left back, dropEndWhile_append]

@[simp] theorem nested_trimStart (cs : List Char) : Nested (trimStart cs) ↔ Nested cs :=
  nested_dropWhile (fun _ => isBracket_of_isBlank) cs

@[simp] theorem nested_trimEnd (cs : List Char) : Nested (trimEnd cs) ↔ Nested cs :=
  nested_dropEndWhile (fun _ => isBracket_of_isBlank) cs

@[simp] theorem nested_trim (cs : List Char) : Nested (trim cs) ↔ Nested cs := by
  rw [trim, nested_trimEnd, nested_trimStart]

@[simp] theorem nested_asExpression (cs : List Char) : Nested (asExpression cs) ↔ Nested cs := by
  rw [asExpression, nested_trimEnd, nested_dropEndWhile, nested_trim]
  intro c hc
  obtain rfl : c = ';' := by simpa using hc
  rfl

@[simp] theorem nested_asStatement (cs : List Char) : Nested (asStatement cs) ↔ Nested cs := by
  simp only [asStatement]
  split
  · exact nested_trimEnd cs
  · rw [nested_append_left (by decide), nested_trimEnd]

/-! ## Brackets around a text -/

theorem Nested.bracket (h : Nested cs) {o : Char} (ho : isOpening o = true)
    (hc : isClosing c = true) (hcn : isOpening c = false) (hp : o = partner c) :
    Nested (o :: cs ++ [c]) := by
  rw [Nested, cons_append, openAfter, if_pos ho, openAfter_append, h.openAfter_eq]
  simp [openAfter, hc, hcn, hp]

theorem Nested.parens (h : Nested cs) : Nested ('(' :: cs ++ [')']) :=
  h.bracket rfl rfl rfl rfl

theorem Nested.braces (h : Nested cs) : Nested ('\x7b' :: cs ++ ['\x7d']) :=
  h.bracket rfl rfl rfl rfl

theorem nested_grouped (h : Nested cs) : Nested (grouped cs) := by
  simp only [grouped]
  split
  · exact (nested_trim cs).2 h
  · exact ((nested_trim cs).2 h).parens

/-! ## Enclosing parentheses

`closesLast` counts parentheses only.  On nested text the count is the number of parentheses
among the open brackets, so that it tells whether the first of them is still open. -/

theorem closesLast_cons (ho : c ≠ '(') (hc : c ≠ ')') (depth : Nat) (cs : List Char) :
    closesLast depth (c :: cs) = closesLast depth cs := by
  rw [closesLast]
  · exact ho
  · exact hc

/-- What one bracket does to the open brackets and to the depth of open parentheses. -/
theorem openAfter_cons (h : openAfter stack (c :: cs) = some left) :
    (∃ next, openAfter next cs = some left ∧ isClosing c = false ∧
        (next = c :: stack ∧ isOpening c = true ∨ next = stack ∧ isOpening c = false)) ∨
      ∃ next, openAfter next cs = some left ∧ isClosing c = true ∧ isOpening c = false ∧
        stack = partner c :: next := by
  have disjoint : isOpening c = true → isClosing c = false := by
    intro opening
    simp only [isOpening, Bool.or_eq_true, beq_iff_eq] at opening
    rcases opening with (rfl | rfl) | rfl <;> rfl
  simp only [openAfter] at h
  split at h
  · rename_i opening
    exact .inl ⟨_, h, disjoint opening, .inl ⟨rfl, opening⟩⟩
  · rename_i opening
    split at h
    · rename_i closing
      cases stack with
      | nil => simp at h
      | cons o rest =>
        simp only at h
        split at h
        · rename_i partnered
          exact .inr ⟨rest, h, closing, by simpa using opening, by rw [partnered]⟩
        · simp at h
    · rename_i closing
      exact .inl ⟨_, h, by simpa using closing, .inr ⟨rfl, by simpa using opening⟩⟩

/-- The bracket that a closing bracket closes is a parenthesis only for a parenthesis. -/
theorem partner_eq_paren (h : isClosing c = true) : partner c = '(' ↔ c = ')' := by
  simp only [isClosing, Bool.or_eq_true, beq_iff_eq] at h
  rcases h with (rfl | rfl) | rfl <;> decide

/-- A nested text between parentheses comes back to the depth it started from. -/
theorem closesLast_append (h : openAfter stack cs = some left) (base : Nat) (rest : List Char) :
    closesLast (stack.count '(' + (base + 1)) (cs ++ rest) =
      closesLast (left.count '(' + (base + 1)) rest := by
  induction cs generalizing stack with
  | nil =>
    obtain rfl : stack = left := by simpa [openAfter] using h
    rfl
  | cons c cs ih =>
    rw [cons_append]
    rcases openAfter_cons h with ⟨next, hn, closing, hs⟩ | ⟨next, hn, closing, opening, rfl⟩
    · rw [← ih hn]
      have hc : c ≠ ')' := by
        rintro rfl
        exact absurd closing (by decide)
      rcases hs with ⟨rfl, opening⟩ | ⟨rfl, opening⟩
      · by_cases ho : c = '('
        · subst ho
          rw [closesLast, count_cons_self, Nat.add_right_comm]
        · rw [closesLast_cons ho hc, count_cons_of_ne ho]
      · have ho : c ≠ '(' := by
          rintro rfl
          exact absurd opening (by decide)
        rw [closesLast_cons ho hc]
    · rw [← ih hn]
      have ho : c ≠ '(' := by
        rintro rfl
        exact absurd opening (by decide)
      by_cases hc : c = ')'
      · subst hc
        have outside : (next.count '(' + 1 + (base + 1) - 1 == 0) = false := by
          rw [beq_eq_false_iff_ne]
          omega
        rw [(partner_eq_paren closing).2 rfl, count_cons_self, closesLast, outside,
          Bool.false_and, if_neg Bool.false_ne_true]
        congr 1
        omega
      · have hp : partner c ≠ '(' := fun hp => hc ((partner_eq_paren closing).1 hp)
        rw [closesLast_cons ho hc, count_cons_of_ne hp]

/-- Parentheses around a nested text enclose the whole of it. -/
theorem isWrapped_parens (h : Nested cs) : isWrapped ('(' :: cs ++ [')']) = true := by
  have closes := closesLast_append h 0 [')']
  have last : ('(' :: cs ++ [')']).getLast? = some ')' := by
    rw [getLast?_append]
    rfl
  rw [isWrapped, last, cons_append, closesLast]
  simpa [closesLast] using closes

/-- If the parenthesis at the bottom is closed only at the end, then the text before that end
leaves it alone. -/
theorem openAfter_of_closesLast (stack : List Char) {left cs rest : List Char} (hr : rest ≠ [])
    (h : openAfter (stack ++ ['(']) cs = some left)
    (closes : closesLast (stack.count '(' + 1) (cs ++ rest) = true) :
    ∃ above, left = above ++ ['('] ∧ openAfter stack cs = some above := by
  induction cs generalizing stack with
  | nil =>
    obtain rfl : stack ++ ['('] = left := by simpa [openAfter] using h
    exact ⟨stack, rfl, rfl⟩
  | cons c cs ih =>
    rw [cons_append] at closes
    rcases openAfter_cons h with ⟨next, hn, closing, hs⟩ | ⟨next, hn, closing, opening, hs⟩
    · have hc : c ≠ ')' := by
        rintro rfl
        exact absurd closing (by decide)
      rcases hs with ⟨rfl, opening⟩ | ⟨rfl, opening⟩
      · by_cases ho : c = '('
        · subst ho
          rw [closesLast] at closes
          rw [openAfter_of_isOpening opening]
          refine ih ('(' :: stack) hn ?_
          rw [count_cons_self]
          exact closes
        · rw [closesLast_cons ho hc] at closes
          rw [openAfter_of_isOpening opening]
          refine ih (c :: stack) hn ?_
          rw [count_cons_of_ne ho]
          exact closes
      · have ho : c ≠ '(' := by
          rintro rfl
          exact absurd opening (by decide)
        rw [closesLast_cons ho hc] at closes
        rw [openAfter_of_other opening closing]
        exact ih _ hn closes
    · cases stack with
      | nil =>
        -- the bottom parenthesis would be closed here, before the end
        obtain ⟨hp, -⟩ := cons.inj hs
        obtain rfl : c = ')' := (partner_eq_paren closing).1 hp.symm
        simp [closesLast, hr] at closes
      | cons o stack =>
        obtain ⟨rfl, rfl⟩ := cons.inj hs
        rw [openAfter_of_isClosing opening closing]
        refine ih stack hn ?_
        by_cases hc : c = ')'
        · subst hc
          rw [closesLast] at closes
          split at closes
          · simp at closes
          · simpa [partner] using closes
        · have ho : c ≠ '(' := by
            rintro rfl
            exact absurd opening (by decide)
          have hp : partner c ≠ '(' := fun hp => hc ((partner_eq_paren closing).1 hp)
          rw [closesLast_cons ho hc, count_cons_of_ne hp] at closes
          exact closes

/-- A text enclosed in parentheses is what stands between them. -/
theorem eq_parens_of_isWrapped (h : isWrapped cs = true) :
    ∃ mid, cs = '(' :: mid ++ [')'] ∧ closesLast 1 (mid ++ [')']) = true := by
  simp only [isWrapped, Bool.and_eq_true, beq_iff_eq] at h
  obtain ⟨⟨head, last⟩, closes⟩ := h
  cases cs with
  | nil => simp at head
  | cons c cs =>
    obtain rfl : c = '(' := by simpa using head
    rcases eq_nil_or_concat cs with rfl | ⟨mid, d, rfl⟩
    · simp at last
    · rw [concat_eq_append] at *
      rw [← cons_append, getLast?_concat, Option.some.injEq] at last
      subst last
      rw [closesLast] at closes
      exact ⟨mid, rfl, closes⟩

/-- What stands between two parentheses. -/
theorem inner_parens (mid : List Char) : inner ('(' :: mid ++ [')']) = trim mid := by
  rw [inner, cons_append, drop_one, tail_cons, dropLast_concat]

/-- The parentheses that enclose a nested text match: a nested text stands between them. -/
theorem Nested.between (h : Nested cs) (hw : isWrapped cs = true) :
    ∃ mid, cs = '(' :: mid ++ [')'] ∧ Nested mid := by
  obtain ⟨mid, rfl, closes⟩ := eq_parens_of_isWrapped hw
  have open' : openAfter ['('] (mid ++ [')']) = some [] := h
  rw [openAfter_append] at open'
  obtain ⟨left, hl, -⟩ := Option.bind_eq_some_iff.1 open'
  obtain ⟨above, rfl, ha⟩ := openAfter_of_closesLast [] (by simp) hl closes
  rw [hl, Option.bind_some] at open'
  -- the last parenthesis closes the innermost open bracket, which is the first one
  cases above with
  | nil => exact ⟨mid, rfl, ha⟩
  | cons o above => simp [openAfter, isOpening, isClosing, partner] at open'

theorem Nested.inner (h : Nested cs) (hw : isWrapped cs = true) : Nested (inner cs) := by
  obtain ⟨mid, rfl, nested⟩ := h.between hw
  rwa [inner_parens, nested_trim]

theorem nested_ungroupedFrom (h : Nested cs) : Nested (ungroupedFrom cs) := by
  fun_induction ungroupedFrom cs with
  | case1 cs hw _ ih => exact ih (h.inner hw)
  | case2 cs hw => exact h

theorem nested_ungrouped (h : Nested cs) : Nested (ungrouped cs) :=
  nested_ungroupedFrom ((nested_trim cs).2 h)

/-! ## Texts without the parentheses around them -/

theorem trim_ungroupedFrom (h : trim cs = cs) :
    trim (ungroupedFrom cs) = ungroupedFrom cs := by
  fun_induction ungroupedFrom cs with
  | case1 cs hw smaller ih => exact ih (trim_trim _)
  | case2 cs hw => exact h

theorem isWrapped_ungroupedFrom (cs : List Char) : isWrapped (ungroupedFrom cs) = false := by
  fun_induction ungroupedFrom cs with
  | case1 cs hw smaller ih => exact ih
  | case2 cs hw => simpa using hw

/-- No group is left when the groups around a text have been taken away. -/
theorem ungrouped_ungrouped (cs : List Char) : ungrouped (ungrouped cs) = ungrouped cs := by
  rw [ungrouped, ungrouped, trim_ungroupedFrom (trim_trim cs), ungroupedFrom,
    dif_neg (by simp [isWrapped_ungroupedFrom])]

/-- A text before a closing parenthesis has no blank at its end. -/
theorem trim_closed (h : isBlank c = false) (cs : List Char) :
    trim (c :: cs ++ [')']) = c :: cs ++ [')'] := by
  rw [trim, cons_append, trimStart_cons h, ← cons_append]
  refine dropEndWhile_of_getLast? fun d hd => ?_
  rw [getLast?_concat] at hd
  obtain rfl : ')' = d := by simpa using hd
  decide

/-- Parentheses around a text do not count. -/
theorem ungrouped_parens (h : Nested cs) :
    ungrouped ('(' :: cs ++ [')']) = ungrouped cs := by
  rw [ungrouped, trim_closed (by decide), ungroupedFrom, dif_pos (isWrapped_parens h)]
  exact congrArg ungroupedFrom (inner_parens cs)

end Chars

section

namespace Chars

/-- **The brackets of a text**, in order. -/
def brackets (cs : List Char) : List Char :=
  cs.filter isBracket

@[simp] theorem brackets_nil : brackets [] = [] := rfl

@[simp] theorem brackets_append (as bs : List Char) :
    brackets (as ++ bs) = brackets as ++ brackets bs :=
  filter_append as bs

theorem brackets_cons (c : Char) (cs : List Char) :
    brackets (c :: cs) = brackets [c] ++ brackets cs :=
  brackets_append [c] cs

theorem brackets_flatten (parts : List (List Char)) :
    brackets parts.flatten = parts.flatMap brackets := by
  rw [brackets, filter_flatten, flatMap_def]
  rfl

theorem brackets_eq_nil {cs : List Char} : brackets cs = [] ↔ ∀ c ∈ cs, isBracket c = false := by
  simp [brackets]

theorem brackets_cons_of_not {c : Char} (h : isBracket c = false) (cs : List Char) :
    brackets (c :: cs) = brackets cs := by
  simp [brackets, h]

/-- Other characters than brackets do not matter. -/
theorem openAfter_brackets (stack cs : List Char) :
    openAfter stack (brackets cs) = openAfter stack cs := by
  induction cs generalizing stack with
  | nil => rfl
  | cons c cs ih =>
    cases bracket : isBracket c with
    | false =>
      rw [brackets_cons_of_not bracket, ih]
      obtain ⟨opening, closing⟩ := Bool.or_eq_false_iff.1 bracket
      exact (openAfter_of_other opening closing stack cs).symm
    | true =>
      have first : brackets (c :: cs) = c :: brackets cs := by simp [brackets, bracket]
      rw [first]
      simp only [openAfter, ih]

/-- **Texts with the same brackets are nested alike.** -/
theorem nested_congr {as bs : List Char} (h : brackets as = brackets bs) :
    Nested as ↔ Nested bs := by
  rw [Nested, Nested, ← openAfter_brackets [] as, h, openAfter_brackets]

/-! ## Blanks and lines -/

theorem brackets_dropWhile {p : Char → Bool} (hp : ∀ c, p c = true → isBracket c = false)
    (cs : List Char) : brackets (cs.dropWhile p) = brackets cs := by
  have front : brackets (cs.takeWhile p) = [] :=
    brackets_eq_nil.2 fun c hc => hp c (mem_takeWhile_imp hc)
  have whole := congrArg brackets (takeWhile_append_dropWhile (p := p) (l := cs))
  rwa [brackets_append, front, nil_append] at whole

theorem brackets_dropEndWhile {p : Char → Bool} (hp : ∀ c, p c = true → isBracket c = false)
    (cs : List Char) : brackets (dropEndWhile p cs) = brackets cs := by
  have back : brackets (cs.reverse.takeWhile p).reverse = [] :=
    brackets_eq_nil.2 fun c hc => hp c (mem_takeWhile_imp (mem_reverse.1 hc))
  have whole := congrArg brackets (dropEndWhile_append p cs)
  rwa [brackets_append, back, append_nil] at whole

variable (cs : List Char)

@[simp] theorem brackets_trimStart : brackets (trimStart cs) = brackets cs :=
  brackets_dropWhile (fun _ => isBracket_of_isBlank) cs

@[simp] theorem brackets_trim : brackets (trim cs) = brackets cs := by
  rw [trim, trimEnd, brackets_dropEndWhile fun _ => isBracket_of_isBlank, brackets_trimStart]

theorem flatMap_brackets_lines : (lines cs).flatMap brackets = brackets cs := by
  fun_induction lines cs with
  | case1 => rfl
  | case2 cs ih => exact ih
  | case3 cs ih => exact ih
  | case4 c cs _ _ none ih =>
    rw [none] at ih
    rw [flatMap_singleton, brackets_cons c cs, ← ih]
    simp
  | case5 c cs _ _ line rest split ih =>
    -- the character joins the line that the rest starts with
    rw [split] at ih
    rw [flatMap_cons, brackets_cons c line, brackets_cons c cs, ← ih, flatMap_cons,
      append_assoc]

theorem brackets_indentLine (depth : Nat) (line : List Char) :
    brackets (indentLine depth line) = brackets line := by
  unfold indentLine
  split
  · rename_i blank
    rw [isBlankText, all_eq_true] at blank
    rw [brackets_eq_nil.2 fun c hc => isBracket_of_isBlank (blank c hc)]
    rfl
  · have margin : brackets (replicate depth level).flatten = [] := by
      rw [brackets_flatten, flatMap_replicate]
      simp [show brackets level = [] from rfl]
    simp [margin, brackets_cons_of_not (show isBracket '\n' = false from rfl)]

/-- Indentation moves lines and leaves their brackets. -/
@[simp] theorem brackets_indented (depth : Nat) (cs : List Char) :
    brackets (indented depth cs) = brackets cs := by
  rw [indented, flatMap_def, brackets_flatten, flatMap_map]
  simp only [brackets_indentLine]
  exact flatMap_brackets_lines cs

theorem wordsFrom_solid {c : Char} (h : isBlank c = false) (word cs : List Char) :
    wordsFrom word (c :: cs) = wordsFrom (c :: word) cs := by
  have solid : ¬ isBlank c = true := by simp [h]
  cases word <;> exact if_neg solid

/-- A blank ends the word that is being read, if there is one. -/
theorem wordsFrom_blank {c : Char} (h : isBlank c = true) (word cs : List Char) :
    wordsFrom word (c :: cs) = wordsFrom word [] ++ words cs := by
  cases word <;> exact if_pos h

theorem flatMap_brackets_wordsFrom (word cs : List Char) :
    (wordsFrom word cs).flatMap brackets = brackets word.reverse ++ brackets cs := by
  have ended (word : List Char) : (wordsFrom word []).flatMap brackets = brackets word.reverse := by
    cases word with
    | nil => rfl
    | cons d word => exact flatMap_singleton brackets _
  induction cs generalizing word with
  | nil => rw [ended, brackets_nil, append_nil]
  | cons c cs ih =>
    by_cases blank : isBlank c = true
    · rw [wordsFrom_blank blank, flatMap_append, ended, words, ih,
        brackets_cons_of_not (isBracket_of_isBlank blank)]
      rfl
    · rw [wordsFrom_solid (by simpa using blank), ih, reverse_cons, brackets_append, append_assoc,
        ← brackets_cons]

theorem flatMap_brackets_words : (words cs).flatMap brackets = brackets cs :=
  flatMap_brackets_wordsFrom [] cs

end Chars

open Chars

/-! ## Texts from left to right -/

/-- **The brackets that a text opens and does not close**, the innermost first. -/
def Leaves (stack : List Char) (s : String) : Prop :=
  openAfter [] s.toList = some stack

/-- **A text whose brackets match.** -/
def Balanced (s : String) : Prop :=
  Nested s.toList

instance : DecidablePred Balanced := fun s =>
  inferInstanceAs (Decidable (Nested s.toList))

namespace Leaves

variable {stack : List Char} {a b : String}

/-- A text whose brackets match leaves those open that were open before it. -/
theorem text (ha : Leaves stack a) (hb : Balanced b) : Leaves stack (a ++ b) := by
  rw [Leaves, String.toList_append, openAfter_append, ha, Option.bind_some]
  exact Nested.openAfter_eq hb stack

/-- Texts with the same brackets leave the same ones open. -/
theorem congr (h : brackets a.toList = brackets b.toList) (hb : Leaves stack b) :
    Leaves stack a := by
  rw [Leaves, ← openAfter_brackets, h, openAfter_brackets]
  exact hb

/-- Fixed text opens and closes brackets. -/
theorem literal (ha : Leaves stack a) {left : List Char}
    (hb : openAfter stack b.toList = some left) : Leaves left (a ++ b) := by
  rw [Leaves, String.toList_append, openAfter_append, ha, Option.bind_some, hb]

theorem indented (h : Leaves stack a) (depth : Nat) : Leaves stack (Text.indented depth a) :=
  h.congr (by rw [Text.toList_indented, brackets_indented])

end Leaves

namespace Balanced

variable {a b s : String}

theorem congr (h : brackets a.toList = brackets b.toList) (hb : Balanced b) : Balanced a :=
  (nested_congr h).2 hb

/-- A text whose brackets match opens none that it does not close. -/
theorem leaves (h : Balanced s) : Leaves [] s := h

theorem append (ha : Balanced a) (hb : Balanced b) : Balanced (a ++ b) :=
  ha.leaves.text hb

/-- Behind a text whose brackets match, a text leaves the same ones open. -/
theorem before (ha : Balanced a) {stack : List Char} (hb : Leaves stack b) :
    Leaves stack (a ++ b) := by
  rw [Leaves, String.toList_append, openAfter_append, Nested.openAfter_eq ha]
  exact hb

theorem onChars {f : List Char → List Char} (hf : ∀ cs, brackets (f cs) = brackets cs)
    (h : Balanced s) : Balanced (Text.onChars f s) :=
  h.congr (by rw [Text.toList_onChars, hf])

theorem joined {separator : String} {parts : List String} (hs : Balanced separator)
    (h : ∀ part ∈ parts, Balanced part) : Balanced (Text.joined separator parts) := by
  rw [Balanced, Text.joined, String.toList_intercalate]
  refine nested_intercalate hs fun part hp => ?_
  obtain ⟨s, hs, rfl⟩ := mem_map.1 hp
  exact h s hs

theorem stacked {parts : List String} (h : ∀ part ∈ parts, Balanced part) :
    Balanced (Text.stacked parts) :=
  joined (by decide) h

theorem join {parts : List String} (h : ∀ part ∈ parts, Balanced part) :
    Balanced (String.join parts) := by
  induction parts with
  | nil => rfl
  | cons part parts ih =>
    rw [String.join_cons]
    exact (h part (by simp)).append (ih fun p hp => h p (by simp [hp]))

/-! ## Fragments -/

theorem asExpression (h : Balanced s) : Balanced (Fragment.asExpression s) := by
  rw [Balanced, Fragment.asExpression, Text.toList_onChars, nested_asExpression]
  exact h

theorem asStatement (h : Balanced s) : Balanced (Fragment.asStatement s) := by
  rw [Balanced, Fragment.asStatement, Text.toList_onChars, nested_asStatement]
  exact h

theorem grouped (h : Balanced s) : Balanced (Fragment.grouped s) := by
  rw [Balanced, Fragment.grouped, Text.toList_onChars]
  exact nested_grouped h

theorem ungrouped (h : Balanced s) : Balanced (Fragment.ungrouped s) := by
  rw [Balanced, Fragment.ungrouped, Text.toList_onChars]
  exact nested_ungrouped h

theorem indented (h : Balanced s) (depth : Nat) : Balanced (Text.indented depth s) :=
  h.leaves.indented depth

/-- **Statements in braces.** -/
theorem block {statements : List String} (h : ∀ s ∈ statements, Balanced s) :
    Balanced (Fragment.block statements) := by
  have inside : Nested ('\n' :: (statements.map String.toList).flatMap (Chars.indented 1)) := by
    -- each statement is indented by itself, and the line break in front is no bracket
    rw [flatMap_map]
    induction statements with
    | nil => rfl
    | cons s statements ih =>
      have first : Nested (Chars.indented 1 s.toList) :=
        (nested_congr (brackets_indented 1 _)).2 (h s (by simp))
      have rest := ih fun t ht => h t (by simp [ht])
      exact first.append rest
  rw [Balanced, Fragment.block, String.toList_ofList, Chars.block]
  exact inside.braces

end Balanced

/-! ## Names and literals -/

/-- A name is kept unless it is a reserved word. -/
theorem sanitize_cases (x : String) :
    sanitize x = x ∨ (x ∈ pathWords ∧ sanitize x = x ++ "_") ∨
      (x ∈ rawWords ∧ sanitize x = "r#" ++ x) := by
  unfold sanitize
  split
  · rename_i path
    exact .inr (.inl ⟨path, rfl⟩)
  · split
    · rename_i raw
      exact .inr (.inr ⟨raw, rfl⟩)
    · exact .inl rfl

/-- An emitted name has the characters of the name, and marks. -/
theorem mem_toList_sanitize {name : String} {c : Char} (h : c ∈ (sanitize name).toList) :
    c ∈ name.toList ∨ c ∈ ['r', '#', '_'] := by
  rcases sanitize_cases name with same | ⟨-, same⟩ | ⟨-, same⟩ <;> rw [same] at h
  · exact .inl h
  · rw [String.toList_append, mem_append] at h
    refine h.imp_right fun h => ?_
    obtain rfl : c = '_' := by simpa using h
    simp
  · rw [String.toList_append, mem_append] at h
    refine h.symm.imp_right fun h => ?_
    obtain rfl | rfl : c = 'r' ∨ c = '#' := by simpa using h
    all_goals simp

theorem brackets_sanitize (name : String) :
    brackets (sanitize name).toList = brackets name.toList := by
  rcases sanitize_cases name with same | ⟨-, same⟩ | ⟨-, same⟩ <;> rw [same]
  · rw [String.toList_append, brackets_append]
    exact append_nil _
  · rw [String.toList_append, brackets_append]
    rfl

theorem Balanced.sanitize {name : String} (h : Balanced name) : Balanced (sanitize name) :=
  h.congr (brackets_sanitize name)

namespace Chars

theorem brackets_integerLiteral (token : List Char) :
    brackets (integerLiteral token) = brackets token := by
  have suffix : ∀ c, isIntegerSuffix c = true → isBracket c = false := by
    intro c hc
    simp only [isIntegerSuffix, Bool.or_eq_true, beq_iff_eq] at hc
    rcases hc with ((rfl | rfl) | rfl) | rfl <;> rfl
  rw [← brackets_dropEndWhile suffix token]
  unfold integerLiteral
  generalize dropEndWhile isIntegerSuffix token = digits
  split
  · rfl
  · rfl
  · split
    · rfl
    · rfl
  · rfl

theorem brackets_splitPoint {letter : Char} {body split : List Char}
    (h : splitPoint letter body = some split) : brackets split = brackets body := by
  fun_induction splitPoint letter body generalizing split with
  | case1 => simp at h
  | case2 c cs hc =>
    obtain rfl := Option.some.inj h
    rfl
  | case3 c cs hc ih =>
    obtain ⟨rest, found, rfl⟩ := Option.map_eq_some_iff.1 h
    rw [brackets_cons, ih found, ← brackets_cons]
  | case4 c cs _ ih =>
    obtain ⟨rest, found, rfl⟩ := Option.map_eq_some_iff.1 h
    rw [brackets_cons, ih found, ← brackets_cons]

theorem brackets_completedPoint (body : List Char) :
    brackets (completedPoint body) = brackets body := by
  have tail : ∀ cs : List Char, brackets (if cs.getLast? == some '.' then cs ++ ['0'] else cs) =
      brackets cs := by
    intro cs
    split
    · rw [brackets_append]
      exact append_nil _
    · rfl
  have head : ∀ cs : List Char, brackets (if cs.head? == some '.' then '0' :: cs else cs) =
      brackets cs := by
    intro cs
    split
    · rfl
    · rfl
  unfold completedPoint
  dsimp only
  -- a digit is added at each end first, then one in front of the exponent
  rw [← tail body, ← head (if body.getLast? == some '.' then body ++ ['0'] else body)]
  generalize (if (if body.getLast? == some '.' then body ++ ['0'] else body).head? == some '.' then
    '0' :: _ else _) = full
  cases found : (splitPoint 'e' full).or (splitPoint 'E' full) with
  | none => rfl
  | some split =>
    rcases Option.or_eq_some_iff.1 found with found | ⟨-, found⟩
    · exact brackets_splitPoint found
    · exact brackets_splitPoint found

/-- A last character that is no bracket may be left out. -/
theorem brackets_dropLast {cs : List Char} {c : Char} (h : cs.getLast? = some c)
    (hc : isBracket c = false) : brackets cs.dropLast = brackets cs := by
  obtain ⟨front, rfl⟩ := getLast?_eq_some_iff.1 h
  rw [dropLast_concat, brackets_append, brackets_cons_of_not hc]
  simp

theorem brackets_floatingLiteral (token : List Char) :
    brackets (floatingLiteral token) = brackets token := by
  unfold floatingLiteral
  dsimp only
  split
  · rename_i single
    simp only [Bool.and_eq_true, Bool.or_eq_true, beq_iff_eq] at single
    rw [brackets_append, brackets_completedPoint]
    have front : brackets token.dropLast = brackets token :=
      single.2.elim (brackets_dropLast · rfl) (brackets_dropLast · rfl)
    rw [front]
    exact append_nil _
  · rw [brackets_completedPoint, brackets_dropEndWhile]
    intro c hc
    simp only [Bool.or_eq_true, beq_iff_eq] at hc
    rcases hc with rfl | rfl <;> rfl

theorem brackets_unquoted? {cs content : List Char} (h : unquoted? cs = some content) :
    brackets content = brackets cs := by
  unfold unquoted? at h
  split at h
  · split at h
    · rename_i last
      obtain rfl := Option.some.inj h
      exact brackets_dropLast (by simpa using last) rfl
    · simp at h
  · simp at h

theorem brackets_characterLiteral (token : List Char) :
    brackets (characterLiteral token) = brackets token := by
  have mark : ∀ c, isWidthMark c = true → isBracket c = false := by
    intro c hc
    simp only [isWidthMark, Bool.or_eq_true, beq_iff_eq] at hc
    rcases hc with (rfl | rfl) | rfl <;> rfl
  have content : brackets ((unquoted? (token.dropWhile isWidthMark)).getD
      (token.dropWhile isWidthMark)) = brackets token := by
    rw [← brackets_dropWhile mark token]
    cases quoted : unquoted? (token.dropWhile isWidthMark) with
    | none => rfl
    | some content => exact brackets_unquoted? quoted
  unfold characterLiteral
  dsimp only
  rw [← content]
  generalize (unquoted? (token.dropWhile isWidthMark)).getD (token.dropWhile isWidthMark) = text
  split
  · rename_i zero
    simp only [Bool.or_eq_true, beq_iff_eq] at zero
    rcases zero with (rfl | rfl) | rfl <;> rfl
  · rw [brackets_append]
    exact append_nil _

theorem brackets_stringLiteral (spelling : List Char) :
    brackets (stringLiteral spelling) = brackets spelling := by
  unfold stringLiteral
  dsimp only
  cases found : stringMarks.findSome? fun mark =>
      (mark.isPrefixOf? spelling).filter fun rest => rest.head? == some '"' with
  | none => rfl
  | some rest =>
    -- what is dropped is one of the marks in front of the quote
    obtain ⟨mark, hm, hr⟩ := exists_of_findSome?_eq_some found
    obtain ⟨hr, -⟩ := Option.filter_eq_some_iff.1 hr
    have marks : ∀ m ∈ stringMarks, brackets m = [] := by decide
    rw [Option.getD_some, ← append_eq_of_isPrefixOf?_eq_some hr, brackets_append,
      marks mark hm, nil_append]

end Chars

end

end Ferric
