import Ferric.Proofs.Expression.Emission

/-!
# Literals

Characters and strings stand between quotes.  Brackets that are quoted are no brackets, and a quote
after a backslash is no quote.  So a text is read with a state that says whether and how a position
is quoted, and a literal is one word, whatever stands in it.

A reader of expressions does not look into literals.  It is as if each of them were a name.

## Main definitions

* `Chars.Quote.next`: how a character changes what is quoted.
* `Chars.isLiteral`: texts that are one literal.
* `Chars.untilClosed`: what stands before the parenthesis that closes one that is open.
* `Naming`, `Naming.text`: a text with names in the place of its literals.

## Main results

* `Chars.isLiteral_characterLiteral`, `Chars.isLiteral_stringLiteral`: constants are written as
  literals.
* `Chars.overcloses_ungroupedFrom`: a parenthesis that nothing opens is not taken away.
-/

namespace Ferric

open Chars List

namespace Chars

/-! ## Quotes -/

namespace Quote

/-- **How a character changes what is quoted.** -/
def next : Quote → Char → Quote
  | .none, c => if c = '"' then .text else if c = '\'' then .char else .none
  | .text, c => if c = '"' then .none else if c = '\\' then .textEscape else .text
  | .textEscape, _ => .text
  | .char, c => if c = '\'' then .none else if c = '\\' then .charEscape else .char
  | .charEscape, _ => .char

/-- The character that closes a quote. -/
def mark : Quote → Char
  | .text | .textEscape => '"'
  | .none | .char | .charEscape => '\''

/-- A quote is closed by its mark, and nothing else changes the mark. -/
theorem next_cases {q : Quote} (h : q ≠ .none) (c : Char) :
    q.next c = .none ∧ c = q.mark ∨ q.next c ≠ .none ∧ (q.next c).mark = q.mark := by
  cases q with
  | none => exact absurd rfl h
  | textEscape => exact .inr ⟨nofun, rfl⟩
  | charEscape => exact .inr ⟨nofun, rfl⟩
  | text =>
    by_cases close : c = '"'
    · exact .inl ⟨if_pos close, close⟩
    · refine .inr ?_
      rw [next, if_neg close]
      split <;> exact ⟨nofun, rfl⟩
  | char =>
    by_cases close : c = '\''
    · exact .inl ⟨if_pos close, close⟩
    · refine .inr ?_
      rw [next, if_neg close]
      split <;> exact ⟨nofun, rfl⟩

/-- Outside of quotes, every other character leaves nothing quoted. -/
theorem next_none {c : Char} (text : c ≠ '"') (char : c ≠ '\'') : next .none c = .none := by
  rw [next, if_neg text, if_neg char]

end Quote

/-- Whether a quote is closed by the last character, and not before it. -/
def endsQuote : Quote → List Char → Bool
  | _, [] => false
  | q, c :: cs => if q.next c = .none then cs.isEmpty else endsQuote (q.next c) cs

/-- **A text that is one literal.** -/
def isLiteral : List Char → Bool
  | [] => false
  | c :: cs => Quote.next .none c ≠ .none && endsQuote (Quote.next .none c) cs

variable {q : Quote} {cs : List Char}

/-- What a quote does, from where it is open to its end. -/
theorem endsQuote_cons (hq : q ≠ .none) {c : Char} (h : endsQuote q (c :: cs) = true) :
    q.next c = .none ∧ c = q.mark ∧ cs = [] ∨
      q.next c ≠ .none ∧ (q.next c).mark = q.mark ∧ endsQuote (q.next c) cs = true := by
  rw [endsQuote] at h
  rcases q.next_cases hq c with ⟨closed, mark⟩ | ⟨opened, mark⟩
  · rw [if_pos closed] at h
    exact .inl ⟨closed, mark, isEmpty_iff.1 h⟩
  · rw [if_neg opened] at h
    exact .inr ⟨opened, mark, h⟩

theorem getLast?_of_endsQuote (hq : q ≠ .none) (h : endsQuote q cs = true) :
    cs.getLast? = some q.mark := by
  induction cs generalizing q with
  | nil => cases h
  | cons c cs ih =>
    rcases endsQuote_cons hq h with ⟨-, rfl, rfl⟩ | ⟨opened, mark, later⟩
    · rfl
    · rw [getLast?_cons, ih opened later, mark]
      rfl

theorem exists_of_isLiteral (h : isLiteral cs = true) :
    ∃ c body q, cs = c :: body ∧ c ∈ ['"', '\''] ∧ Quote.next .none c = q ∧ q ≠ .none ∧
      endsQuote q body = true ∧ body.getLast? = some c := by
  cases cs with
  | nil => cases h
  | cons c body =>
    obtain ⟨opens, ends⟩ := Bool.and_eq_true_iff.1 h
    have opens : Quote.next .none c ≠ .none := of_decide_eq_true opens
    have last := getLast?_of_endsQuote opens ends
    have mark : c ∈ ['"', '\''] ∧ (Quote.next .none c).mark = c := by
      by_cases text : c = '"'
      · subst text
        exact ⟨by simp, rfl⟩
      · by_cases char : c = '\''
        · subst char
          exact ⟨by simp, rfl⟩
        · exact absurd (Quote.next_none text char) opens
    rw [mark.2] at last
    exact ⟨c, body, _, rfl, mark.1, rfl, opens, ends, last⟩

/-! ## Constants -/

/-- A constant of the source between quotes, with one of some marks in front. -/
def IsQuoted (marks : List (List Char)) (quote : Char) (token : List Char) : Prop :=
  ∃ mark ∈ marks, ∃ body, token = mark ++ quote :: body ∧ isLiteral (quote :: body) = true

def characterMarks : List (List Char) :=
  [[], ['L'], ['u'], ['U']]

/-- **A character constant is written as a literal.** -/
theorem isLiteral_characterLiteral {token : List Char} (h : IsQuoted characterMarks '\'' token) :
    isLiteral (characterLiteral token) = true := by
  obtain ⟨mark, hm, body, rfl, literal⟩ := h
  -- the mark in front is dropped, and what is left is quoted already
  have bare : (mark ++ '\'' :: body).dropWhile isWidthMark = '\'' :: body := by
    have apostrophe : ('\'' :: body).dropWhile isWidthMark = '\'' :: body :=
      dropWhile_cons_of_neg (by decide)
    rw [dropWhile_append_of_pos, apostrophe]
    intro c hc
    simp only [characterMarks, mem_cons, not_mem_nil, or_false] at hm
    rcases hm with rfl | rfl | rfl | rfl
    · cases hc
    all_goals
      obtain rfl := mem_singleton.1 hc
      rfl
  obtain ⟨c, rest, q, shape, -, -, -, -, last⟩ := exists_of_isLiteral literal
  obtain ⟨rfl, rfl⟩ := cons.inj shape
  obtain ⟨content, rfl⟩ := getLast?_eq_some_iff.1 last
  have inside : unquoted? ('\'' :: (content ++ ['\''])) = some content := by
    rw [unquoted?, last, dropLast_concat]
    rfl
  rw [characterLiteral, bare, inside, Option.getD_some]
  split
  · decide
  · exact literal

/-- **A string constant is written as a literal.** -/
theorem isLiteral_stringLiteral {spelling : List Char}
    (h : IsQuoted ([] :: stringMarks) '"' spelling) :
    isLiteral (stringLiteral spelling) = true := by
  obtain ⟨mark, hm, body, rfl, literal⟩ := h
  have same : stringLiteral (mark ++ '"' :: body) = '"' :: body := by
    simp only [stringMarks, mem_cons, not_mem_nil, or_false] at hm
    rcases hm with rfl | rfl | rfl | rfl | rfl <;> rfl
  rw [same]
  exact literal

/-! ## Parentheses outside of quotes -/

/-- How many parentheses are open after a character. -/
def depthAfter (depth : Nat) (q : Quote) (c : Char) : Nat :=
  if q = .none then (if c = '(' then depth + 1 else if c = ')' then depth - 1 else depth) else depth

/-- **What stands before the parenthesis that closes one that is open**, and what stands after it;
`depth` others are open inside of it.  Quoted parentheses do not count. -/
def untilClosed : Nat → Quote → List Char → Option (List Char × List Char)
  | _, _, [] => none
  | depth, q, c :: cs =>
    if q = .none ∧ c = ')' ∧ depth = 0 then some ([], cs)
    else (untilClosed (depthAfter depth q c) (q.next c) cs).map fun parts => (c :: parts.1, parts.2)

/-- What a text adds to what stands before the parenthesis. -/
def putBefore (cs : List Char) (parts : List Char × List Char) : List Char × List Char :=
  (cs ++ parts.1, parts.2)

theorem untilClosed_cons {depth : Nat} {q : Quote} {c : Char}
    (goesOn : ¬ (q = .none ∧ c = ')' ∧ depth = 0)) (cs : List Char) :
    untilClosed depth q (c :: cs) =
      (untilClosed (depthAfter depth q c) (q.next c) cs).map (putBefore [c]) := by
  rw [untilClosed, if_neg goesOn]
  rfl

theorem map_putBefore (as bs : List Char) (x : Option (List Char × List Char)) :
    (x.map (putBefore bs)).map (putBefore as) = x.map (putBefore (as ++ bs)) := by
  rw [Option.map_map]
  congr 1
  funext parts
  simp [putBefore]

theorem untilClosed_of_endsQuote (hq : q ≠ .none) (h : endsQuote q cs = true) (depth : Nat)
    (rest : List Char) :
    untilClosed depth q (cs ++ rest) = (untilClosed depth .none rest).map (putBefore cs) := by
  induction cs generalizing q with
  | nil => cases h
  | cons c cs ih =>
    have same : depthAfter depth q c = depth := if_neg hq
    rw [cons_append, untilClosed_cons (fun h => hq h.1), same]
    rcases endsQuote_cons hq h with ⟨closed, -, rfl⟩ | ⟨opened, -, later⟩
    · rw [closed, nil_append]
    · rw [ih opened later, map_putBefore, singleton_append]

theorem untilClosed_of_isLiteral (h : isLiteral cs = true) (depth : Nat) (rest : List Char) :
    untilClosed depth .none (cs ++ rest) = (untilClosed depth .none rest).map (putBefore cs) := by
  obtain ⟨c, body, q, rfl, quote, start, opens, ends, -⟩ := exists_of_isLiteral h
  have other : c ≠ '(' ∧ c ≠ ')' := by
    simp only [mem_cons, not_mem_nil, or_false] at quote
    rcases quote with rfl | rfl <;> decide
  have same : depthAfter depth .none c = depth := by simp [depthAfter, other]
  rw [cons_append, untilClosed_cons (fun h => other.2 h.2.1), same, start,
    untilClosed_of_endsQuote opens ends, map_putBefore, singleton_append]

/-- Texts without quotes. -/
def Unquoted (cs : List Char) : Prop :=
  ∀ c ∈ cs, c ≠ '"' ∧ c ≠ '\''

instance : DecidablePred Unquoted := fun cs =>
  inferInstanceAs (Decidable (∀ c ∈ cs, c ≠ '"' ∧ c ≠ '\''))

/-- One character of a text whose brackets match: it closes no parenthesis that was open before the
text, and the depth counts the parentheses among the open brackets. -/
theorem depthAfter_of_openAfter {stack left : List Char} {c : Char}
    (h : openAfter stack (c :: cs) = some left) (depth : Nat) :
    ¬ (c = ')' ∧ stack.count '(' + depth = 0) ∧
      ∃ next, openAfter next cs = some left ∧
        depthAfter (stack.count '(' + depth) .none c = next.count '(' + depth := by
  rcases openAfter_cons h with ⟨next, hn, closing, hs⟩ | ⟨next, hn, closing, opening, rfl⟩
  · have hc : c ≠ ')' := by
      rintro rfl
      cases closing
    refine ⟨fun h => hc h.1, next, hn, ?_⟩
    rcases hs with ⟨rfl, opening⟩ | ⟨rfl, opening⟩
    · by_cases paren : c = '('
      · simp [depthAfter, paren, Nat.add_right_comm]
      · simp [depthAfter, paren, hc]
    · have paren : c ≠ '(' := by
        rintro rfl
        cases opening
      simp [depthAfter, paren, hc]
  · -- a closing bracket takes its partner from the open ones
    by_cases hc : c = ')'
    · subst hc
      have counted : (partner ')' :: next).count '(' = next.count '(' + 1 := by
        rw [(partner_eq_paren closing).2 rfl, count_cons_self]
      refine ⟨fun h => ?_, next, hn, ?_⟩
      · rw [counted] at h
        omega
      · rw [counted, depthAfter, if_pos rfl, if_neg (by decide), if_pos rfl]
        omega
    · have hp : partner c ≠ '(' := fun hp => hc ((partner_eq_paren closing).1 hp)
      have paren : c ≠ '(' := by
        rintro rfl
        cases opening
      refine ⟨fun h => hc h.1, next, hn, ?_⟩
      simp [depthAfter, paren, hc, count_cons_of_ne hp]

/-- A text without quotes whose brackets match closes no parenthesis that was open before it. -/
theorem untilClosed_of_openAfter {stack left : List Char} (h : openAfter stack cs = some left)
    (plain : Unquoted cs) (depth : Nat) (rest : List Char) :
    untilClosed (stack.count '(' + depth) .none (cs ++ rest) =
      (untilClosed (left.count '(' + depth) .none rest).map (putBefore cs) := by
  -- on the text, with the brackets that are open so far
  induction cs generalizing stack with
  | nil =>
    obtain rfl : stack = left := by simpa [openAfter] using h
    exact Option.map_id'.symm
  | cons c cs ih =>
    obtain ⟨text, char⟩ := plain c mem_cons_self
    have plain : Unquoted cs := fun d hd => plain d (mem_cons_of_mem c hd)
    obtain ⟨goesOn, next, hn, deeper⟩ := depthAfter_of_openAfter h depth
    rw [cons_append, untilClosed_cons (fun h => goesOn h.2), Quote.next_none text char, deeper,
      ih hn plain, map_putBefore, singleton_append]

theorem untilClosed_of_nested (h : Nested cs) (plain : Unquoted cs) (depth : Nat)
    (rest : List Char) :
    untilClosed depth .none (cs ++ rest) = (untilClosed depth .none rest).map (putBefore cs) := by
  simpa using untilClosed_of_openAfter h plain depth rest

/-! ## Parentheses that nothing opens -/

/-- **A parenthesis is closed that the text did not open.** -/
def Overcloses (cs : List Char) : Prop :=
  (untilClosed 0 .none cs).isSome = true

theorem isSome_untilClosed_cons {depth : Nat} {q : Quote} {c : Char}
    (goesOn : ¬ (q = .none ∧ c = ')' ∧ depth = 0)) (cs : List Char) :
    (untilClosed depth q (c :: cs)).isSome =
      (untilClosed (depthAfter depth q c) (q.next c) cs).isSome := by
  rw [untilClosed_cons goesOn, Option.isSome_map]

/-- A text without its last character closes at least all but one of the parentheses. -/
theorem isSome_untilClosed_of_concat {depth : Nat} {last : Char}
    (h : (untilClosed (depth + 1) q (cs ++ [last])).isSome = true) :
    (untilClosed depth q cs).isSome = true := by
  induction cs generalizing depth q with
  | nil =>
    rw [nil_append, isSome_untilClosed_cons (by omega)] at h
    cases h
  | cons c cs ih =>
    -- the depth differs by one until the shorter text closes too much
    rw [cons_append, isSome_untilClosed_cons (by omega)] at h
    by_cases closes : q = .none ∧ c = ')' ∧ depth = 0
    · rw [untilClosed, if_pos closes]
      rfl
    · have below : depthAfter (depth + 1) q c = depthAfter depth q c + 1 := by
        unfold depthAfter
        split
        · rename_i unquoted
          split
          · rfl
          · split
            · rename_i paren
              have open' : depth ≠ 0 := fun zero => closes ⟨unquoted, paren, zero⟩
              omega
            · rfl
        · rfl
      rw [below] at h
      rw [isSome_untilClosed_cons closes]
      exact ih h

/-- A character at the end that is no parenthesis closes nothing. -/
theorem isSome_untilClosed_of_append {depth : Nat} {q : Quote} {cs ends : List Char}
    (other : ')' ∉ ends) (h : (untilClosed depth q (cs ++ ends)).isSome = true) :
    (untilClosed depth q cs).isSome = true := by
  induction cs generalizing depth q with
  | nil =>
    exfalso
    rw [nil_append] at h
    induction ends generalizing depth q with
    | nil => cases h
    | cons c ends ih =>
      rw [mem_cons, not_or] at other
      rw [isSome_untilClosed_cons (fun h => other.1 h.2.1.symm)] at h
      exact ih other.2 h
  | cons c cs ih =>
    by_cases closes : q = .none ∧ c = ')' ∧ depth = 0
    · rw [untilClosed, if_pos closes]
      rfl
    · rw [cons_append, isSome_untilClosed_cons closes] at h
      rw [isSome_untilClosed_cons closes]
      exact ih h

theorem overcloses_trim (h : Overcloses cs) : Overcloses (trim cs) := by
  have blanks : ∀ {c}, isBlank c = true → c ≠ '(' ∧ c ≠ ')' ∧ c ≠ '"' ∧ c ≠ '\'' := by
    intro c blank
    refine ⟨?_, ?_, ?_, ?_⟩ <;> rintro rfl <;> cases blank
  -- blanks in front change neither the depth nor the quote
  have start : Overcloses (trimStart cs) := by
    rw [trimStart]
    induction cs with
    | nil => exact h
    | cons c cs ih =>
      rw [dropWhile_cons]
      split
      · rename_i blank
        obtain ⟨opening, closing, text, char⟩ := blanks blank
        apply ih
        rw [Overcloses, isSome_untilClosed_cons (fun h => closing h.2.1),
          Quote.next_none text char] at h
        simpa [Overcloses, depthAfter, opening, closing] using h
      · exact h
  -- blanks at the end close nothing
  rw [trim]
  generalize trimStart cs = front at start
  have split : trimEnd front ++ (front.reverse.takeWhile isBlank).reverse = front :=
    dropEndWhile_append isBlank front
  rw [Overcloses, ← split] at start
  refine isSome_untilClosed_of_append (fun mem => ?_) start
  have blank := mem_takeWhile_imp (mem_reverse.1 mem)
  cases blank

/-- Taking away the first and the last parenthesis leaves the one that nothing opens. -/
theorem overcloses_inner (wrapped : isWrapped cs = true) (h : Overcloses cs) :
    Overcloses (inner cs) := by
  obtain ⟨mid, rfl, -⟩ := eq_parens_of_isWrapped wrapped
  rw [inner_parens]
  apply overcloses_trim
  rw [Overcloses, cons_append, isSome_untilClosed_cons (by decide)] at h
  exact isSome_untilClosed_of_concat h

/-- **A parenthesis that nothing opens is not taken away** with the enclosing ones. -/
theorem overcloses_ungroupedFrom (h : Overcloses cs) : Overcloses (ungroupedFrom cs) := by
  fun_induction ungroupedFrom cs with
  | case1 cs wrapped _ ih => exact ih (overcloses_inner wrapped h)
  | case2 cs wrapped => exact h

/-- Where a parenthesis is closed that the text did not open, the text goes on, and what follows the
text does not matter. -/
theorem untilClosed_append {depth : Nat} {before after : List Char}
    (h : untilClosed depth q cs = some (before, after)) (rest : List Char) :
    untilClosed depth q (cs ++ rest) = some (before, after ++ rest) ∧
      before.length < cs.length := by
  induction cs generalizing depth q before with
  | nil => cases h
  | cons c cs ih =>
    by_cases closes : q = .none ∧ c = ')' ∧ depth = 0
    · rw [untilClosed, if_pos closes] at h
      obtain ⟨rfl, rfl⟩ := Prod.mk.inj (Option.some.inj h)
      rw [cons_append, untilClosed, if_pos closes]
      exact ⟨rfl, Nat.succ_pos _⟩
    · rw [untilClosed_cons closes] at h
      obtain ⟨parts, found, same⟩ := Option.map_eq_some_iff.1 h
      obtain ⟨rfl, rfl⟩ := Prod.mk.inj same
      obtain ⟨longer, shorter⟩ := ih found
      rw [cons_append, untilClosed_cons closes, longer]
      exact ⟨rfl, Nat.succ_lt_succ shorter⟩

/-- **A text that closes too much is not what stands before its own end.** -/
theorem Overcloses.untilClosed_ne (h : Overcloses cs) (rest after : List Char) :
    untilClosed 0 .none (cs ++ rest) ≠ some (cs, after) := by
  obtain ⟨⟨before, later⟩, found⟩ := Option.isSome_iff_exists.1 h
  obtain ⟨longer, shorter⟩ := untilClosed_append found rest
  rw [longer]
  intro same
  obtain ⟨rfl, -⟩ := Prod.mk.inj (Option.some.inj same)
  exact Nat.lt_irrefl _ shorter

end Chars

/-! ## Names in the place of literals -/

/-- **A name for each literal.** -/
structure Naming where
  name : List Char → List Char
  isIdentifier : ∀ literal, Chars.isIdentifier (name literal) = true

namespace Naming

variable (ν : Naming)

/-- A text with names in the place of its literals, given the quote that is open and what has been
read of it, from its end. -/
def chars : Quote → List Char → List Char → List Char
  | _, quoted, [] => quoted.reverse
  | q, quoted, c :: cs =>
    if q.next c = .none then
      (if q = .none then [c] else ν.name (c :: quoted).reverse) ++ chars .none [] cs
    else chars (q.next c) (c :: quoted) cs

/-- **A text with names in the place of its literals.** -/
def text (s : String) : String :=
  String.ofList (ν.chars .none [] s.toList)

/-- A word, or the name of a literal. -/
def word (t : String) : String :=
  if isLiteral t.toList then String.ofList (ν.name t.toList) else t

theorem chars_of_unquoted {cs : List Char} (h : Unquoted cs) (rest : List Char) :
    ν.chars .none [] (cs ++ rest) = cs ++ ν.chars .none [] rest := by
  induction cs with
  | nil => rfl
  | cons c cs ih =>
    obtain ⟨text, char⟩ := h c mem_cons_self
    rw [cons_append, chars, if_pos (Quote.next_none text char), if_pos rfl,
      ih fun d hd => h d (mem_cons_of_mem c hd)]
    rfl

theorem chars_of_endsQuote {q : Quote} (hq : q ≠ .none) {cs : List Char}
    (h : endsQuote q cs = true) (quoted rest : List Char) :
    ν.chars q quoted (cs ++ rest) =
      ν.name (quoted.reverse ++ cs) ++ ν.chars .none [] rest := by
  induction cs generalizing q quoted with
  | nil => cases h
  | cons c cs ih =>
    rw [cons_append, chars]
    rcases endsQuote_cons hq h with ⟨closed, -, rfl⟩ | ⟨opened, -, later⟩
    · rw [if_pos closed, if_neg hq, reverse_cons, nil_append]
    · rw [if_neg opened, ih opened later, reverse_cons, append_assoc]
      rfl

theorem chars_of_isLiteral {cs : List Char} (h : isLiteral cs = true) (rest : List Char) :
    ν.chars .none [] (cs ++ rest) = ν.name cs ++ ν.chars .none [] rest := by
  obtain ⟨c, body, q, rfl, -, start, opens, ends, -⟩ := exists_of_isLiteral h
  rw [cons_append, chars, start, if_neg opens, ν.chars_of_endsQuote opens ends]
  rfl

end Naming

end Ferric
