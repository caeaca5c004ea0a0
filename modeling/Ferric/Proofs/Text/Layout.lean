import Mathlib.Data.List.TakeWhile
import Ferric.Fragment

/-!
# Trimming and layout of emitted text

Expressions lose the blanks around them and the semicolons at their end, statements get a semicolon.
Both leave what stands in front alone: they act on the end of a text as on the end of its last part.

Emitted text is a run of lines, each of which says something: it does not end in a blank.  Blocks
move the lines of their statements right, `else` glues the last line of one block to the first of
another, and everything else stacks lines.  `Laid` ties a text to its lines, and the lemmas follow
the ways in which texts are put together.

## Main definitions

* `Chars.unterminated`: a text without the blanks and semicolons at its end.
* `Chars.Laid`: a text and the lines it is made of, none of which ends in a blank.

## Main results

* `Chars.asStatement_append`, `Chars.unterminated_append`: only the last part changes.
* `Chars.asExpression_asStatement`: a statement read as an expression is the expression.
* `Chars.Laid.lines_eq`: the lines of a text are those it is made of.
* `Chars.laid_block`, `Chars.Laid.glue`: blocks, and two texts with something between them.
-/

namespace Ferric

open List

namespace Chars

/-! ## Questions about characters

They are decided along the text, before any instance that goes through all characters. -/

section Questions

variable (p : Char → Prop) [DecidablePred p]

instance (priority := 2000) decidableForallMem (cs : List Char) : Decidable (∀ c ∈ cs, p c) :=
  List.decidableBAll p cs

instance (priority := 2000) decidableForallSome (c? : Option Char) :
    Decidable (∀ c, c? = some c → p c) :=
  match c? with
  | none => isTrue fun _ h => nomatch h
  | some c => decidable_of_iff (p c) ⟨fun h _ hc => Option.some.inj hc ▸ h, fun h => h c rfl⟩

end Questions

/-! ## Dropping from the end -/

theorem dropEndWhile_append (p : Char → Bool) (cs : List Char) :
    dropEndWhile p cs ++ (cs.reverse.takeWhile p).reverse = cs := by
  rw [dropEndWhile, ← reverse_append, takeWhile_append_dropWhile, reverse_reverse]

variable {p : Char → Bool} {cs b : List Char} {c : Char}

theorem dropEndWhile_eq_nil : dropEndWhile p cs = [] ↔ ∀ c ∈ cs, p c = true := by
  rw [dropEndWhile, reverse_eq_nil_iff, dropWhile_eq_nil_iff]
  simp

theorem dropEndWhile_append_of_ne (h : dropEndWhile p b ≠ []) (a : List Char) :
    dropEndWhile p (a ++ b) = a ++ dropEndWhile p b := by
  have some_kept : b.reverse.dropWhile p ≠ [] := by
    simpa [dropEndWhile] using h
  rw [dropEndWhile, dropEndWhile, reverse_append, dropWhile_append,
    if_neg (by simpa using some_kept), reverse_append, reverse_reverse]

/-- What is left ends in a character that is kept. -/
theorem getLast?_dropEndWhile (h : (dropEndWhile p cs).getLast? = some c) : p c = false := by
  rw [dropEndWhile, getLast?_reverse] at h
  have kept := head?_dropWhile_not p cs.reverse
  rw [h] at kept
  simpa using kept

theorem dropEndWhile_of_getLast? (h : ∀ c, cs.getLast? = some c → p c = false) :
    dropEndWhile p cs = cs := by
  rcases eq_nil_or_concat cs with rfl | ⟨front, c, rfl⟩
  · rfl
  · rw [concat_eq_append] at h ⊢
    have hc : p c = false := h c (by simp)
    simp [dropEndWhile, hc]

@[simp] theorem trimEnd_trimEnd (cs : List Char) : trimEnd (trimEnd cs) = trimEnd cs :=
  dropEndWhile_of_getLast? fun _ hc => getLast?_dropEndWhile hc

theorem trimStart_cons (h : isBlank c = false) (cs : List Char) :
    trimStart (c :: cs) = c :: cs := by
  simp [trimStart, h]

theorem trimStart_blank_cons (h : isBlank c = true) (cs : List Char) :
    trimStart (c :: cs) = trimStart cs := by
  simp [trimStart, h]

theorem head?_trimStart (h : (trimStart cs).head? = some c) : isBlank c = false := by
  have kept := head?_dropWhile_not isBlank cs
  rw [← trimStart, h] at kept
  simpa using kept

theorem trimStart_of_head? (h : ∀ c, cs.head? = some c → isBlank c = false) :
    trimStart cs = cs := by
  cases cs with
  | nil => rfl
  | cons c cs => exact trimStart_cons (h c rfl) cs

/-- A text without blanks at its ends is trimmed. -/
theorem trim_of_ends (head : ∀ c, cs.head? = some c → isBlank c = false)
    (last : ∀ c, cs.getLast? = some c → isBlank c = false) : trim cs = cs := by
  rw [trim, trimStart_of_head? head]
  exact dropEndWhile_of_getLast? last

theorem head?_dropEndWhile (h : (dropEndWhile p cs).head? = some c) : cs.head? = some c := by
  rw [← dropEndWhile_append p cs, head?_append, h, Option.some_or]

@[simp] theorem trim_trim (cs : List Char) : trim (trim cs) = trim cs := by
  have start : trimStart (trim cs) = trim cs :=
    trimStart_of_head? fun c hc => head?_trimStart (head?_dropEndWhile hc)
  rw [trim, start]
  exact trimEnd_trimEnd _

/-! ## Semicolons -/

/-- A text without the blanks and semicolons at its end. -/
def unterminated (cs : List Char) : List Char :=
  trimEnd (dropEndWhile (· == ';') (trimEnd cs))

theorem asExpression_eq (cs : List Char) : asExpression cs = unterminated (trimStart cs) := rfl

theorem unterminated_append (h : unterminated b ≠ []) (a : List Char) :
    unterminated (a ++ b) = a ++ unterminated b := by
  have hs : dropEndWhile (· == ';') (trimEnd b) ≠ [] := by
    intro hs
    rw [unterminated, hs] at h
    exact h rfl
  have hb : trimEnd b ≠ [] := by
    intro hb
    rw [hb] at hs
    exact hs rfl
  calc unterminated (a ++ b)
      = trimEnd (dropEndWhile (· == ';') (a ++ trimEnd b)) :=
        congrArg _ (congrArg _ (dropEndWhile_append_of_ne hb a))
    _ = trimEnd (a ++ dropEndWhile (· == ';') (trimEnd b)) :=
        congrArg _ (dropEndWhile_append_of_ne hs a)
    _ = a ++ unterminated b := dropEndWhile_append_of_ne h a

theorem unterminated_ne_nil (hc : c ∈ cs) (hb : isBlank c = false) (hs : c ≠ ';') :
    unterminated cs ≠ [] := by
  have kept : ∀ p : Char → Bool, p c = false →
      ∀ ds : List Char, c ∈ ds → c ∈ dropEndWhile p ds := by
    intro p hp ds hd
    rw [← dropEndWhile_append p ds, mem_append] at hd
    refine hd.resolve_right fun hd => ?_
    rw [mem_takeWhile_imp (mem_reverse.1 hd)] at hp
    exact absurd hp (by decide)
  refine ne_nil_of_mem (kept _ hb _ (kept _ (by simpa using hs) _ (kept _ hb _ hc)))

/-- A semicolon after a text that ends in something else than a blank. -/
theorem unterminated_semicolon (h : trimEnd cs = cs) :
    unterminated (cs ++ [';']) = unterminated cs := by
  have semicolon : trimEnd (cs ++ [';']) = cs ++ [';'] :=
    dropEndWhile_append_of_ne (by decide) _
  rw [unterminated, semicolon, unterminated, h]
  congr 1
  simp [dropEndWhile]

/-- Whether a text ends as a statement does is seen from its last part. -/
theorem isTerminated_append (h : b ≠ []) (a : List Char) :
    isTerminated (a ++ b) = isTerminated b := by
  have last : (a ++ b).getLast? = b.getLast? := by
    obtain ⟨c, hc⟩ := Option.isSome_iff_exists.1 (getLast?_isSome.2 h)
    rw [getLast?_append, hc, Option.some_or]
  rw [isTerminated, isTerminated, last]

theorem asStatement_append (h : trimEnd b ≠ []) (a : List Char) :
    asStatement (a ++ b) = a ++ asStatement b := by
  have trimmed : trimEnd (a ++ b) = a ++ trimEnd b := dropEndWhile_append_of_ne h a
  simp only [asStatement, trimmed, isTerminated_append h]
  split
  · rfl
  · rw [append_assoc]

/-- A semicolon at the end does not count. -/
theorem unterminated_asStatement (cs : List Char) :
    unterminated (asStatement cs) = unterminated cs := by
  have trimmed : unterminated (trimEnd cs) = unterminated cs := by
    rw [unterminated, trimEnd_trimEnd, unterminated]
  simp only [asStatement]
  split
  · exact trimmed
  · rw [unterminated_semicolon (trimEnd_trimEnd cs), trimmed]

theorem asStatement_of_blank (h : ∀ c ∈ cs, isBlank c = true) : asStatement cs = [] := by
  have none : trimEnd cs = [] := dropEndWhile_eq_nil.2 h
  rw [asStatement, none]
  rfl

theorem trimEnd_cons (h : isBlank c = false) (cs : List Char) :
    trimEnd (c :: cs) = c :: trimEnd cs := by
  by_cases hc : trimEnd cs = []
  · rw [hc]
    have all : ∀ d ∈ cs.reverse, isBlank d = true := by
      intro d hd
      exact dropEndWhile_eq_nil.1 hc d (mem_reverse.1 hd)
    have gone : cs.reverse.dropWhile isBlank = [] := dropWhile_eq_nil_iff.2 all
    simp [trimEnd, dropEndWhile, dropWhile_append, gone, h]
  · exact dropEndWhile_append_of_ne hc [c]

theorem asStatement_cons (h : isBlank c = false) (cs : List Char) :
    ∃ rest, asStatement (c :: cs) = c :: rest := by
  rw [asStatement, trimEnd_cons h]
  split
  · exact ⟨_, rfl⟩
  · exact ⟨_, rfl⟩

/-- The blanks in front do not count for the end. -/
theorem trimStart_asStatement (cs : List Char) :
    trimStart (asStatement cs) = asStatement (trimStart cs) := by
  induction cs with
  | nil => rfl
  | cons c cs ih =>
    by_cases hc : isBlank c = true
    · rw [trimStart_blank_cons hc]
      by_cases hs : trimEnd cs = []
      · have all := dropEndWhile_eq_nil.1 hs
        have gone : trimStart cs = [] := dropWhile_eq_nil_iff.2 all
        have blank : ∀ d ∈ c :: cs, isBlank d = true := by simpa [hc] using all
        rw [gone, asStatement_of_blank blank]
        rfl
      · have step : asStatement (c :: cs) = c :: asStatement cs := asStatement_append hs [c]
        rw [step, trimStart_blank_cons hc, ih]
    · have hc : isBlank c = false := by simpa using hc
      obtain ⟨rest, hr⟩ := asStatement_cons hc cs
      rw [trimStart_cons hc, hr, trimStart_cons hc]

theorem asExpression_asStatement (cs : List Char) :
    asExpression (asStatement cs) = asExpression cs := by
  rw [asExpression_eq, trimStart_asStatement, unterminated_asStatement, asExpression_eq]

theorem asExpression_blank_cons (h : isBlank c = true) (cs : List Char) :
    asExpression (c :: cs) = asExpression cs := by
  rw [asExpression_eq, trimStart_blank_cons h, asExpression_eq]

theorem exists_of_asExpression_ne_nil (h : asExpression cs ≠ []) : ∃ c ∈ cs, isBlank c = false := by
  by_contra hn
  have all : ∀ c ∈ cs, isBlank c = true := by simpa using hn
  have none : trimStart cs = [] := dropWhile_eq_nil_iff.2 all
  exact h (by rw [asExpression_eq, none]; rfl)

/-- A text without blanks and semicolons is an expression as it stands. -/
theorem asExpression_of_forall (h : ∀ c ∈ cs, isBlank c = false ∧ c ≠ ';') :
    asExpression cs = cs := by
  have start : trimStart cs = cs := by
    cases cs with
    | nil => rfl
    | cons c cs => exact trimStart_cons (h c (by simp)).1 cs
  have blanks : trimEnd cs = cs :=
    dropEndWhile_of_getLast? fun c hc => (h c (mem_of_getLast? hc)).1
  have semicolons : dropEndWhile (· == ';') cs = cs :=
    dropEndWhile_of_getLast? fun c hc => by simpa using (h c (mem_of_getLast? hc)).2
  rw [asExpression_eq, start, unterminated, blanks, semicolons, blanks]

theorem getLast?_asStatement (h : (asStatement cs).getLast? = some c) : isBlank c = false := by
  simp only [asStatement] at h
  split at h
  · exact getLast?_dropEndWhile h
  · obtain rfl : ';' = c := by simpa using h
    decide

theorem isTerminated_asStatement (cs : List Char) : isTerminated (asStatement cs) = true := by
  simp only [asStatement]
  split
  · assumption
  · simp [isTerminated]

/-- A text that ends as a statement does is a statement as it stands. -/
theorem asStatement_of_isTerminated (h : isTerminated cs = true) : asStatement cs = cs := by
  have kept : trimEnd cs = cs := by
    refine dropEndWhile_of_getLast? fun c hc => ?_
    rw [isTerminated, hc] at h
    simp only [Bool.or_eq_true, beq_iff_eq] at h
    rcases h with rfl | rfl <;> decide
  rw [asStatement, kept, if_pos h]

end Chars

namespace Chars

/-! ## Lines -/

/-- **A tidy line**: no line feed in it, and no blank at its end. -/
structure Tidy (line : List Char) : Prop where
  single : '\n' ∉ line
  ends : ∃ c, line.getLast? = some c ∧ isBlank c = false

/-- The lines as one text. -/
def unlines (ls : List (List Char)) : List Char :=
  ['\n'].intercalate ls

@[simp] theorem unlines_singleton (l : List Char) : unlines [l] = l := by
  simp [unlines]

theorem unlines_cons_cons (l m : List Char) (ls : List (List Char)) :
    unlines (l :: m :: ls) = l ++ '\n' :: unlines (m :: ls) := by
  simp [unlines, intercalate_cons_cons]

/-- **A text and its lines**, all of them tidy. -/
structure Laid (cs : List Char) (ls : List (List Char)) : Prop where
  nonempty : ls ≠ []
  tidy : ∀ l ∈ ls, Tidy l
  eq : cs = unlines ls

variable {l cs : List Char} {ls ms : List (List Char)}

theorem Tidy.laid (h : Tidy l) : Laid l [l] where
  nonempty := by simp
  tidy := by simpa using h
  eq := (unlines_singleton l).symm

/-- A tidy line stays tidy with other text before it on the line. -/
theorem Tidy.prepend (h : Tidy l) {front : List Char} (hf : '\n' ∉ front) :
    Tidy (front ++ l) where
  single := by simp [hf, h.single]
  ends := by
    obtain ⟨c, hc, hb⟩ := h.ends
    exact ⟨c, by simp [getLast?_append, hc], hb⟩

/-- A line is tidy when its last character is not a blank. -/
theorem tidy_concat (front : List Char) {c : Char} (hf : '\n' ∉ front) (hc : isBlank c = false) :
    Tidy (front ++ [c]) where
  single := by
    simp only [mem_append, hf, mem_singleton, false_or]
    rintro rfl
    exact absurd hc (by decide)
  ends := ⟨c, by simp, hc⟩

theorem Tidy.isBlankText_eq (h : Tidy l) : isBlankText l = false := by
  obtain ⟨c, hc, hb⟩ := h.ends
  rw [isBlankText, all_eq_false]
  exact ⟨c, mem_of_getLast? hc, by simp [hb]⟩

/-! ## Reading lines back -/

theorem lines_cons {c : Char} (hn : c ≠ '\n') (hr : c = '\r' → cs.head? ≠ some '\n') :
    lines (c :: cs) =
      match lines cs with
      | [] => [[c]]
      | line :: rest => (c :: line) :: rest := by
  have noBreak : ∀ ds, c = '\r' → cs = '\n' :: ds → False := by
    rintro ds rfl rfl
    exact hr rfl rfl
  exact lines.eq_4 c cs hn noBreak

theorem lines_append {c : Char} {rest : List Char} (single : '\n' ∉ l) (last : l.getLast? = some c)
    (ends : lines (c :: rest) = [c] :: ls) : lines (l ++ rest) = l :: ls := by
  induction l with
  | nil => simp at last
  | cons d l ih =>
    have hd : d ≠ '\n' := by
      rintro rfl
      simp at single
    have single' : '\n' ∉ l := fun h => single (by simp [h])
    cases l with
    | nil =>
      obtain rfl : d = c := by simpa using last
      exact ends
    | cons e l =>
      rw [cons_append, lines_cons hd, ih single' (by simpa using last)]
      rintro -
      simpa using fun h : e = '\n' => single' (by simp [h])

theorem lines_append_feed (single : '\n' ∉ l) (ends : l.getLast? ≠ some '\r') (rest : List Char) :
    lines (l ++ '\n' :: rest) = l :: lines rest := by
  cases last : l.getLast? with
  | none =>
    rw [getLast?_eq_none_iff.1 last, nil_append, lines]
  | some c =>
    refine lines_append single last ?_
    rw [lines_cons, lines]
    · rintro rfl
      exact single (mem_of_getLast? last)
    · rintro rfl
      exact absurd last ends

/-- A tidy line does not end in a carriage return. -/
theorem Tidy.getLast?_ne (h : Tidy l) : l.getLast? ≠ some '\r' := by
  obtain ⟨c, last, blank⟩ := h.ends
  rw [last]
  rintro ⟨⟩
  exact absurd blank (by decide)

theorem lines_of_tidy (h : Tidy l) : lines l = [l] := by
  obtain ⟨c, last, blank⟩ := h.ends
  rw [← append_nil l]
  refine (lines_append h.single last ?_).trans (by rw [append_nil])
  rw [lines_cons, lines]
  · rintro rfl
    exact absurd blank (by decide)
  · simp

/-- The lines of a text are those it is made of. -/
theorem Laid.lines_eq (h : Laid cs ls) : lines cs = ls := by
  obtain ⟨nonempty, tidy, rfl⟩ := h
  induction ls with
  | nil => exact absurd rfl nonempty
  | cons l ls ih =>
    have hl : Tidy l := tidy l (by simp)
    cases ls with
    | nil => rw [unlines_singleton, lines_of_tidy hl]
    | cons m ls =>
      rw [unlines_cons_cons, lines_append_feed hl.single hl.getLast?_ne,
        ih (by simp) fun k hk => tidy k (by simp [hk])]

/-! ## Putting texts together -/

theorem unlines_append (hl : ls ≠ []) (hm : ms ≠ []) :
    unlines (ls ++ ms) = unlines ls ++ '\n' :: unlines ms := by
  induction ls with
  | nil => exact absurd rfl hl
  | cons l ls ih =>
    cases ls with
    | nil =>
      obtain ⟨m, ms, rfl⟩ := exists_cons_of_ne_nil hm
      rw [singleton_append, unlines_cons_cons, unlines_singleton]
    | cons k ls =>
      rw [cons_append, cons_append, unlines_cons_cons, ← cons_append,
        ih (by simp), unlines_cons_cons, append_assoc, cons_append]

/-- Two texts, one below the other. -/
theorem Laid.append {as bs : List Char} (ha : Laid as ls) (hb : Laid bs ms) :
    Laid (as ++ '\n' :: bs) (ls ++ ms) where
  nonempty := by simp [ha.nonempty]
  tidy l hl := (mem_append.1 hl).elim (ha.tidy l) (hb.tidy l)
  eq := by rw [unlines_append ha.nonempty hb.nonempty, ha.eq, hb.eq]

/-- Text before the first line. -/
theorem Laid.prepend (h : Laid cs (l :: ls)) {front : List Char} (hf : '\n' ∉ front) :
    Laid (front ++ cs) ((front ++ l) :: ls) where
  nonempty := by simp
  tidy := by
    rintro k hk
    rcases mem_cons.1 hk with rfl | hk
    · exact (h.tidy l (by simp)).prepend hf
    · exact h.tidy k (by simp [hk])
  eq := by
    rw [h.eq]
    cases ls with
    | nil => simp
    | cons m ls => rw [unlines_cons_cons, unlines_cons_cons, append_assoc]

/-- Two texts side by side: the last line of the first and the first line of the second become one
line. -/
theorem Laid.glue {as bs last first : List Char} (ha : Laid as (ls ++ [last]))
    (hb : Laid bs (first :: ms)) (mid : List Char) (hm : '\n' ∉ mid) :
    Laid (as ++ mid ++ bs) (ls ++ (last ++ mid ++ first) :: ms) := by
  have hlast : Tidy last := ha.tidy last (by simp)
  have hfront : '\n' ∉ last ++ mid := by simp [hlast.single, hm]
  have joined := hb.prepend hfront
  cases ls with
  | nil =>
    rw [ha.eq, nil_append, unlines_singleton]
    exact joined
  | cons l ls =>
    have before : Laid (unlines (l :: ls)) (l :: ls) :=
      ⟨by simp, fun k hk => ha.tidy k (mem_append_left _ hk), rfl⟩
    have whole := before.append joined
    rw [ha.eq, unlines_append (by simp) (by simp), unlines_singleton]
    simpa [append_assoc] using whole

/-! ## Blocks -/

def moved (line : List Char) : List Char :=
  level ++ line

@[simp] theorem trimStart_moved (l : List Char) : trimStart (moved l) = trimStart l := by
  have blank : isBlank ' ' = true := by decide
  simp [trimStart, moved, level, blank]

theorem Tidy.moved (h : Tidy l) : Tidy (moved l) :=
  h.prepend (by decide)

/-- Every line with its line feed, before a last line. -/
theorem flatMap_feed_append (ls : List (List Char)) (last : List Char) :
    ls.flatMap (· ++ ['\n']) ++ last = unlines (ls ++ [last]) := by
  induction ls with
  | nil => simp
  | cons l ls ih =>
    obtain ⟨m, ms, he⟩ := exists_cons_of_ne_nil (l := ls ++ [last]) (by simp)
    rw [flatMap_cons, append_assoc, ih, cons_append, he, unlines_cons_cons]
    simp

theorem Laid.indented_eq (h : Laid cs ls) :
    indented 1 cs = (ls.map moved).flatMap (· ++ ['\n']) := by
  rw [indented, h.lines_eq, flatMap_map]
  have tidy := h.tidy
  clear h
  induction ls with
  | nil => rfl
  | cons l ls ih =>
    have hl : indentLine 1 l = moved l ++ ['\n'] := by
      simp [indentLine, (tidy l (by simp)).isBlankText_eq, moved]
    rw [flatMap_cons, flatMap_cons, hl, ih fun k hk => tidy k (by simp [hk])]

/-- A text that is made of tidy lines. -/
def IsTidy (cs : List Char) : Prop :=
  Laid cs (lines cs)

theorem Laid.isTidy (h : Laid cs ls) : IsTidy cs := by
  rw [IsTidy, h.lines_eq]
  exact h

theorem laid_block {statements : List (List Char)} (h : ∀ s ∈ statements, IsTidy s) :
    Laid (block statements)
      (['\x7b'] :: ((statements.flatMap lines).map moved ++ [['\x7d']])) where
  nonempty := by simp
  tidy := by
    intro l hl
    simp only [mem_cons, mem_append, mem_map, mem_flatMap,
      not_mem_nil, or_false] at hl
    rcases hl with rfl | ⟨k, ⟨s, hs, hk⟩, rfl⟩ | rfl
    · exact tidy_concat [] (by simp) (by decide)
    · exact ((h s hs).tidy k hk).moved
    · exact tidy_concat [] (by simp) (by decide)
  eq := by
    have inside : statements.flatMap (indented 1) =
        ((statements.flatMap lines).map moved).flatMap (· ++ ['\n']) := by
      induction statements with
      | nil => rfl
      | cons s rest ih =>
        have hs : IsTidy s := h s (by simp)
        rw [flatMap_cons, hs.indented_eq, ih fun t ht => h t (by simp [ht]),
          flatMap_cons, map_append, flatMap_append]
    rw [block, inside]
    obtain ⟨m, ms, he⟩ := exists_cons_of_ne_nil
      (l := (statements.flatMap lines).map moved ++ [['\x7d']]) (by simp)
    rw [he, unlines_cons_cons, ← he, ← flatMap_feed_append]
    rfl

theorem laid_unlines {texts : List (List Char)} (hn : texts ≠ []) (h : ∀ t ∈ texts, IsTidy t) :
    Laid (unlines texts) (texts.flatMap lines) := by
  induction texts with
  | nil => exact absurd rfl hn
  | cons t texts ih =>
    have ht : IsTidy t := h t (by simp)
    cases texts with
    | nil => simpa [IsTidy] using ht
    | cons u texts =>
      rw [unlines_cons_cons, flatMap_cons]
      exact Laid.append ht (ih (by simp) fun s hs => h s (by simp [hs]))

end Chars

end Ferric
