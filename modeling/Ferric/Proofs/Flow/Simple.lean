import Ferric.Proofs.Composition.Expressions
import Ferric.Proofs.Flow.RustStmt

/-!
# Neat texts, and expressions as leaves

A text that may stand on a line as a simple statement: its brackets match, it is one line, and it
does not start with a word that the reader of statements keeps for itself.  Texts composed of neat
texts are neat again; what is asked of the names and literals of a program carries over to its types
and expressions.

Control flow takes expressions as they are: as simple statements and as conditions.  An expression
whose names and literals are neat has one text, which no context changes, and that text is neat.

## Main definitions

* `Flat`, `Unreserved`, `Neat`: one line whose brackets match, no reserved word in front, and both.
* `Node.IsSimple`: a tree of expressions whose words are neat.
* `Node.plainText`, `Node.conditionText`: the text of an expression, and its text as a condition.
* `Node.operands`: the operands of the commas of an expression.

## Main results

* `Neat.append`: what stands first decides about the first word.
* `Neat.read?_statement`: a neat text is read as a simple statement.
* `neat_render`, `neat_zeroValue`, `expressionsClosed_neat`: types, zeros and expressions are neat.
* `Draft.within_ofNode`: a simple expression settles.
* `Node.emitStatements_eq`: a simple expression in statement position is one statement for each
  operand.
-/

namespace Ferric

open Chars

section

open List

/-! ## One line -/

/-- **One line whose brackets match.** -/
structure Flat (s : String) : Prop where
  nested : Nested s.toList
  single : '\n' ∉ s.toList

instance (s : String) : Decidable (Flat s) :=
  decidable_of_iff (Nested s.toList ∧ '\n' ∉ s.toList)
    ⟨fun h => ⟨h.1, h.2⟩, fun h => ⟨h.nested, h.single⟩⟩

variable {b s : String} {cs : List Char} {c : Char}

theorem Flat.append {a : String} (ha : Flat a) (hb : Flat b) : Flat (a ++ b) where
  nested := by
    rw [String.toList_append]
    exact ha.nested.append hb.nested
  single := by
    simp [ha.single, hb.single]

/-- A text between brackets, which other text may stand beside. -/
theorem Flat.wrap (hb : Flat b) (p q : String) {open' : List Char}
    (hp : openAfter [] p.toList = some open') (hq : openAfter open' q.toList = some [])
    (np : '\n' ∉ p.toList) (nq : '\n' ∉ q.toList) : Flat (p ++ b ++ q) where
  nested := by
    simp only [Nested, String.toList_append, openAfter_append, hp, Option.bind_some,
      hb.nested.openAfter_eq, hq]
  single := by
    simp [np, nq, hb.single]

theorem flat_joined {separator : String} {parts : List String} (hs : Flat separator)
    (h : ∀ part ∈ parts, Flat part) : Flat (Text.joined separator parts) where
  nested := by
    rw [Text.joined, String.toList_intercalate]
    refine nested_intercalate hs.nested fun part hp => ?_
    obtain ⟨s, hs, rfl⟩ := mem_map.1 hp
    exact (h s hs).nested
  single := by
    rw [Text.joined, String.toList_intercalate]
    induction parts with
    | nil => simp
    | cons a parts ih =>
      have ha := (h a (by simp)).single
      have ih := ih fun p hp => h p (by simp [hp])
      cases parts with
      | nil => simpa using ha
      | cons b parts =>
        rw [map_cons, map_cons, intercalate_cons_cons]
        simp only [mem_append, ha, hs.single, false_or]
        exact ih

/-! The operations of `Ferric.Fragment` only take characters away or add harmless ones. -/

theorem not_mem_dropEndWhile {p : Char → Bool} (h : c ∉ cs) : c ∉ dropEndWhile p cs := by
  intro hc
  refine h ?_
  rw [dropEndWhile, mem_reverse] at hc
  exact mem_reverse.1 ((dropWhile_sublist p).subset hc)

theorem not_mem_trimStart (h : c ∉ cs) : c ∉ trimStart cs :=
  fun hc => h ((dropWhile_sublist isBlank).subset hc)

theorem not_mem_trim (h : c ∉ cs) : c ∉ trim cs :=
  not_mem_dropEndWhile (not_mem_trimStart h)

theorem Flat.asExpression (h : Flat s) : Flat (Fragment.asExpression s) where
  nested := by
    rw [Fragment.asExpression, Text.toList_onChars, nested_asExpression]
    exact h.nested
  single := by
    rw [Fragment.asExpression, Text.toList_onChars]
    exact not_mem_dropEndWhile (not_mem_dropEndWhile (not_mem_trim h.single))

theorem Flat.asStatement (h : Flat s) : Flat (Fragment.asStatement s) where
  nested := by
    rw [Fragment.asStatement, Text.toList_onChars, nested_asStatement]
    exact h.nested
  single := by
    rw [Fragment.asStatement, Text.toList_onChars, Chars.asStatement]
    have kept : '\n' ∉ trimEnd s.toList := not_mem_dropEndWhile h.single
    split
    · exact kept
    · simpa using kept

theorem Flat.grouped (h : Flat s) : Flat (Fragment.grouped s) where
  nested := by
    rw [Fragment.grouped, Text.toList_onChars]
    exact nested_grouped h.nested
  single := by
    rw [Fragment.grouped, Text.toList_onChars, Chars.grouped]
    have kept : '\n' ∉ trim s.toList := not_mem_trim h.single
    split
    · exact kept
    · simpa using kept

theorem not_mem_ungroupedFrom (h : c ∉ cs) : c ∉ ungroupedFrom cs := by
  fun_induction ungroupedFrom cs with
  | case1 cs hw _ ih =>
    refine ih (not_mem_trim fun hc => h ?_)
    exact mem_of_mem_drop ((dropLast_sublist _).subset hc)
  | case2 cs hw => exact h

theorem Flat.ungrouped (h : Flat s) : Flat (Fragment.ungrouped s) where
  nested := by
    rw [Fragment.ungrouped, Text.toList_onChars]
    exact nested_ungrouped h.nested
  single := by
    rw [Fragment.ungrouped, Text.toList_onChars]
    exact not_mem_ungroupedFrom (not_mem_trim h.single)

/-! ## The first word -/

/-- **No reserved word in front.** -/
def Unreserved (s : String) : Prop :=
  firstWord (trimStart s.toList) ∉ Line.reserved

instance (s : String) : Decidable (Unreserved s) :=
  inferInstanceAs (Decidable (_ ∉ _))

/-- What stands first is a symbol and not a word. -/
def StartsSymbol (s : String) : Prop :=
  ∃ c cs, trimStart s.toList = c :: cs ∧ isWordChar c = false

theorem firstWord_append_of_head {rest : List Char}
    (hr : ∀ c, rest.head? = some c → isWordChar c = false) (cs : List Char) :
    firstWord (cs ++ rest) = firstWord cs := by
  induction cs with
  | nil =>
    cases rest with
    | nil => rfl
    | cons c rest => simp [firstWord, hr c rfl]
  | cons c cs ih =>
    by_cases hc : isWordChar c = true
    · simpa [firstWord, hc] using ih
    · simp [firstWord, hc]

/-- Characters that are not part of words do not matter at the end. -/
theorem firstWord_dropEndWhile {p : Char → Bool} (hp : ∀ c, p c = true → isWordChar c = false)
    (cs : List Char) : firstWord (dropEndWhile p cs) = firstWord cs := by
  have dropped : ∀ c, ((cs.reverse.takeWhile p).reverse).head? = some c →
      isWordChar c = false := by
    intro c hc
    have mem := mem_of_head? hc
    exact hp c (mem_takeWhile_imp (mem_reverse.1 mem))
  rw [← firstWord_append_of_head dropped, dropEndWhile_append]

theorem isWordChar_of_isBlank (h : isBlank c = true) : isWordChar c = false := by
  cases hw : isWordChar c with
  | false => rfl
  | true =>
    rw [isBlank_of_isWordChar hw] at h
    exact absurd h (by decide)

theorem firstWord_trimEnd (cs : List Char) : firstWord (trimEnd cs) = firstWord cs :=
  firstWord_dropEndWhile (fun _ => isWordChar_of_isBlank) cs

theorem StartsSymbol.append {p : String} (h : StartsSymbol p) (s : String) :
    StartsSymbol (p ++ s) := by
  obtain ⟨c, cs, hp, hc⟩ := h
  have kept : (p.toList.dropWhile isBlank).isEmpty = false := by
    rw [← trimStart, hp]
    rfl
  refine ⟨c, cs ++ s.toList, ?_, hc⟩
  rw [String.toList_append, trimStart, dropWhile_append, if_neg (by simp [kept]),
    ← trimStart, hp, cons_append]

theorem StartsSymbol.unreserved (h : StartsSymbol s) : Unreserved s := by
  obtain ⟨c, cs, hs, hc⟩ := h
  have none : firstWord (trimStart s.toList) = [] := by
    simp [hs, firstWord, hc]
  rw [Unreserved, none]
  decide

theorem StartsSymbol.head (h : StartsSymbol s) (hc : s.toList.head? = some c) :
    isWordChar c = false := by
  obtain ⟨d, cs, hs, hd⟩ := h
  by_cases hb : isBlank c = true
  · exact isWordChar_of_isBlank hb
  · cases hl : s.toList with
    | nil => simp [hl] at hc
    | cons e rest =>
      obtain rfl : e = c := by simpa [hl] using hc
      rw [hl, trimStart_cons (by simpa using hb)] at hs
      obtain ⟨rfl, -⟩ := cons.inj hs
      exact hd

/-- A text whose first word ends within it has the same first word whatever follows. -/
theorem Unreserved.append {p : String} (h : Unreserved p)
    (he : (trimStart p.toList).all isWordChar = false) (s : String) : Unreserved (p ++ s) := by
  have nonempty : (p.toList.dropWhile isBlank).isEmpty = false := by
    cases hp : trimStart p.toList with
    | nil => simp [hp] at he
    | cons c cs =>
      rw [← trimStart, hp]
      rfl
  have same : ∀ cs : List Char, cs.all isWordChar = false →
      firstWord (cs ++ s.toList) = firstWord cs := by
    intro cs hc
    induction cs with
    | nil => simp at hc
    | cons c cs ih =>
      by_cases hw : isWordChar c = true
      · simp only [all_cons, hw, Bool.true_and] at hc
        simpa [firstWord, hw] using ih hc
      · simp [firstWord, hw]
  rw [Unreserved, String.toList_append, trimStart, dropWhile_append,
    if_neg (by simp [nonempty]), ← trimStart, same _ he]
  exact h

/-- **A text that may stand as a simple statement.** -/
structure Neat (s : String) : Prop extends Flat s where
  unreserved : Unreserved s

instance (s : String) : Decidable (Neat s) :=
  decidable_of_iff (Flat s ∧ Unreserved s) ⟨fun h => ⟨h.1, h.2⟩, fun h => ⟨h.1, h.2⟩⟩

/-- A symbol after a neat text cannot make its first word longer. -/
theorem Neat.append {a : String} (ha : Neat a) (hb : Flat b) (hs : StartsSymbol b) :
    Neat (a ++ b) where
  toFlat := ha.toFlat.append hb
  unreserved := by
    rw [Unreserved, String.toList_append, trimStart, dropWhile_append]
    split
    · exact hs.unreserved
    · rw [firstWord_append_of_head fun c hc => hs.head hc]
      exact ha.unreserved

theorem StartsSymbol.neat (h : StartsSymbol s) (hf : Flat s) : Neat s :=
  ⟨hf, h.unreserved⟩

/-! Trimming leaves the first word alone. -/

theorem firstWord_trimStart_unterminated (cs : List Char) :
    firstWord (trimStart (unterminated (trimStart cs))) = firstWord (trimStart cs) := by
  have start : trimStart (unterminated (trimStart cs)) = unterminated (trimStart cs) :=
    trimStart_of_head? fun c hc =>
      head?_trimStart (head?_dropEndWhile (head?_dropEndWhile (head?_dropEndWhile hc)))
  have semicolon : ∀ c : Char, (c == ';') = true → isWordChar c = false := by
    intro c hc
    obtain rfl : c = ';' := by simpa using hc
    decide
  rw [start, unterminated, firstWord_trimEnd, firstWord_dropEndWhile semicolon, firstWord_trimEnd]

theorem Neat.asExpression (h : Neat s) : Neat (Fragment.asExpression s) where
  toFlat := h.toFlat.asExpression
  unreserved := by
    rw [Unreserved, Fragment.asExpression, Text.toList_onChars, asExpression_eq,
      firstWord_trimStart_unterminated]
    exact h.unreserved

theorem Neat.asStatement (h : Neat s) : Neat (Fragment.asStatement s) where
  toFlat := h.toFlat.asStatement
  unreserved := by
    have semicolon : ∀ c, [';'].head? = some c → isWordChar c = false := by
      intro c hc
      obtain rfl : ';' = c := by simpa using hc
      decide
    have same : firstWord (Chars.asStatement (trimStart s.toList)) =
        firstWord (trimStart s.toList) := by
      simp only [Chars.asStatement]
      split
      · exact firstWord_trimEnd _
      · rw [firstWord_append_of_head semicolon]
        exact firstWord_trimEnd _
    rw [Unreserved, Fragment.asStatement, Text.toList_onChars, trimStart_asStatement, same]
    exact h.unreserved

theorem Neat.grouped (h : Neat s) : Neat (Fragment.grouped s) where
  toFlat := h.toFlat.grouped
  unreserved := by
    rw [Unreserved, Fragment.grouped, Text.toList_onChars, Chars.grouped]
    split
    · have start : trimStart (trim s.toList) = trim s.toList :=
        trimStart_of_head? fun c hc => head?_trimStart (head?_dropEndWhile hc)
      rw [start, trim, firstWord_trimEnd]
      exact h.unreserved
    · have blank : isBlank '(' = false := by decide
      have word : isWordChar '(' = false := by decide
      have none : firstWord ('(' :: (trim s.toList ++ [')'])) = [] := by simp [firstWord, word]
      rw [cons_append, trimStart_cons blank, none]
      decide

/-- **A neat text is read as a simple statement.** -/
theorem Neat.read?_eq (h : Neat s) :
    Line.read? (trimStart s.toList) =
      some (.statement (.simple (Text.trimStart s))) :=
  Line.read?_simple ((nested_trimStart _).2 h.nested) h.unreserved

end

def CType.HasNeatNames (records : String → String) (t : CType) : Prop :=
  ∀ name ∈ t.names records, Neat name

/-! ## Words and lists -/

theorem isBracket_of_isWordChar {c : Char} (h : isWordChar c = true) : isBracket c = false :=
  isBracket_eq_false (by decide) h

theorem flat_of_word {s : String} (h : ∀ c ∈ s.toList, isWordChar c = true) : Flat s where
  nested := nested_of_not_bracket fun c hc => isBracket_of_isWordChar (h c hc)
  single hc := absurd (isBlank_of_isWordChar (h _ hc)) (by decide)

theorem neat_of_word {s : String} (h : ∀ c ∈ s.toList, isWordChar c = true)
    (hr : s.toList ∉ Line.reserved) : Neat s where
  toFlat := flat_of_word h
  unreserved := by
    have start : trimStart s.toList = s.toList :=
      trimStart_of_head? fun c hc => isBlank_of_isWordChar (h c (List.mem_of_head? hc))
    rw [Unreserved, start, firstWord, List.takeWhile_eq_self_iff.2 h]
    exact hr

/-- A number is written with digits. -/
theorem isWordChar_of_mem_toString {n : Nat} {c : Char} (h : c ∈ (toString n).toList) :
    isWordChar c = true := by
  have digits : (toString n).toList = Nat.toDigits 10 n := String.toList_ofList
  rw [digits] at h
  have digit : c.isDigit = true := Nat.isDigit_of_mem_toDigits (by decide) (by decide) h
  simp [isWordChar, Char.isAlphanum, digit]

theorem flat_toString (n : Nat) : Flat (toString n) :=
  flat_of_word fun _ => isWordChar_of_mem_toString

theorem flat_list {texts : List String} (h : ∀ t ∈ texts, Neat t) :
    Flat (Text.joined ", " texts) :=
  flat_joined (by decide) fun t ht => (h t ht).toFlat

/-! ## Types -/

/-- A text that starts with a fixed piece in which the first word ends. -/
theorem neat_of_start {p s : String} (flat : Flat (p ++ s)) (hp : Unreserved p)
    (he : (trimStart p.toList).all isWordChar = false) : Neat (p ++ s) :=
  ⟨flat, hp.append he s⟩

theorem neat_pointer {s : String} (h : Flat s) : Neat ("*mut " ++ s) :=
  neat_of_start (Flat.append (by decide) h) (by decide) (by decide)

theorem neat_brackets {s t : String} (hs : Flat s) (ht : Flat t) :
    Neat ("[" ++ s ++ "; " ++ t ++ "]") := by
  have inside : Flat (s ++ "; " ++ t) := (hs.append (by decide)).append ht
  have wrapped := inside.wrap "[" "]" rfl rfl (by decide) (by decide)
  simp only [String.append_assoc] at wrapped ⊢
  exact neat_of_start wrapped (by decide) (by decide)

/-- **The forms of types and zeros are neat.** -/
theorem typesClosed_neat : TypesClosed Neat where
  fixed := by decide
  pointer h := neat_pointer h.toFlat
  array h n := neat_brackets h.toFlat (flat_toString n)
  zeroed h := by
    have wrapped := h.toFlat.wrap "unsafe \x7b std::mem::zeroed::<" ">() \x7d" rfl rfl (by decide)
      (by decide)
    rw [String.append_assoc] at wrapped ⊢
    exact neat_of_start wrapped (by decide) (by decide)
  function hp hr := by
    have wrapped := (flat_list hp).wrap "unsafe fn(" ") -> " rfl rfl (by decide) (by decide)
    have flat := wrapped.append hr.toFlat
    simp only [String.append_assoc] at flat ⊢
    exact neat_of_start flat (by decide) (by decide)
  procedure? hp := by
    have flat := (flat_list hp).wrap "Option<unsafe fn(" ")>" rfl rfl (by decide) (by decide)
    rw [String.append_assoc] at flat ⊢
    exact neat_of_start flat (by decide) (by decide)
  function? hp hr := by
    have wrapped := (flat_list hp).wrap "Option<unsafe fn(" ") -> " rfl rfl (by decide) (by decide)
    have flat := (wrapped.append hr.toFlat).append (b := ">") (by decide)
    simp only [String.append_assoc] at flat ⊢
    exact neat_of_start flat (by decide) (by decide)

/-- **A rendered type is neat.** -/
theorem neat_render {records : String → String} {t : CType} (h : t.HasNeatNames records) :
    Neat (t.render records) :=
  typesClosed_neat.render (fun _ => id) h

/-- **The zero of a type is neat.** -/
theorem neat_zeroValue {records : String → String} (t : CType) (h : t.HasNeatNames records) :
    Neat (zeroValue records t) :=
  typesClosed_neat.zeroValue (fun _ => id) t h

theorem startsSymbol_of_head {s : String}
    (h : (trimStart s.toList).head?.any (!isWordChar ·) = true) : StartsSymbol s := by
  cases chars : trimStart s.toList with
  | nil => simp [chars] at h
  | cons c cs => exact ⟨c, cs, chars, by simpa [chars] using h⟩

section Brackets

variable {b : String} (hb : Flat b) (p q : String) {open' : List Char}
  (hp : openAfter [] p.toList = some open') (hq : openAfter open' q.toList = some [])
  (np : '\n' ∉ p.toList) (nq : '\n' ∉ q.toList)
  (hs : (trimStart p.toList).head?.any (!isWordChar ·) = true)

include hb hp hq np nq hs

/-- A text in brackets is neat, whatever stands in them. -/
theorem neat_wrap : Neat (p ++ b ++ q) :=
  (((startsSymbol_of_head hs).append b).append q).neat (hb.wrap p q hp hq np nq)

/-- A neat text with a text in brackets behind it. -/
theorem Neat.wrap {a : String} (ha : Neat a) : Neat (a ++ p ++ b ++ q) := by
  have whole := ha.append (hb.wrap p q hp hq np nq)
    (((startsSymbol_of_head hs).append b).append q)
  simpa only [String.append_assoc] using whole

end Brackets

/-- A neat text with another behind it, and a symbol between them. -/
theorem Neat.link {a b : String} (ha : Neat a) (hb : Flat b) {link : String} (hl : Flat link)
    (hs : (trimStart link.toList).head?.any (!isWordChar ·) = true) : Neat (a ++ link ++ b) := by
  rw [String.append_assoc]
  exact ha.append (hl.append hb) ((startsSymbol_of_head hs).append b)

/-- Operators are written with symbols. -/
theorem flat_spelling (op : BinaryOp) : Flat (" " ++ op.spelling ++ " ") ∧
    (trimStart (" " ++ op.spelling ++ " ").toList).head?.any (!isWordChar ·) = true := by
  cases op with
  | arithmetic op | comparison op | logical op => cases op <;> decide
  | assign op? =>
    cases op? with
    | none => decide
    | some op => cases op <;> decide
  | comma => decide

theorem neat_conditional {c a b : String} (hc : Flat c) (ha : Flat a) (hb : Flat b) :
    Neat ("if " ++ c ++ " \x7b " ++ a ++ " \x7d else \x7b " ++ b ++ " \x7d") := by
  have first := ha.wrap " \x7b " " \x7d" rfl rfl (by decide) (by decide)
  have second := hb.wrap " else \x7b " " \x7d" rfl rfl (by decide) (by decide)
  have head : Flat ("if " ++ c) := Flat.append (by decide) hc
  have whole := (head.append first).append second
  have mid : (" \x7d else \x7b " : String) = " \x7d" ++ " else \x7b " := rfl
  rw [mid]
  simp only [String.append_assoc] at whole ⊢
  exact neat_of_start whole (by decide) (by decide)

/-- **The forms of expressions are neat.** -/
theorem expressionsClosed_neat : ExpressionsClosed Neat Neat where
  leaf := id
  empty := by decide
  null := by decide
  asExpression := Neat.asExpression
  asStatement := Neat.asStatement
  grouped := Neat.grouped
  before h mark hm := by
    have marks : ∀ mark ∈ ["-", "!"], Flat mark ∧
      (trimStart mark.toList).head?.any (!isWordChar ·) = true := by decide
    obtain ⟨flat, symbol⟩ := marks mark hm
    exact ((startsSymbol_of_head symbol).append _).neat (flat.append h.toFlat)
  behind h mark hm := by
    have marks : ∀ mark ∈ operandMarks, Flat mark ∧
      (trimStart mark.toList).head?.any (!isWordChar ·) = true := by decide
    obtain ⟨flat, symbol⟩ := marks mark hm
    exact h.append flat (startsSymbol_of_head symbol)
  between {a b} ha hb op := by
    obtain ⟨flat, symbol⟩ := flat_spelling op
    have whole := ha.link hb.toFlat flat symbol
    simpa only [String.append_assoc] using whole
  member ha hb := ha.link hb.toFlat (by decide) (by decide)
  index ha hb := ha.wrap hb.toFlat "[" "]" rfl rfl (by decide) (by decide) (by decide)
  call ha h := ha.wrap (flat_list h) "(" ")" rfl rfl (by decide) (by decide) (by decide)
  commas h := neat_wrap (flat_joined (by decide) fun t ht => (h t ht).toFlat) _ _ rfl rfl
    (by decide) (by decide) (by decide)
  conditional hc ha hb := neat_conditional hc.toFlat ha.toFlat hb.toFlat
  parens h := neat_wrap h.toFlat _ _ rfl rfl (by decide) (by decide) (by decide)
  field ha hb := ha.link hb.toFlat (by decide) (by decide)
  record ha h := ha.wrap (flat_list h) _ _ rfl rfl (by decide) (by decide) (by decide)
  array h := neat_wrap (flat_list h) _ _ rfl rfl (by decide) (by decide) (by decide)

section

open Draft List

/-! ## Identifiers -/

theorem isWordChar_sanitize {name : String} (h : ∀ c ∈ name.toList, isWordChar c = true) :
    ∀ c ∈ (sanitize name).toList, isWordChar c = true := by
  have marks : ∀ c ∈ ['r', '#', '_'], isWordChar c = true := by decide
  exact fun c hc => (mem_toList_sanitize hc).elim (h c) (marks c)

/-- No emitted name is a reserved word. -/
theorem sanitize_not_mem {words : List (List Char)}
    (reserved : ∀ w ∈ words, String.ofList w ∈ rawWords ∧ '_' ∉ w ∧ '#' ∉ w) (name : String) :
    (sanitize name).toList ∉ words := by
  have changed : ∀ w ∈ rawWords, sanitize w ≠ w := by decide
  intro hr
  obtain ⟨raw, line, hash⟩ := reserved _ hr
  rcases sanitize_cases name with same | ⟨-, same⟩ | ⟨-, same⟩ <;> rw [same] at raw line hash
  · exact changed name (by simpa using raw) same
  · exact line (by simp)
  · exact hash (by simp)

/-- **Every identifier of C is neat as it is emitted.** -/
theorem neat_sanitize {name : String} (h : ∀ c ∈ name.toList, isWordChar c = true) :
    Neat (sanitize name) :=
  neat_of_word (isWordChar_sanitize h) (sanitize_not_mem (by decide) name)

/-! ## Trees -/

namespace Node

mutual

/-- What passes from the children of every node to the node holds of every tree. -/
theorem induct {P : Node → Prop} (h : ∀ n : Node, (∀ c ∈ n.children, P c) → P n) :
    ∀ n, P n
  | ⟨kind, spelling, type, children, tokens, value, inSystemHeader, usr, location⟩ =>
    h ⟨kind, spelling, type, children, tokens, value, inSystemHeader, usr, location⟩
      (inductAll h children)

theorem inductAll {P : Node → Prop} (h : ∀ n : Node, (∀ c ∈ n.children, P c) → P n) :
    ∀ ns : List Node, ∀ c ∈ ns, P c
  | [] => by simp
  | n :: ns => by
    have first := induct h n
    have rest := inductAll h ns
    simpa using ⟨first, rest⟩

end

theorem walkAll_eq_flatMap (ns : List Node) : walkAll ns = ns.flatMap walk := by
  induction ns with
  | nil => rfl
  | cons n ns ih => simp [walkAll, ih]

theorem walk_eq (n : Node) : n.walk = n :: n.children.flatMap walk := by
  cases n
  simp [walk, walkAll_eq_flatMap]

theorem mem_walk_self (n : Node) : n ∈ n.walk := by
  rw [walk_eq]
  exact mem_cons_self

theorem mem_walk_of_child {n c m : Node} (hc : c ∈ n.children) (hm : m ∈ c.walk) : m ∈ n.walk := by
  rw [walk_eq]
  exact mem_cons_of_mem _ (mem_flatMap.2 ⟨c, hc, hm⟩)

theorem mem_walk_trans {n m k : Node} (hm : m ∈ n.walk) (hk : k ∈ m.walk) : k ∈ n.walk := by
  induction n using induct with
  | h n ih =>
    rw [walk_eq] at hm
    rcases mem_cons.1 hm with rfl | hm
    · exact hk
    · obtain ⟨c, hc, hm⟩ := mem_flatMap.1 hm
      exact mem_walk_of_child hc (ih c hc hm)

/-! ## Simple expressions -/

def operandType (n : Node) : CType :=
  match n.children with
  | operand :: _ => operand.type
  | [] => CType.ofTokens n.tokens

/-- **The names and literals that a node contributes to the text**, as they are emitted. -/
def words (reg : Registry) (n : Node) : List String :=
  match n.kind with
  | .declRefExpr => [Draft.reference reg n]
  | .memberRefExpr => [sanitize n.spelling]
  | .callExpr => sanitize n.spelling :: reg.functions.map (·.targetName)
  | .integerLiteral => [Literal.integer n.firstToken]
  | .floatingLiteral => [Literal.floating n.firstToken]
  | .characterLiteral => [Literal.character n.firstToken]
  | .stringLiteral => [Literal.string n.spelling]
  | .typeRef => n.type.names reg.recordName
  | .unaryExpr =>
    let word := n.tokens.head?.getD "sizeof"
    if word ∈ Draft.alignmentWords then []
    else if word = "sizeof" then n.operandType.names reg.recordName
    else [String.join n.tokens]
  | .initListExpr =>
    match Draft.definedRecord? reg n.type with
    | some entry =>
      entry.targetName ::
        entry.fields.flatMap fun f => sanitize f.name :: f.type.names reg.recordName
    | none => n.type.names reg.recordName
  | _ => []

end Node

/-- **A tree of expressions whose words are neat.** -/
def Node.IsSimple (reg : Registry) (n : Node) : Prop :=
  ∀ m ∈ n.walk, m.kind.isExpression = true ∧ ∀ word ∈ m.words reg, Neat word

instance (reg : Registry) (n : Node) : Decidable (n.IsSimple reg) :=
  inferInstanceAs (Decidable (∀ m ∈ n.walk, _ ∧ ∀ word ∈ m.words reg, Neat word))

theorem Node.IsSimple.child {reg : Registry} {n c : Node} (h : n.IsSimple reg)
    (hc : c ∈ n.children) : c.IsSimple reg :=
  fun m hm => h m (Node.mem_walk_of_child hc hm)

namespace Draft

variable {reg : Registry} {n : Node}

theorem neat_wordOperator (hk : n.kind = .unaryExpr) (hw : ∀ word ∈ n.words reg, Neat word) :
    Neat (wordOperator reg n) := by
  simp only [Node.words, hk] at hw
  unfold wordOperator
  dsimp only
  split
  · decide
  · rename_i align
    rw [if_neg align] at hw
    split
    · rename_i size
      rw [if_pos size] at hw
      have type : Flat (reg.renderType n.operandType) := (neat_render hw).toFlat
      have flat : Flat ("std::mem::size_of::<" ++ (reg.renderType n.operandType ++ ">()")) :=
        Flat.append (by decide) (type.append (by decide))
      show Neat ("std::mem::size_of::<" ++ reg.renderType n.operandType ++ ">()")
      rw [String.append_assoc]
      exact neat_of_start flat (by decide) (by decide)
    · rename_i size
      rw [if_neg size] at hw
      exact hw _ (by simp)

theorem neat_listLeaves (hk : n.kind = .initListExpr) (hw : ∀ word ∈ n.words reg, Neat word) :
    AllOf Neat (listLeaves reg n.type) := by
  simp only [Node.words, hk] at hw
  unfold listLeaves
  cases found : definedRecord? reg n.type with
  | some entry =>
    simp only [found] at hw
    refine forall_mem_cons.2 ⟨hw _ mem_cons_self, fun s hs => ?_⟩
    obtain ⟨f, hf, hs⟩ := mem_flatMap.1 hs
    have mem (word : String) (hm : word ∈ sanitize f.name :: f.type.names reg.recordName) :
        Neat word := hw word (mem_cons_of_mem _ (mem_flatMap.2 ⟨f, hf, hm⟩))
    have zero := neat_zeroValue f.type fun name hn => mem name (mem_cons_of_mem _ hn)
    simp only [mem_cons, not_mem_nil, or_false] at hs
    rcases hs with rfl | rfl
    · exact mem _ mem_cons_self
    · exact zero
  | none =>
    simp only [found] at hw
    dsimp only
    split
    · rename_i element size array
      rw [array] at hw
      exact allOf_singleton (neat_zeroValue element hw)
    · exact allOf_nil

theorem neat_leaves (hw : ∀ word ∈ n.words reg, Neat word) (hk : n.kind.isExpression = true) :
    AllOf Neat (n.leaves reg) := by
  cases kind : n.kind <;> simp only [Node.leaves, kind]
  case typeRef =>
    simp only [Node.words, kind] at hw
    exact allOf_singleton (neat_render hw)
  case unaryExpr => exact allOf_singleton (neat_wordOperator kind hw)
  case initListExpr => exact neat_listLeaves kind hw
  case declRefExpr | memberRefExpr | callExpr | integerLiteral | floatingLiteral
    | characterLiteral | stringLiteral => simpa only [Node.words, kind] using hw
  case fieldDecl | varDecl | labelRef | labelStmt | gotoStmt =>
    simp [kind, Kind.isExpression] at hk
  all_goals exact allOf_nil

/-- **A simple expression settles**: no context changes its text. -/
theorem within_ofNode (n : Node) (h : n.IsSimple reg) (ctx ctx' : Context) :
    (ofNode reg n).Within Neat ctx ctx' := by
  induction n using Node.induct with
  | h n ih =>
    obtain ⟨kind, words⟩ := h n n.mem_walk_self
    have parts : ∀ d ∈ n.children.map (ofNode reg), d.Within Neat ctx ctx' := by
      intro d hd
      obtain ⟨c, hc, rfl⟩ := mem_map.1 hd
      exact ih c hc (h.child hc)
    have text : Shared Neat ctx ctx' (ofNode reg n).text := by
      rw [text_ofNode]
      exact expressionsClosed_neat.compose parts kind (neat_leaves words kind)
    exact ⟨text, expressionsClosed_neat.statements parts text (parts_ofNode reg n)⟩

end Draft

namespace Node

variable (reg : Registry)

/-- **The text of an expression**, which no context changes. -/
def plainText (n : Node) : String :=
  (n.emit reg {}).value

def expressionText (n : Node) : String :=
  Fragment.asExpression (n.plainText reg)

/-- The text of an expression used for its truth value. -/
def conditionText (n : Node) : String :=
  n.materialize (n.expressionText reg)

/-- The text of an expression as a statement, without blanks in front; none when it is empty. -/
def statementTexts (n : Node) : List String :=
  (Draft.asStatements (n.plainText reg)).map Text.trimStart

mutual

/-- The operands of the commas of an expression, in order. -/
def operands : Node → List Node
  | n@⟨kind, _, _, children, _, _, _, _, _⟩ =>
    if kind = .binaryOperator .comma then operandsAll children else [n]

/-- The operands of several expressions. -/
def operandsAll : List Node → List Node
  | [] => []
  | c :: cs => c.operands ++ operandsAll cs

end

theorem operandsAll_eq_flatMap (ns : List Node) : operandsAll ns = ns.flatMap operands := by
  induction ns with
  | nil => rfl
  | cons n ns ih => simp [operandsAll, ih]

theorem operands_eq (n : Node) :
    n.operands = if n.kind = .binaryOperator .comma then n.children.flatMap operands else [n] := by
  cases n
  simp only [operands, operandsAll_eq_flatMap]

variable {reg} {n : Node} (h : n.IsSimple reg)

include h

variable (ctx : Context)

theorem text_value : ((ofNode reg n).text ctx).value = n.plainText reg :=
  (within_ofNode n h {} ctx).text.2

theorem expression_value : ((ofNode reg n).expression ctx).value = n.expressionText reg := by
  rw [expression, Logged.value_map, text_value h, expressionText]

theorem condition_value : ((ofNode reg n).condition ctx).value = n.conditionText reg := by
  rw [condition, Logged.value_map, expression_value h, node_ofNode, conditionText]

theorem neat_plainText : Neat (n.plainText reg) :=
  (within_ofNode n h {} {}).text.1

theorem neat_expressionText : Neat (n.expressionText reg) :=
  (neat_plainText h).asExpression

theorem neat_conditionText : Neat (n.conditionText reg) :=
  expressionsClosed_neat.materialize (neat_expressionText h) n

theorem isSimple_of_mem_operands {m : Node} (hm : m ∈ n.operands) : m.IsSimple reg := by
  induction n using induct with
  | h n ih =>
    rw [operands_eq] at hm
    split at hm
    · obtain ⟨c, hc, hm⟩ := mem_flatMap.1 hm
      exact ih c hc (h.child hc) hm
    · obtain rfl := mem_singleton.1 hm
      exact h

/-- **An expression in statement position** is one statement for each operand of its commas. -/
theorem statements_value :
    ((ofNode reg n).statements ctx).value =
      n.operands.flatMap fun m => asStatements (m.plainText reg) := by
  induction n using induct with
  | h n ih =>
    rw [statements_eq, node_ofNode, operands_eq]
    split
    · rw [parts_ofNode, flatMap_assoc, value_statementsOf, flatMap_map,
        flatMap_def, flatMap_def]
      exact congrArg flatten (map_congr_left fun c hc => ih c hc (h.child hc))
    · rw [Logged.value_map, text_value h]
      simp

-- Unfolding the text of a node runs the whole composition; the lemmas above say what is needed.
attribute [irreducible] plainText expressionText conditionText

end Node

end

end Ferric
