import Ferric.Proofs.Flow.RustStmt

/-!
# Jumps and the blocks they stand in

To find the jumps of an emitted text and the blocks they stand in, the text is cut into lexemes:
words, labels, braces, and symbols of no further interest.  A raw identifier is one word with its
mark, and so a name and no keyword.  Character and string constants are passed over, whatever they
hold.  An apostrophe starts a label or a character constant, and only what follows tells which; a
brace is told apart by whether its line ends behind it.  The layout of a text does not matter for
its lexemes: blanks at its ends, the indentation of its lines, and the way the lines end.

A reader of lexemes keeps the blocks that are open, and notes each `break` and `continue` with the
innermost loop or labelled block around it and with its label.  A block is that of a loop or of a
label by what stands in front of it: a label names the block that comes next, and the block of a
loop is the one whose brace ends the line of its head.  All other blocks belong to what is around
them.  Lexemes are described by what they do to a reader, whatever that reader has open: all jumps
among them are legal, and no region is left.

## Main definitions

* `LexMode.lex`, `lexemes?`: the lexemes of a text, from a mode on and as a whole.
* `JumpReader`: the reader, with `JumpReader.step` and `JumpReader.run`.
* `JumpReader.read?`: the jumps of a text.
* `Grade`, `Nests`: where a text may stand, and lexemes that can be read wherever that allows.

## Main results

* `lexemes?_append`: texts that do not run into each other.
* `lexemes?_concat`: what a character at the end adds.
* `lex_indented_of_lexemes?`: indentation.
* `Nests.append`, `Nests.lexemes`: lexemes one after the other.
* `Nests.of_symbol_cons`, `Nests.of_concat_symbol`: symbols at the ends are of no importance.
-/

namespace Ferric

open Chars Option

section

/-- **A piece of text**, as far as jumps and blocks are concerned. -/
inductive Lexeme where
  /-- Letters, digits, underscores and the mark of a raw identifier. -/
  | word (w : List Char)
  /-- A label that is used. -/
  | label (w : List Char)
  /-- A label that is given, with its colon. -/
  | heading (w : List Char)
  | opening (endsLine : Bool)
  | closing
  | symbol
deriving DecidableEq, Repr

/-- What the next character may go on with. -/
inductive LexMode where
  | word (w : List Char)
  /-- After an apostrophe: a label or a character constant. -/
  | tick (w : List Char)
  | char
  | charEscape
  | text
  | textEscape
  /-- After an opening brace: the line may end here. -/
  | brace
deriving DecidableEq, Repr

namespace LexMode

/-- What a character starts that is not a part of a word. -/
def start (c : Char) : List Lexeme × LexMode :=
  if c = '\'' then ([], .tick [])
  else if c = '"' then ([], .text)
  else if c = '\x7b' then ([], .brace)
  else if c = '\x7d' then ([.closing], .word [])
  else if isBlank c then ([], .word [])
  else ([.symbol], .word [])

/-- The word read so far. -/
def wordLexemes (w : List Char) : List Lexeme :=
  if w.isEmpty then [] else [.word w]

/-- **One character**: the lexemes it completes, and the next mode. -/
def step : LexMode → Char → List Lexeme × LexMode
  | .word w, c =>
    if isWordChar c then ([], .word (w ++ [c])) else (wordLexemes w ++ (start c).1, (start c).2)
  | .tick w, c =>
    if isWordChar c then ([], .tick (w ++ [c]))
    else if c = '\'' then ([], .word [])
    else if w.isEmpty then ([], if c = '\\' then .charEscape else .char)
    else if c = ':' then ([.heading w], .word [])
    else (.label w :: (start c).1, (start c).2)
  | .char, c => ([], if c = '\'' then .word [] else if c = '\\' then .charEscape else .char)
  | .charEscape, _ => ([], .char)
  | .text, c => ([], if c = '"' then .word [] else if c = '\\' then .textEscape else .text)
  | .textEscape, _ => ([], .text)
  | .brace, c =>
    if c = '\n' then ([.opening true], .word [])
    else if c = '\r' then ([], .brace)
    else if isWordChar c then ([.opening false], .word [c])
    else (.opening false :: (start c).1, (start c).2)

/-- **The lexemes of a text** from a mode on, and the mode after it. -/
def lex (m : LexMode) : List Char → List Lexeme × LexMode
  | [] => ([], m)
  | c :: cs => ((m.step c).1 ++ ((m.step c).2.lex cs).1, ((m.step c).2.lex cs).2)

/-- What is left to be done where a text ends, if it may end there. -/
def rest? : LexMode → Option (List Lexeme)
  | .word w => some (wordLexemes w)
  | .tick w => if w.isEmpty then none else some [.label w]
  | _ => none

theorem lex_append (m : LexMode) (as bs : List Char) :
    m.lex (as ++ bs) =
      ((m.lex as).1 ++ ((m.lex as).2.lex bs).1, ((m.lex as).2.lex bs).2) := by
  induction as generalizing m with
  | nil => rfl
  | cons a as ih => simp [lex, ih]

end LexMode

open LexMode

/-- **The lexemes of a whole text**; none when it ends within a constant or after a brace. -/
def lexemes? (cs : List Char) : Option (List Lexeme) :=
  ((word []).lex cs).2.rest?.map (((word []).lex cs).1 ++ ·)

variable {cs as bs : List Char} {ts : List Lexeme} {m : LexMode} {c : Char}

theorem lexemes?_eq_some_iff :
    lexemes? cs = some ts ↔ ∃ now m rest, (word []).lex cs = (now, m) ∧
      m.rest? = some rest ∧ ts = now ++ rest := by
  constructor
  · intro h
    obtain ⟨rest, found, rfl⟩ := map_eq_some_iff.1 h
    exact ⟨_, _, rest, rfl, found, rfl⟩
  · rintro ⟨now, m, rest, lexed, found, rfl⟩
    rw [lexemes?, lexed, found, map_some]

/-- A text that ends between words has the lexemes that were completed. -/
theorem lexemes?_of_lex (h : (word []).lex cs = (ts, .word [])) : lexemes? cs = some ts :=
  lexemes?_eq_some_iff.2 ⟨ts, .word [], [], h, rfl, by simp⟩

/-! ## Texts that do not run into each other -/

/-- A character that ends a word or a label before it. -/
def separates (c : Char) : Bool :=
  !isWordChar c && c != '\'' && c != ':'

/-- A word or a label is complete where a separating character follows. -/
theorem LexMode.step_of_separates {rest : List Lexeme} (h : m.rest? = some rest)
    (hc : separates c = true) :
    m.step c = (rest ++ ((word []).step c).1, ((word []).step c).2) := by
  simp only [separates, Bool.and_eq_true, Bool.not_eq_true', bne_iff_ne, ne_eq] at hc
  obtain ⟨⟨other, tick⟩, colon⟩ := hc
  cases m with
  | word w =>
    cases h
    simp [step, other, wordLexemes]
  | tick w =>
    simp only [rest?, ite_none_left_eq_some, some.injEq] at h
    obtain ⟨some, rfl⟩ := h
    simp [step, other, tick, colon, some, wordLexemes]
  | _ => cases h

/-- **Texts that do not run into each other**: a separating character comes next, or the first text
ends between words. -/
theorem lexemes?_append {us : List Lexeme} (ha : lexemes? as = some ts) (hb : lexemes? bs = some us)
    (apart : ((word []).lex as).2 = .word [] ∨ ∀ c ∈ bs.head?, separates c = true) :
    lexemes? (as ++ bs) = some (ts ++ us) := by
  obtain ⟨now, m, rest, lexed, found, rfl⟩ := lexemes?_eq_some_iff.1 ha
  rw [lexed] at apart
  rw [lexemes?] at hb ⊢
  obtain ⟨last, ends, rfl⟩ := map_eq_some_iff.1 hb
  rw [lex_append, lexed]
  rcases apart with between | apart
  · -- nothing is left of the first text
    obtain rfl : m = .word [] := between
    cases found
    simp [ends, wordLexemes]
  · cases bs with
    | nil => simp_all [lex, rest?, wordLexemes]
    | cons c bs =>
      have first := step_of_separates found (apart c rfl)
      simp only [lex] at ends ⊢
      rw [first]
      simp [ends]

/-- What follows a text that ends between words. -/
theorem LexMode.lex_append_of_lex (h : (word []).lex as = (ts, .word [])) :
    (word []).lex (as ++ bs) =
      (ts ++ ((word []).lex bs).1, ((word []).lex bs).2) := by
  rw [lex_append, h]

/-- The same where a separating character comes next. -/
theorem LexMode.lex_append_of_separates (ha : lexemes? as = some ts) (some : bs ≠ [])
    (apart : ∀ c ∈ bs.head?, separates c = true) :
    (word []).lex (as ++ bs) =
      (ts ++ ((word []).lex bs).1, ((word []).lex bs).2) := by
  obtain ⟨now, m, rest, lexed, found, rfl⟩ := lexemes?_eq_some_iff.1 ha
  obtain ⟨c, cs, rfl⟩ := List.exists_cons_of_ne_nil some
  rw [lex_append, lexed]
  simp only [lex]
  rw [step_of_separates found (apart c rfl)]
  simp

/-- A word is complete where any other character follows. -/
theorem LexMode.lex_word (w : List Char) (hc : isWordChar c = false) (cs : List Char) :
    (word w).lex (c :: cs) =
      (wordLexemes w ++ ((word []).lex (c :: cs)).1,
        ((word []).lex (c :: cs)).2) := by
  simp [lex, step, hc, wordLexemes]

/-! ## Blanks at the ends -/

theorem separates_of_isBlank (h : isBlank c = true) : separates c = true := by
  have other : isWordChar c = false := by
    cases word : isWordChar c with
    | false => rfl
    | true => rw [isBlank_of_isWordChar word] at h; cases h
  have tick : c ≠ '\'' := by
    rintro rfl
    exact absurd h (by decide)
  have colon : c ≠ ':' := by
    rintro rfl
    exact absurd h (by decide)
  simp [separates, other, tick, colon]

/-- Between words a blank does nothing. -/
theorem LexMode.step_blank (h : isBlank c = true) : (word []).step c = ([], .word []) := by
  have other : isWordChar c = false := by
    have := separates_of_isBlank h
    simp only [separates, Bool.and_eq_true, Bool.not_eq_true'] at this
    exact this.1.1
  have special : ∀ d ∈ ['\'', '"', '\x7b', '\x7d'], c ≠ d := by
    intro d hd
    rintro rfl
    have none : ∀ d ∈ ['\'', '"', '\x7b', '\x7d'], isBlank d = false := by decide
    rw [none c hd] at h
    cases h
  simp only [List.mem_cons, List.not_mem_nil, or_false, forall_eq_or_imp, forall_eq] at special
  obtain ⟨h₁, h₂, h₃, h₄⟩ := special
  simp [step, other, start, h₁, h₂, h₃, h₄, h, wordLexemes]

/-- Blanks in front have no lexemes. -/
theorem lexemes?_trimStart (cs : List Char) : lexemes? (trimStart cs) = lexemes? cs := by
  induction cs with
  | nil => rfl
  | cons c cs ih =>
    cases blank : isBlank c with
    | false => rw [trimStart, List.dropWhile_cons_of_neg (by simp [blank])]
    | true =>
      have same : lexemes? (c :: cs) = lexemes? cs := by
        simp [lexemes?, lex, step_blank blank]
      rw [trimStart, List.dropWhile_cons_of_pos blank, same]
      exact ih

/-- **What a character at the end adds**: its own lexemes, unless a brace stands before it. -/
theorem lexemes?_concat {us : List Lexeme} (h : lexemes? (cs ++ [c]) = some ts)
    (hc : separates c = true) (single : (word []).step c = (us, .word [])) :
    (∃ ts', lexemes? cs = some ts' ∧ ts = ts' ++ us) ∨
      ∃ ts' endsLine, ts = ts' ++ .opening endsLine :: us := by
  obtain ⟨now, m, rest, lexed, found, rfl⟩ := lexemes?_eq_some_iff.1 h
  rw [lex_append] at lexed
  generalize before : (word []).lex cs = state at lexed
  obtain ⟨done, m'⟩ := state
  simp only [lex, List.append_nil, Prod.mk.injEq] at lexed
  obtain ⟨rfl, rfl⟩ := lexed
  obtain ⟨⟨other, tick⟩, -⟩ : (isWordChar c = false ∧ c ≠ '\'') ∧ c ≠ ':' := by
    simpa [separates] using hc
  -- a constant would go on, and the text would not end
  cases m' with
  | word w =>
    have last := step_of_separates (m := .word w) rfl hc
    rw [last, single] at found ⊢
    cases found
    exact .inl ⟨_, lexemes?_eq_some_iff.2 ⟨_, _, _, before, rfl, rfl⟩, by simp [wordLexemes]⟩
  | tick w =>
    by_cases empty : w.isEmpty = true
    · simp only [step, other, tick, empty, if_true, if_false, Bool.false_eq_true] at found
      split at found <;> cases found
    · have left : (LexMode.tick w).rest? = some [.label w] := by simp [rest?, empty]
      have last := step_of_separates left hc
      rw [last, single] at found ⊢
      cases found
      exact .inl ⟨_, lexemes?_eq_some_iff.2 ⟨_, _, _, before, left, rfl⟩, by simp [wordLexemes]⟩
  | char =>
    simp only [step, tick, if_false] at found
    split at found <;> cases found
  | charEscape | textEscape => cases found
  | text =>
    have quote : c ≠ '"' := by
      rintro rfl
      cases single
    simp only [step, quote, if_false] at found
    split at found <;> cases found
  | brace =>
    right
    by_cases feed : c = '\n'
    · subst feed
      rw [step_blank (by decide)] at single
      cases single
      cases found
      exact ⟨done, true, by simp [step, wordLexemes]⟩
    · by_cases back : c = '\r'
      · simp [step, back, rest?] at found
      · have last : brace.step c = (.opening false :: us, .word []) := by
          simp only [step, other, Bool.false_eq_true, if_false, wordLexemes, List.isEmpty_nil,
            if_true, List.nil_append, Prod.mk.injEq] at single
          simp [step, other, feed, back, single]
        rw [last] at found ⊢
        cases found
        exact ⟨done, false, by simp [wordLexemes]⟩

/-! ## Lines -/

/-- The modes in which a line starts, where blanks do nothing. -/
def LexMode.startsLine : LexMode → Bool
  | .word w => w.isEmpty
  | .char | .text => true
  | _ => false

/-- After the end of a line another one starts. -/
theorem LexMode.startsLine_step (m : LexMode) : (m.step '\n').2.startsLine = true := by
  cases m with
  | tick w =>
    by_cases empty : w.isEmpty = true <;>
      simp [step, empty, startsLine, start, show isWordChar '\n' = false by decide,
        show isBlank '\n' = true by decide]
  | _ => rfl

/-- A carriage return at the end of a line changes nothing. -/
theorem LexMode.lex_carriageReturn (m : LexMode) (cs : List Char) :
    m.lex ('\r' :: '\n' :: cs) = m.lex ('\n' :: cs) := by
  cases m with
  | tick w =>
    by_cases empty : w.isEmpty = true <;>
      simp [lex, step, empty, start, wordLexemes, show isWordChar '\n' = false by decide,
        show isBlank '\n' = true by decide, show isWordChar '\r' = false by decide,
        show isBlank '\r' = true by decide]
  | word w =>
    simp [lex, step, start, wordLexemes, show isWordChar '\n' = false by decide,
        show isBlank '\n' = true by decide, show isWordChar '\r' = false by decide,
        show isBlank '\r' = true by decide]
  | _ => rfl

theorem LexMode.lex_blank (hm : m.startsLine = true) (h : ∀ c ∈ bs, isBlank c = true) :
    m.lex bs = ([], m) := by
  induction bs with
  | nil => rfl
  | cons b bs ih =>
    have blank := h b List.mem_cons_self
    have same : m.step b = ([], m) := by
      cases m with
      | word w =>
        obtain rfl : w = [] := by simpa [startsLine] using hm
        exact step_blank blank
      | char =>
        have tick : b ≠ '\'' := by rintro rfl; exact absurd blank (by decide)
        have escape : b ≠ '\\' := by rintro rfl; exact absurd blank (by decide)
        simp [step, tick, escape]
      | text =>
        have quote : b ≠ '"' := by rintro rfl; exact absurd blank (by decide)
        have escape : b ≠ '\\' := by rintro rfl; exact absurd blank (by decide)
        simp [step, quote, escape]
      | _ => cases hm
    rw [lex, same, ih fun c hc => h c (List.mem_cons_of_mem _ hc)]
    rfl

/-- Indentation changes no lexeme of a line. -/
theorem LexMode.lex_indentLine (hm : m.startsLine = true) (depth : Nat) (line : List Char) :
    m.lex (indentLine depth line) = m.lex (line ++ ['\n']) := by
  unfold indentLine
  split
  · rename_i blank
    rw [lex_append, lex_blank hm fun c hc => List.all_eq_true.1 blank c hc]
    rfl
  · have spaces : ∀ c ∈ (List.replicate depth level).flatten, isBlank c = true := by
      intro c hc
      obtain ⟨l, hl, hc⟩ := List.mem_flatten.1 hc
      rw [List.eq_of_mem_replicate hl] at hc
      have all : ∀ c ∈ level, isBlank c = true := by decide
      exact all c hc
    rw [List.append_assoc, lex_append, lex_blank hm spaces]
    rfl

theorem LexMode.lex_indentLines (hm : m.startsLine = true) (depth : Nat)
    (lines : List (List Char)) :
    m.lex (lines.flatMap (indentLine depth)) = m.lex (lines.flatMap (· ++ ['\n'])) := by
  induction lines generalizing m with
  | nil => rfl
  | cons line lines ih =>
    have next : (m.lex (line ++ ['\n'])).2.startsLine = true := by
      rw [lex_append]
      exact startsLine_step _
    rw [List.flatMap_cons, List.flatMap_cons, lex_append, lex_append, lex_indentLine hm, ih next]

/-- The text with a line feed at its end, unless it is empty or has one. -/
def ended (cs : List Char) : List Char :=
  if cs.getLast?.all (· == '\n') then cs else cs ++ ['\n']

theorem ended_cons (c : Char) (h : cs ≠ []) : ended (c :: cs) = c :: ended cs := by
  rw [ended, ended, List.getLast?_cons_of_ne_nil h]
  split <;> rfl

theorem ended_lineFeed_cons (cs : List Char) : ended ('\n' :: cs) = '\n' :: ended cs := by
  cases cs with
  | nil => rfl
  | cons c cs => exact ended_cons '\n' (List.cons_ne_nil c cs)

theorem Chars.lines_ne_nil (c : Char) (cs : List Char) : lines (c :: cs) ≠ [] := by
  rw [lines.eq_def]
  split
  · rename_i empty
    cases empty
  · exact List.cons_ne_nil _ _
  · exact List.cons_ne_nil _ _
  · split <;> exact List.cons_ne_nil _ _

/-- **Taking the lines of a text and putting them together again** changes no lexeme. -/
theorem LexMode.lex_lines (m : LexMode) (cs : List Char) :
    m.lex ((lines cs).flatMap (· ++ ['\n'])) = m.lex (ended cs) := by
  fun_induction lines cs generalizing m with
  | case1 => rfl
  | case2 cs ih =>
    rw [ended_lineFeed_cons, List.flatMap_cons]
    simp only [List.nil_append, List.cons_append, lex, ih]
  | case3 cs ih =>
    rw [ended_cons '\r' (List.cons_ne_nil _ _), ended_lineFeed_cons, lex_carriageReturn,
      List.flatMap_cons]
    simp only [List.nil_append, List.cons_append, lex, ih]
  | case4 c cs feed _ none ih =>
    -- a text without lines is empty, so the character is the last one
    obtain rfl : cs = [] := by
      cases cs with
      | nil => rfl
      | cons d cs => exact absurd none (lines_ne_nil d cs)
    have open_ended : ended [c] = [c, '\n'] := if_neg (by simpa using feed)
    rw [open_ended]
    rfl
  | case5 c cs _ _ line rest split ih =>
    have some : cs ≠ [] := by
      rintro rfl
      cases split
    rw [split] at ih
    rw [ended_cons c some, List.flatMap_cons]
    simp only [List.cons_append, lex, ← ih, List.flatMap_cons]

/-- **Indentation changes no lexeme.** -/
theorem LexMode.lex_indented (hm : m.startsLine = true) (depth : Nat) (cs : List Char) :
    m.lex (indented depth cs) = m.lex (ended cs) := by
  rw [indented, lex_indentLines hm, lex_lines]

/-- **An indented text has the same lexemes**, and ends between words, with its last line. -/
theorem lex_indented_of_lexemes? (h : lexemes? cs = some ts) (depth : Nat) :
    (word []).lex (indented depth cs) = (ts, .word []) := by
  rw [lex_indented rfl, ended]
  split
  · rename_i last
    obtain ⟨now, m, rest, lexed, found, rfl⟩ := lexemes?_eq_some_iff.1 h
    have starts : m.startsLine = true := by
      rcases List.eq_nil_or_concat cs with rfl | ⟨before, c, rfl⟩
      · cases lexed
        rfl
      · obtain rfl : c = '\n' := by simpa using last
        rw [List.concat_eq_append, lex_append] at lexed
        cases lexed
        exact startsLine_step _
    -- where a line starts, a text may only end between words
    cases m with
    | word w =>
      obtain rfl : w = [] := by simpa [startsLine] using starts
      cases found
      simp [lexed, wordLexemes]
    | char | text => cases found
    | _ => cases starts
  · rw [lex_append_of_separates h (by simp) (by decide)]
    simp [lex, step_blank (show isBlank '\n' = true by decide)]

end

section

/-- **What a jump without a label would leave**: the innermost loop or labelled block. -/
inductive Region where
  | outside | loop | labelled
deriving DecidableEq, Repr

/-- What the next block is. -/
inductive BlockHead where
  | none | label | loop
deriving DecidableEq, Repr

/-- A `break` or a `continue`, with the region it stands in. -/
structure Jump where
  region : Region
  label? : Option (List Char)
deriving DecidableEq, Repr

/-- A jump without a label must not stand directly in a labelled block. -/
def Jump.IsLegal (j : Jump) : Prop :=
  j.region = .labelled → j.label? ≠ none

instance (j : Jump) : Decidable j.IsLegal :=
  inferInstanceAs (Decidable (j.region = .labelled → j.label? ≠ none))

/-- **A reader of jumps.** -/
structure JumpReader where
  region : Region := .outside
  /-- The regions around the innermost block. -/
  outer : List Region := []
  head : BlockHead := .none
  /-- The region of a jump whose label may come next. -/
  pending : Option Region := none
  jumps : List Jump := []
deriving DecidableEq, Repr

def jumpWords : List (List Char) :=
  ["break".toList, "continue".toList]

def loopWords : List (List Char) :=
  ["while".toList, "loop".toList]

namespace JumpReader

/-- Note the jump that was read last, with its label. -/
def settle (r : JumpReader) (label? : Option (List Char)) : JumpReader :=
  match r.pending with
  | none => r
  | some region => { r with pending := none, jumps := r.jumps ++ [⟨region, label?⟩] }

/-- **One lexeme**; none where a brace is closed that was not opened. -/
def step (r : JumpReader) : Lexeme → Option JumpReader
  | .label w => some (r.settle (some w))
  | .word w =>
    let r := r.settle none
    if jumpWords.contains w then some { r with pending := some r.region }
    else if loopWords.contains w then some { r with head := .loop }
    else some r
  | .heading _ => some { r.settle none with head := .label }
  | .opening endsLine =>
    let r := r.settle none
    let outer := r.region :: r.outer
    match r.head, endsLine with
    | .label, _ => some { r with region := .labelled, outer, head := .none }
    | .loop, true => some { r with region := .loop, outer, head := .none }
    | _, _ => some { r with outer }
  | .closing =>
    let r := r.settle none
    match r.outer with
    | [] => none
    | region :: outer => some { r with region, outer }
  | .symbol => some (r.settle none)

def run (r : JumpReader) : List Lexeme → Option JumpReader
  | [] => some r
  | t :: ts => (r.step t).bind fun next => next.run ts

/-- **The jumps of a text**, if the text ends between words and its braces match. -/
def read? (text : String) : Option (List Jump) :=
  (lexemes? text.toList).bind fun ts =>
    (({} : JumpReader).run ts).bind fun r =>
      if r.outer.isEmpty then some (r.settle none).jumps else none

theorem run_append (r : JumpReader) (ts us : List Lexeme) :
    r.run (ts ++ us) = (r.run ts).bind fun next => next.run us := by
  induction ts generalizing r with
  | nil => rfl
  | cons t ts ih => simp only [List.cons_append, run, ih, bind_assoc]

/-- All jumps are legal, and so is the last one if it gets no label. -/
structure Ready (r : JumpReader) : Prop where
  jumps : ∀ j ∈ r.jumps, j.IsLegal
  pending : ∀ region ∈ r.pending, region ≠ .labelled

/-- A reader with the same blocks open. -/
structure Same (r r' : JumpReader) : Prop where
  region : r'.region = r.region
  outer : r'.outer = r.outer
  head : r'.head = r.head

theorem Same.refl (r : JumpReader) : r.Same r := ⟨rfl, rfl, rfl⟩

variable {r : JumpReader}

theorem Same.trans {s t : JumpReader} (h : r.Same s) (h' : s.Same t) : r.Same t :=
  ⟨h'.region.trans h.region, h'.outer.trans h.outer, h'.head.trans h.head⟩

theorem same_settle (r : JumpReader) (label? : Option (List Char)) : r.Same (r.settle label?) := by
  unfold settle
  split <;> exact ⟨rfl, rfl, rfl⟩

@[simp] theorem pending_settle (r : JumpReader) (label? : Option (List Char)) :
    (r.settle label?).pending = none := by
  unfold settle
  split
  · assumption
  · rfl

theorem settle_of_pending (h : r.pending = none) (label? : Option (List Char)) :
    r.settle label? = r := by
  rw [settle, h]

theorem Ready.settle (h : r.Ready) (label? : Option (List Char)) : (r.settle label?).Ready := by
  unfold JumpReader.settle
  split
  · exact h
  · rename_i region last
    refine ⟨fun j hj => ?_, by simp⟩
    rcases List.mem_append.1 hj with hj | hj
    · exact h.jumps j hj
    · obtain rfl := List.mem_singleton.1 hj
      exact fun labelled => absurd labelled (h.pending region last)

/-- A jump that gets no label is legal if all jumps are, with this one among them. -/
theorem ready_of_settle (h : (r.settle none).Ready) : r.Ready := by
  unfold settle at h
  split at h
  · exact h
  · rename_i region last
    refine ⟨fun j hj => h.jumps j (List.mem_append_left _ hj), fun other hr => ?_⟩
    obtain rfl : region = other := some.inj (last.symm.trans hr)
    intro labelled
    exact h.jumps ⟨region, none⟩ (List.mem_append_right _ (List.mem_singleton.2 rfl)) labelled rfl

theorem step_settle (r : JumpReader) (t : Lexeme) :
    ∃ label?, r.step t = (r.settle label?).step t := by
  have again (label? : Option (List Char)) (r : JumpReader) :
      (r.settle label?).settle none = r.settle label? :=
    settle_of_pending (pending_settle r label?) none
  cases t with
  | label w =>
    refine ⟨some w, ?_⟩
    rw [step, step, settle_of_pending (pending_settle r _)]
  | _ =>
    refine ⟨none, ?_⟩
    simp only [step, again]

/-- A brace within a line opens nothing of its own. -/
theorem step_opening_false (h : r.head ≠ .label) :
    r.step (.opening false) =
      some { r.settle none with outer := (r.settle none).region :: (r.settle none).outer } := by
  have head := (same_settle r none).head
  rw [← head] at h
  simp only [step]
  cases next : (r.settle none).head with
  | label => exact absurd next h
  | none => rfl
  | loop => rfl

theorem step_closing {region : Region} {outer : List Region} (h : r.outer = region :: outer) :
    r.step .closing = some { r.settle none with region, outer } := by
  have open_blocks := (same_settle r none).outer.trans h
  simp only [step, open_blocks]

/-- With some blocks more that are open and belong to the present region. -/
def nest (k : Nat) (r : JumpReader) : JumpReader :=
  { r with outer := List.replicate k r.region ++ r.outer }

end JumpReader

open JumpReader

/-! ## Grades -/

/-- **Where a text may stand**: anywhere but between a label and its block; in front of no block; or
even only where a jump needs no label. -/
inductive Grade where
  | quiet | safe | jumping
deriving DecidableEq, Repr

/-- Whether a text of a grade may come next. -/
def Grade.Admits : Grade → JumpReader → Prop
  | .quiet, r => r.head ≠ .label
  | .safe, r => r.head = .none
  | .jumping, r => r.head = .none ∧ r.region ≠ .labelled

theorem Grade.Admits.congr {g : Grade} {r r' : JumpReader} (h : g.Admits r)
    (region : r'.region = r.region) (head : r'.head = r.head) : g.Admits r' := by
  cases g with
  | quiet => exact fun label => h (head ▸ label)
  | safe => exact head.trans h
  | jumping => exact ⟨head.trans h.1, fun labelled => h.2 (region ▸ labelled)⟩

/-- What may stand anywhere may stand here. -/
theorem Grade.Admits.quiet {g : Grade} {r : JumpReader} (h : g.Admits r) :
    Grade.quiet.Admits r := by
  cases g with
  | quiet => exact h
  | safe => exact fun label => absurd (h.symm.trans label) (by simp)
  | jumping => exact fun label => absurd (h.1.symm.trans label) (by simp)

/-- A fresh reader admits all texts. -/
theorem Grade.admits_empty (g : Grade) : g.Admits {} := by
  cases g with
  | quiet => exact BlockHead.noConfusion
  | safe => rfl
  | jumping => exact ⟨rfl, Region.noConfusion⟩

/-- **Lexemes that leave some braces open**, wherever they are read: all jumps in them are legal,
and no region is left. -/
def Nests (g : Grade) (k : Nat) (ts : List Lexeme) : Prop :=
  ∀ r : JumpReader, r.Ready → g.Admits r →
    ∃ r', r.run ts = some r' ∧ r'.Ready ∧ (r.nest k).Same r'

namespace Nests

variable {g : Grade} {k : Nat} {ts us : List Lexeme}

theorem nil : Nests g 0 [] := fun r ready _ => ⟨r, rfl, ready, .refl r⟩

/-- What may stand in more places may stand in fewer. -/
theorem weaken {g' : Grade} (h : Nests g k ts) (fewer : ∀ r, g'.Admits r → g.Admits r) :
    Nests g' k ts :=
  fun r ready admits => h r ready (fewer r admits)

theorem of_quiet (h : Nests .quiet k ts) : Nests g k ts :=
  h.weaken fun _ admits => admits.quiet

theorem append (h : Nests g k ts) (h' : Nests g 0 us) : Nests g k (ts ++ us) := by
  intro r ready admits
  obtain ⟨r', first, ready', same⟩ := h r ready admits
  obtain ⟨r'', second, ready'', same'⟩ := h' r' ready' (admits.congr same.region same.head)
  exact ⟨r'', by rw [run_append, first, bind_some, second], ready'', same.trans same'⟩

end Nests

/-- The open braces after a lexeme that neither jumps nor has a block of its own. -/
def Lexeme.depth (k : Nat) : Lexeme → Option Nat
  | .word w => if (jumpWords ++ loopWords).contains w then none else some k
  | .symbol => some k
  | .opening endsLine => if endsLine then none else some (k + 1)
  | .closing => if k = 0 then none else some (k - 1)
  | .label _ | .heading _ => none

/-- The open braces after some such lexemes. -/
def bracesAfter (k : Nat) : List Lexeme → Option Nat
  | [] => some k
  | t :: ts => (t.depth k).bind fun k => bracesAfter k ts

theorem bracesAfter_append (k : Nat) (ts us : List Lexeme) :
    bracesAfter k (ts ++ us) = (bracesAfter k ts).bind fun k => bracesAfter k us := by
  induction ts generalizing k with
  | nil => rfl
  | cons t ts ih => simp only [List.cons_append, bracesAfter, ih, bind_assoc]

namespace Nests

variable {g : Grade} {k k' : Nat} {ts us : List Lexeme}

/-- One more such lexeme. -/
theorem lexeme {t : Lexeme} (h : Nests g k ts) (ht : t.depth k = some k') :
    Nests g k' (ts ++ [t]) := by
  intro r ready admits
  obtain ⟨r', first, ready', same⟩ := h r ready admits
  have settled := same.trans (same_settle r' none)
  have ready' := ready'.settle none
  have label : r'.head ≠ .label := (admits.congr same.region same.head).quiet
  have goOn {r'' : JumpReader} (next : r'.step t = some r'') (ready'' : r''.Ready)
      (same'' : (r.nest k').Same r'') :
      ∃ r'', r.run (ts ++ [t]) = some r'' ∧ r''.Ready ∧ (r.nest k').Same r'' :=
    ⟨r'', by rw [run_append, first, bind_some, run, next]; rfl, ready'', same''⟩
  cases t with
  | word w =>
    simp only [Lexeme.depth, List.contains_iff_mem, List.mem_append, not_or,
      ite_none_left_eq_some, some.injEq] at ht
    obtain ⟨⟨jump, loop⟩, rfl⟩ := ht
    exact goOn (by simp [step, jump, loop]) ready' settled
  | symbol =>
    cases ht
    exact goOn rfl ready' settled
  | opening endsLine =>
    cases endsLine with
    | true => cases ht
    | false =>
      cases ht
      refine goOn (step_opening_false label) ⟨ready'.jumps, ready'.pending⟩
        ⟨settled.region, ?_, settled.head⟩
      rw [settled.region, settled.outer]
      rfl
  | closing =>
    cases k with
    | zero => cases ht
    | succ k =>
      cases ht
      exact goOn (step_closing same.outer) ⟨ready'.jumps, ready'.pending⟩ ⟨rfl, rfl, settled.head⟩
  | label w => cases ht
  | heading w => cases ht

/-- **Some more such lexemes.** -/
theorem lexemes (h : Nests g k ts) (hu : bracesAfter k us = some k') : Nests g k' (ts ++ us) := by
  induction us generalizing k ts with
  | nil =>
    cases hu
    simpa using h
  | cons u us ih =>
    obtain ⟨between, first, rest⟩ := bind_eq_some_iff.1 hu
    simpa using ih (h.lexeme first) rest

/-- A symbol in front is of no importance: only a jump before it could have needed a label. -/
theorem of_symbol_cons (h : Nests g 0 (.symbol :: ts)) : Nests g 0 ts := by
  intro r ready admits
  cases ts with
  | nil => exact nil r ready admits
  | cons t ts =>
    obtain ⟨label?, noted⟩ := step_settle r t
    have same := same_settle r label?
    obtain ⟨r', result, ready', same'⟩ :=
      h (r.settle label?) (ready.settle label?) (admits.congr same.region same.head)
    refine ⟨r', ?_, ready', same.trans same'⟩
    rw [run, step, bind_some, settle_of_pending (pending_settle r label?)] at result
    rw [run, noted, ← result, run]

/-- A symbol at the end is of no importance either. -/
theorem of_concat_symbol (h : Nests g 0 (ts ++ [.symbol])) : Nests g 0 ts := by
  intro r ready admits
  obtain ⟨r', result, ready', same⟩ := h r ready admits
  rw [run_append] at result
  obtain ⟨before, first, last⟩ := bind_eq_some_iff.1 result
  obtain rfl : before.settle none = r' := by simpa [run, step] using last
  have settled := same_settle before none
  exact ⟨before, first, ready_of_settle ready',
    ⟨settled.region.symm.trans same.region, settled.outer.symm.trans same.outer,
      settled.head.symm.trans same.head⟩⟩

/-- No text ends behind a brace that it opens. -/
theorem not_opening {endsLine : Bool} (hu : us = [] ∨ us = [.symbol]) :
    ¬ Nests g 0 (ts ++ .opening endsLine :: us) := by
  intro h
  have empty : ({} : JumpReader).Ready := ⟨by simp, by simp⟩
  obtain ⟨r', result, -, same⟩ := h {} empty g.admits_empty
  rw [run_append] at result
  obtain ⟨before, -, last⟩ := bind_eq_some_iff.1 result
  rw [run] at last
  obtain ⟨opened, next, last⟩ := bind_eq_some_iff.1 last
  have nonempty : opened.outer ≠ [] := by
    simp only [step] at next
    split at next <;> cases next <;> exact List.cons_ne_nil _ _
  have none : opened.outer = [] := by
    have end_outer : r'.outer = [] := same.outer
    rcases hu with rfl | rfl
    · cases last
      exact end_outer
    · cases last
      exact (same_settle opened none).outer.symm.trans end_outer
  exact nonempty none

end Nests

end

end Ferric
