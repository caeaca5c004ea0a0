import Mathlib.Data.List.Induction
import Ferric.Proofs.Flow.Statement
import Ferric.Proofs.Jumps.Reader

/-!
# Texts and blocks that can be read wherever they stand

A text is composed of other texts, and fixed pieces stand between them.  So a text is described by
what its lexemes do to any reader of jumps, and the pieces by the braces they leave open.  What
stands in front of a block tells whether it is that of a loop or of a label, or belongs to what is
around it; accordingly its statements may hold other jumps than the whole.

## Main definitions

* `Reads`: texts that can be read wherever their grade allows.
* `isQuiet`: texts in which nothing jumps and no block stands.
* `Heads`, `IsBlockLabel`: texts in front of a block, and labels.
* `Grade.within`: the grade of the statements in a block.

## Main results

* `Opens.text`, `Ends.literal`, `Reads.joined`, `Reads.indented`: texts put together, and indented.
* `Reads.asExpression`, `Reads.asStatement`, `Reads.grouped`, `Reads.ungrouped`: what is done to
  texts.
* `Heads.block`: a block with what stands in front of it.
* `reads_break`, `reads_continue`, `reads_break_label`: jumps.
-/

namespace Ferric

open Chars JumpReader

/-- A text that leaves some braces open. -/
def Ends (g : Grade) (k : Nat) (text : String) : Prop :=
  ∃ ts, lexemes? text.toList = some ts ∧ Nests g k ts

/-- The same for a text that ends between words. -/
def Opens (g : Grade) (k : Nat) (text : String) : Prop :=
  ∃ ts, (LexMode.word []).lex text.toList = (ts, .word []) ∧ Nests g k ts

/-- **A text that can be read wherever its grade allows**: all jumps in it are legal, and it closes
the braces that it opens. -/
def Reads (g : Grade) (text : String) : Prop :=
  Ends g 0 text

/-- The braces that a piece of text between two words leaves open. -/
def literalDepth (k : Nat) (text : String) : Option Nat :=
  let lexed := (LexMode.word []).lex text.toList
  if lexed.2 = .word [] then bracesAfter k lexed.1 else none

/-- The same for a piece that does not run into the text before it. -/
def linkDepth (k : Nat) (text : String) : Option Nat :=
  if text.toList.head?.any separates then literalDepth k text else none

/-- **A text in which nothing jumps** and no block stands. -/
def isQuiet (text : String) : Bool :=
  (lexemes? text.toList).any fun ts => bracesAfter 0 ts = some 0

section Texts

variable {g : Grade} {k k' : Nat} {a b : String}

theorem Opens.ends (h : Opens g k a) : Ends g k a := by
  obtain ⟨ts, lexed, nests⟩ := h
  exact ⟨ts, lexemes?_of_lex lexed, nests⟩

theorem lex_of_literalDepth (h : literalDepth k b = some k') :
    ∃ ts, (LexMode.word []).lex b.toList = (ts, .word []) ∧ bracesAfter k ts = some k' := by
  unfold literalDepth at h
  dsimp only at h
  split at h
  · rename_i between
    exact ⟨_, Prod.ext rfl between, h⟩
  · cases h

/-- A text that starts with a fixed piece. -/
theorem opens_literal (h : literalDepth 0 b = some k) : Opens g k b := by
  obtain ⟨ts, lexed, depth⟩ := lex_of_literalDepth h
  exact ⟨ts, lexed, by simpa using Nests.nil.lexemes depth⟩

/-- **A fixed piece after a text.** -/
theorem Ends.literal (h : Ends g k a) (hb : linkDepth k b = some k') : Opens g k' (a ++ b) := by
  obtain ⟨ts, lexed, nests⟩ := h
  unfold linkDepth at hb
  split at hb
  · rename_i apart
    obtain ⟨us, lexed', depth⟩ := lex_of_literalDepth hb
    refine ⟨ts ++ us, ?_, nests.lexemes depth⟩
    rw [String.toList_append, LexMode.lex_append_of_separates lexed _ _, lexed']
    · intro empty
      simp [empty] at apart
    · intro c first
      simpa [Option.mem_def.1 first] using apart
  · cases hb

/-- **A text after a piece that ends between words.** -/
theorem Opens.text (ha : Opens g k a) (hb : Reads g b) : Ends g k (a ++ b) := by
  obtain ⟨ts, lexed, nests⟩ := ha
  obtain ⟨us, lexed', nests'⟩ := hb
  refine ⟨ts ++ us, ?_, nests.append nests'⟩
  rw [String.toList_append]
  exact lexemes?_append (lexemes?_of_lex lexed) lexed' (.inl (by rw [lexed]))

theorem Opens.append (ha : Opens g k a) (hb : Opens g 0 b) : Opens g k (a ++ b) := by
  obtain ⟨ts, lexed, nests⟩ := ha
  obtain ⟨us, lexed', nests'⟩ := hb
  refine ⟨ts ++ us, ?_, nests.append nests'⟩
  rw [String.toList_append, LexMode.lex_append_of_lex lexed, lexed']

/-- A text after another one, where a separating character comes first. -/
theorem Ends.append (ha : Ends g k a) (hb : Reads g b)
    (apart : b.toList.head?.all separates = true) : Ends g k (a ++ b) := by
  obtain ⟨ts, lexed, nests⟩ := ha
  obtain ⟨us, lexed', nests'⟩ := hb
  refine ⟨ts ++ us, ?_, nests.append nests'⟩
  rw [String.toList_append]
  refine lexemes?_append lexed lexed' (.inr fun c first => ?_)
  simpa [Option.mem_def.1 first] using apart

/-- What may stand anywhere may stand here. -/
theorem Reads.of_quiet (h : Reads .quiet a) : Reads g a := by
  obtain ⟨ts, lexed, nests⟩ := h
  exact ⟨ts, lexed, nests.of_quiet⟩

/-- What is safe may also stand where a jump needs no label. -/
theorem Reads.jumping (h : Reads .safe a) : Reads .jumping a := by
  obtain ⟨ts, lexed, nests⟩ := h
  exact ⟨ts, lexed, nests.weaken fun _ admits => admits.1⟩

theorem isQuiet_iff :
    isQuiet a = true ↔ ∃ ts, lexemes? a.toList = some ts ∧ bracesAfter 0 ts = some 0 := by
  unfold isQuiet
  cases lexemes? a.toList <;> simp

/-- **A text in which nothing jumps may stand anywhere.** -/
theorem reads_of_isQuiet (h : isQuiet a = true) : Reads g a := by
  obtain ⟨ts, lexed, depth⟩ := isQuiet_iff.1 h
  exact ⟨ts, lexed, by simpa using Nests.nil.lexemes depth⟩

/-- No such text ends in a label. -/
theorem lex_of_isQuiet (h : isQuiet a = true) :
    ∃ ts w, (LexMode.word []).lex a.toList = (ts, .word w) ∧
      bracesAfter 0 (ts ++ LexMode.wordLexemes w) = some 0 := by
  obtain ⟨ts, lexed, depth⟩ := isQuiet_iff.1 h
  obtain ⟨now, m, rest, lexed', ends, rfl⟩ := lexemes?_eq_some_iff.1 lexed
  cases m with
  | word w =>
    cases ends
    exact ⟨now, w, lexed', depth⟩
  | tick w =>
    obtain ⟨-, rfl⟩ : ¬ w.isEmpty = true ∧ [.label w] = rest := by
      simpa [LexMode.rest?] using ends
    rw [bracesAfter_append] at depth
    obtain ⟨k, -, last⟩ := Option.bind_eq_some_iff.1 depth
    cases last
  | _ => cases ends

/-- A fixed piece after a text in which nothing jumps, even a colon. -/
theorem opens_quiet_literal (h : isQuiet a = true) (hb : literalDepth 0 b = some k)
    (apart : b.toList.head?.any (!isWordChar ·) = true) : Opens g k (a ++ b) := by
  obtain ⟨ts, w, lexed, depth⟩ := lex_of_isQuiet h
  obtain ⟨us, lexed', depth'⟩ := lex_of_literalDepth hb
  refine ⟨ts ++ LexMode.wordLexemes w ++ us, ?_, ?_⟩
  · cases chars : b.toList with
    | nil => simp [chars] at apart
    | cons c cs =>
      have other : isWordChar c = false := by simpa [chars] using apart
      rw [chars] at lexed'
      rw [String.toList_append, LexMode.lex_append, lexed, chars, LexMode.lex_word w other, lexed',
        List.append_assoc]
  · have whole : bracesAfter 0 (ts ++ LexMode.wordLexemes w ++ us) = some k := by
      rw [bracesAfter_append, depth, Option.bind_some, depth']
    simpa using Nests.nil.lexemes whole

/-- The characters of a word are kept, also after a tick. -/
theorem LexMode.lex_wordChars {w : List Char} (h : ∀ c ∈ w, isWordChar c = true)
    (done : List Char) : (LexMode.word done).lex w = ([], .word (done ++ w)) ∧
      (LexMode.tick done).lex w = ([], .tick (done ++ w)) := by
  induction w generalizing done with
  | nil => simp [lex]
  | cons c w ih =>
    have part := h c List.mem_cons_self
    simp [lex, step, part, ih fun d hd => h d (List.mem_cons_of_mem _ hd)]

theorem isQuiet_word (h : ∀ c ∈ a.toList, isWordChar c = true)
    (other : a.toList ∉ jumpWords ++ loopWords) : isQuiet a = true := by
  rw [List.mem_append, not_or] at other
  have lexed : lexemes? a.toList = some (LexMode.wordLexemes a.toList) := by
    simp [lexemes?, (LexMode.lex_wordChars h _).1, LexMode.rest?]
  rw [isQuiet, lexed, LexMode.wordLexemes]
  split
  · rfl
  · simp [bracesAfter, Lexeme.depth, other]

/-- **Nothing jumps in an emitted name**, also when a variable is called like a word that jumps or
loops. -/
theorem isQuiet_sanitize (h : ∀ c ∈ a.toList, isWordChar c = true) : isQuiet (sanitize a) = true :=
  isQuiet_word (isWordChar_sanitize h) (sanitize_not_mem (by decide) a)

example : sanitize "loop" = "r#loop" ∧ isQuiet "r#loop" = true := by decide

/-! ## What is done to texts -/

theorem reads_onChars {f : List Char → List Char} (h : Reads g a)
    (same : ∀ ts, lexemes? a.toList = some ts → Nests g 0 ts →
      ∃ us, lexemes? (f a.toList) = some us ∧ Nests g 0 us) : Reads g (Text.onChars f a) := by
  obtain ⟨ts, lexed, nests⟩ := h
  obtain ⟨us, lexed', nests'⟩ := same ts lexed nests
  exact ⟨us, by rw [Text.toList_onChars, lexed'], nests'⟩

/-- Lexemes without the last character, if it is a blank or a symbol. -/
theorem lexemes?_of_concat {cs : List Char} {c : Char} {ts : List Lexeme}
    (h : lexemes? (cs ++ [c]) = some ts) (nests : Nests g 0 ts) (hc : separates c = true)
    (single : (LexMode.word []).step c = ([], .word []) ∨
      (LexMode.word []).step c = ([.symbol], .word [])) :
    ∃ us, lexemes? cs = some us ∧ Nests g 0 us := by
  rcases single with single | single
  · rcases lexemes?_concat h hc single with ⟨us, found, rfl⟩ | ⟨us, endsLine, rfl⟩
    · exact ⟨us, found, by simpa using nests⟩
    · exact absurd nests (Nests.not_opening (.inl rfl))
  · rcases lexemes?_concat h hc single with ⟨us, found, rfl⟩ | ⟨us, endsLine, rfl⟩
    · exact ⟨us, found, nests.of_concat_symbol⟩
    · exact absurd nests (Nests.not_opening (.inr rfl))

/-- A character that can be dropped at the end. -/
def isDroppable (c : Char) : Bool :=
  isBlank c || c == ';' || c == ')'

variable {cs : List Char} {ts : List Lexeme} {parts : List String}

theorem lexemes?_of_droppable {c : Char} (h : lexemes? (cs ++ [c]) = some ts) (nests : Nests g 0 ts)
    (hc : isDroppable c = true) : ∃ us, lexemes? cs = some us ∧ Nests g 0 us := by
  simp only [isDroppable, Bool.or_eq_true, beq_iff_eq] at hc
  rcases hc with (blank | rfl) | rfl
  · exact lexemes?_of_concat h nests (separates_of_isBlank blank) (.inl (LexMode.step_blank blank))
  · exact lexemes?_of_concat h nests (by decide) (.inr (by decide))
  · exact lexemes?_of_concat h nests (by decide) (.inr (by decide))

/-- Blanks and semicolons can be dropped at the end. -/
theorem lexemes?_dropEndWhile {p : Char → Bool} (hp : ∀ c, p c = true → isDroppable c = true)
    (h : lexemes? cs = some ts) (nests : Nests g 0 ts) :
    ∃ us, lexemes? (dropEndWhile p cs) = some us ∧ Nests g 0 us := by
  induction cs using List.reverseRecOn generalizing ts with
  | nil => exact ⟨ts, h, nests⟩
  | append_singleton cs c ih =>
    cases drop : p c with
    | false =>
      have same : dropEndWhile p (cs ++ [c]) = cs ++ [c] := by simp [dropEndWhile, drop]
      exact ⟨ts, by rw [same, h], nests⟩
    | true =>
      have less : dropEndWhile p (cs ++ [c]) = dropEndWhile p cs := by simp [dropEndWhile, drop]
      obtain ⟨us, found, nests'⟩ := lexemes?_of_droppable h nests (hp c drop)
      rw [less]
      exact ih found nests'

theorem lexemes?_trim (h : lexemes? cs = some ts) (nests : Nests g 0 ts) :
    ∃ us, lexemes? (trim cs) = some us ∧ Nests g 0 us :=
  lexemes?_dropEndWhile (fun c blank => by simp [isDroppable, blank])
    ((lexemes?_trimStart cs).trans h) nests

/-- A text used for its value. -/
theorem Reads.asExpression (h : Reads g a) : Reads g (Fragment.asExpression a) := by
  refine reads_onChars h fun ts lexed nests => ?_
  obtain ⟨us, lexed, nests⟩ := lexemes?_trim lexed nests
  obtain ⟨vs, lexed, nests⟩ := lexemes?_dropEndWhile (p := (· == ';'))
    (fun c semicolon => by simp [isDroppable, semicolon]) lexed nests
  exact lexemes?_dropEndWhile (fun c blank => by simp [isDroppable, blank]) lexed nests

theorem Reads.asStatement (h : Reads g a) : Reads g (Fragment.asStatement a) := by
  refine reads_onChars h fun ts lexed nests => ?_
  obtain ⟨us, lexed, nests⟩ := lexemes?_dropEndWhile (p := isBlank)
    (fun c blank => by simp [isDroppable, blank]) lexed nests
  unfold Chars.asStatement
  dsimp only
  split
  · exact ⟨us, lexed, nests⟩
  · have semicolon : lexemes? [';'] = some [.symbol] := by decide
    exact ⟨us ++ [.symbol], lexemes?_append lexed semicolon (.inr (by decide)), nests.lexeme rfl⟩

/-- A text in parentheses. -/
theorem Reads.parens (h : Reads g a) : Reads g ("(" ++ a ++ ")") :=
  have opened : Opens g 0 "(" := opens_literal (by decide)
  ((opened.text h).literal (by decide)).ends

/-- A text as a single operand. -/
theorem Reads.grouped (h : Reads g a) : Reads g (Fragment.grouped a) := by
  have trimmed : Reads g (Text.trim a) := reads_onChars h fun ts => lexemes?_trim
  have grouped : Fragment.grouped a = if isAtom (trim a.toList) || isWrapped (trim a.toList) then
      Text.trim a else "(" ++ Text.trim a ++ ")" := by
    apply String.toList_inj.1
    rw [Fragment.grouped, Text.toList_onChars, Chars.grouped]
    split
    · simp [Text.trim]
    · simp [Text.trim]
  rw [grouped]
  split
  · exact trimmed
  · exact trimmed.parens

/-- What stands in parentheses. -/
theorem lexemes?_inner (wrapped : isWrapped cs = true) (h : lexemes? cs = some ts)
    (nests : Nests g 0 ts) : ∃ us, lexemes? (Chars.inner cs) = some us ∧ Nests g 0 us := by
  obtain ⟨mid, rfl, -⟩ := eq_parens_of_isWrapped wrapped
  obtain ⟨us, lexed, nests⟩ := lexemes?_of_droppable h nests (by decide)
  -- the first parenthesis is a symbol of its own
  have first : LexMode.step (.word []) '(' = ([.symbol], .word []) := by decide
  obtain ⟨vs, rest, rfl⟩ : ∃ vs, lexemes? mid = some vs ∧ us = .symbol :: vs := by
    simp only [lexemes?, LexMode.lex, first] at lexed ⊢
    obtain ⟨rest, found, rfl⟩ := Option.map_eq_some_iff.1 lexed
    exact ⟨_, by rw [found, Option.map_some], by simp⟩
  rw [inner_parens]
  exact lexemes?_trim rest nests.of_symbol_cons

/-- A text without enclosing parentheses. -/
theorem Reads.ungrouped (h : Reads g a) : Reads g (Fragment.ungrouped a) := by
  refine reads_onChars h fun ts lexed nests => ?_
  obtain ⟨us, lexed, nests⟩ := lexemes?_trim lexed nests
  unfold Chars.ungrouped
  generalize trim a.toList = cs at lexed
  fun_induction ungroupedFrom cs generalizing us with
  | case1 cs wrapped _ ih =>
    obtain ⟨vs, lexed, nests⟩ := lexemes?_inner wrapped lexed nests
    exact ih vs nests lexed
  | case2 cs => exact ⟨us, lexed, nests⟩

/-! ## Texts put together -/

/-- **Texts with a fixed piece between each two of them.** -/
theorem Reads.joined {separator : String} (hs : linkDepth 0 separator = some 0)
    (h : ∀ s ∈ parts, Reads g s) : Reads g (Text.joined separator parts) := by
  induction parts with
  | nil => exact reads_of_isQuiet rfl
  | cons a parts ih =>
    have first := h a List.mem_cons_self
    have rest := ih fun s hs => h s (List.mem_cons_of_mem _ hs)
    cases parts with
    | nil =>
      have alone : Text.joined separator [a] = a := by
        apply String.toList_inj.1
        simp [Text.joined]
      rwa [alone]
    | cons b parts =>
      rw [joined_cons_cons]
      exact (Ends.literal first hs).text rest

theorem Reads.stacked (h : ∀ s ∈ parts, Reads g s) : Reads g (Text.stacked parts) :=
  Reads.joined (by decide) h

/-- Texts that end between words, one after the other. -/
theorem opens_join (h : ∀ s ∈ parts, Opens g 0 s) : Opens g 0 (String.join parts) := by
  induction parts with
  | nil => exact opens_literal rfl
  | cons a parts ih =>
    rw [String.join_cons]
    exact (h a List.mem_cons_self).append (ih fun s hs => h s (List.mem_cons_of_mem _ hs))

/-- **Indentation**: a text is read in the same way, and its last line is ended. -/
theorem Reads.indented (h : Reads g a) (depth : Nat) : Opens g 0 (Text.indented depth a) := by
  obtain ⟨ts, lexed, nests⟩ := h
  exact ⟨ts, by rw [Text.toList_indented, lex_indented_of_lexemes? lexed], nests⟩

end Texts

/-! ## Blocks -/

def BlockHead.inside (region : Region) : BlockHead → Region
  | .none => region
  | .label => .labelled
  | .loop => .loop

/-- The grade of the statements in a block, given the grade of the whole. -/
def Grade.within (g : Grade) : BlockHead → Grade
  | .none => g
  | .label => .safe
  | .loop => .jumping

theorem Grade.within_ne_quiet {g : Grade} (hg : g ≠ .quiet) (head : BlockHead) :
    g.within head ≠ .quiet := by
  cases head with
  | none => exact hg
  | label | loop => exact Grade.noConfusion

theorem Grade.Admits.head {g : Grade} {r : JumpReader} (h : g.Admits r) (hg : g ≠ .quiet) :
    r.head = .none := by
  cases g with
  | quiet => exact absurd rfl hg
  | safe => exact h
  | jumping => exact h.1

theorem Grade.Admits.within {g : Grade} {r opened : JumpReader} (h : g.Admits r) {head : BlockHead}
    (region : opened.region = head.inside r.region) (free : r.head = .none)
    (fresh : opened.head = .none) : (g.within head).Admits opened := by
  cases head with
  | none => exact h.congr region (fresh.trans free.symm)
  | label => exact fresh
  | loop => exact ⟨fresh, fun labelled => Region.noConfusion (region.symm.trans labelled)⟩

/-- The reader inside of the block that comes next. -/
def JumpReader.enter (r : JumpReader) : JumpReader :=
  { r with region := r.head.inside r.region, outer := r.region :: r.outer, head := .none }

/-- A brace at the end of a line opens the block that was announced. -/
theorem JumpReader.step_opening_true (r : JumpReader) :
    r.step (.opening true) = some (r.settle none).enter := by
  simp only [step, enter]
  cases head : (r.settle none).head with
  | none => simp only [BlockHead.inside, ← head]
  | label | loop => rfl

/-- **A text in front of a block**, which tells what the block is. -/
def Heads (head : BlockHead) (text : String) : Prop :=
  ∃ ts, (LexMode.word []).lex text.toList = (ts, .word []) ∧
    ∀ r : JumpReader, r.Ready → r.head = .none →
      ∃ r', r.run ts = some r' ∧ r'.Ready ∧ { r with head }.Same r'

section Blocks

variable {g : Grade} {head : BlockHead} {a : String} {statements : List String}

/-- The statements of a block, one level further in. -/
theorem opens_lines (h : ∀ s ∈ statements, Reads g s) :
    Opens g 0 (String.join (statements.map (Text.indented 1))) := by
  refine opens_join fun line hl => ?_
  obtain ⟨s, hs, rfl⟩ := List.mem_map.1 hl
  exact (h s hs).indented 1

theorem lex_block (h : ∀ s ∈ statements, Reads g s) :
    ∃ ts, (LexMode.word []).lex (Fragment.block statements).toList =
      (.opening true :: ts ++ [.closing], .word []) ∧ Nests g 0 ts := by
  obtain ⟨ts, lexed, nests⟩ := opens_lines h
  have text : Fragment.block statements =
      "\x7b\n" ++ String.join (statements.map (Text.indented 1)) ++ "\x7d" := by
    apply String.toList_inj.1
    simp [Fragment.block, Chars.block, List.flatMap_map]
  have opened : (LexMode.word []).lex "\x7b\n".toList = ([.opening true], .word []) := by decide
  have closed : (LexMode.word []).lex "\x7d".toList = ([.closing], .word []) := by decide
  refine ⟨ts, ?_, nests⟩
  rw [text, String.append_assoc, String.toList_append, LexMode.lex_append_of_lex opened,
    String.toList_append, LexMode.lex_append_of_lex lexed, closed]
  rfl

/-- **The statements of a block and the brace that closes it.** -/
theorem Nests.run_block {ts : List Lexeme} (h : Nests (g.within head) 0 ts) {r r' : JumpReader}
    (admits : g.Admits r) (free : r.head = .none) (ready : r'.Ready)
    (same : { r with head }.Same r') :
    ∃ r'', r'.run (.opening true :: ts ++ [.closing]) = some r'' ∧ r''.Ready ∧ r.Same r'' := by
  have settled := ready.settle none
  have same := same.trans (same_settle r' none)
  have opened : (r'.settle none).enter.Ready := ⟨settled.jumps, settled.pending⟩
  -- inside of the block the head is used up, and the region around it waits for the brace
  have inside : (g.within head).Admits (r'.settle none).enter := by
    refine admits.within ?_ free rfl
    rw [enter, same.head, same.region]
  obtain ⟨before, result, ready'', same'⟩ := h _ opened inside
  have around : before.outer = r.region :: r.outer := by
    refine same'.outer.trans ?_
    show (r'.settle none).region :: (r'.settle none).outer = r.region :: r.outer
    rw [same.region, same.outer]
  have last := ready''.settle none
  have head : (before.settle none).head = r.head :=
    ((same_settle before none).head.trans same'.head).trans free.symm
  refine ⟨{ before.settle none with region := r.region, outer := r.outer }, ?_,
    ⟨last.jumps, last.pending⟩, ⟨rfl, rfl, head⟩⟩
  rw [List.cons_append, run, step_opening_true, Option.bind_some, run_append, result,
    Option.bind_some, run, step_closing around]
  rfl

/-- A text with the lexemes of a block, after those of what stands in front of it. -/
theorem Heads.reads_of_lex (ha : Heads head a) (hg : g ≠ .quiet) {ts : List Lexeme}
    (nests : Nests (g.within head) 0 ts) {text : String}
    (lexed : (LexMode.word []).lex text.toList =
      (((LexMode.word []).lex a.toList).1 ++ (.opening true :: ts ++ [.closing]), .word [])) :
    Reads g text := by
  obtain ⟨us, front, heads⟩ := ha
  rw [front] at lexed
  refine ⟨_, lexemes?_of_lex lexed, fun r ready admits => ?_⟩
  have free := admits.head hg
  obtain ⟨r', first, ready', same⟩ := heads r ready free
  obtain ⟨r'', second, ready'', same'⟩ := nests.run_block admits free ready' same
  exact ⟨r'', by rw [run_append, first, Option.bind_some, second], ready'', same'⟩

/-- **A block with what stands in front of it.** -/
theorem Heads.block (ha : Heads head a) (hg : g ≠ .quiet)
    (h : ∀ s ∈ statements, Reads (g.within head) s) : Reads g (a ++ Fragment.block statements) := by
  obtain ⟨ts, lexed, nests⟩ := lex_block h
  obtain ⟨us, front, -⟩ := id ha
  refine ha.reads_of_lex hg nests ?_
  rw [String.toList_append, LexMode.lex_append_of_lex front, front, lexed]

/-- A block after a text in which nothing jumps. -/
theorem Opens.heads (h : Opens .quiet 0 a) : Heads .none a := by
  obtain ⟨ts, lexed, nests⟩ := h
  refine ⟨ts, lexed, fun r ready free => ?_⟩
  obtain ⟨r', result, ready', same⟩ := nests r ready fun label =>
    BlockHead.noConfusion (free.symm.trans label)
  exact ⟨r', result, ready', same.region, same.outer, same.head.trans free⟩

/-- **A block alone** belongs to what is around it. -/
theorem reads_block (hg : g ≠ .quiet) (h : ∀ s ∈ statements, Reads g s) :
    Reads g (Fragment.block statements) := by
  have bare : Heads .none "" := Opens.heads (opens_literal rfl)
  simpa using bare.block hg h

variable {w : List Char} {label : String}

theorem run_loopWord (loop : w ∈ loopWords) (other : w ∉ jumpWords) {r : JumpReader}
    (ready : r.Ready) :
    ∃ r', r.run [.word w] = some r' ∧ r'.Ready ∧ { r with head := .loop }.Same r' := by
  have settled := ready.settle none
  have same := same_settle r none
  refine ⟨{ r.settle none with head := .loop }, ?_, ⟨settled.jumps, settled.pending⟩,
    ⟨same.region, same.outer, rfl⟩⟩
  simp [run, step, loop, other]

theorem heads_loop : Heads .loop "loop " :=
  ⟨[.word "loop".toList], by decide, fun _ ready _ => run_loopWord (by decide) (by decide) ready⟩

theorem heads_while {test : String} (h : Reads .quiet test) :
    Heads .loop ("while " ++ test ++ " ") := by
  have tested : Opens .quiet 0 (test ++ " ") := Ends.literal h (by decide)
  obtain ⟨ts, lexed, nests⟩ := tested
  have word : (LexMode.word []).lex "while ".toList = ([.word "while".toList], .word []) := by
    decide
  refine ⟨.word "while".toList :: ts, ?_, fun r ready free => ?_⟩
  · rw [String.append_assoc, String.toList_append, LexMode.lex_append_of_lex word, lexed]
    rfl
  · obtain ⟨r', first, ready', same⟩ := run_loopWord (w := "while".toList) (by decide) (by decide)
      ready
    have admits : Grade.quiet.Admits r' := fun label =>
      BlockHead.noConfusion (same.head.symm.trans label)
    obtain ⟨r'', second, ready'', same'⟩ := nests r' ready' admits
    refine ⟨r'', ?_, ready'', same.trans same'⟩
    rw [← List.singleton_append, run_append, first, Option.bind_some, second]

/-! ## Labels and jumps -/

/-- A label: an apostrophe and a word. -/
def IsBlockLabel (label : String) : Prop :=
  ∃ w, w ≠ [] ∧ (∀ c ∈ w, isWordChar c = true) ∧ label.toList = '\'' :: w

theorem IsBlockLabel.lex (h : IsBlockLabel label) :
    ∃ w, w.isEmpty = false ∧ (LexMode.word []).lex label.toList = ([], .tick w) := by
  obtain ⟨w, some, word, text⟩ := h
  have first : (LexMode.word []).step '\'' = ([], .tick []) := by decide
  refine ⟨w, by simpa using some, ?_⟩
  rw [text, LexMode.lex, first, (LexMode.lex_wordChars word _).2]
  rfl

theorem heads_label (h : IsBlockLabel label) : Heads .label (label ++ ": ") := by
  obtain ⟨w, filled, lexed⟩ := h.lex
  refine ⟨[.heading w], ?_, fun r ready _ => ?_⟩
  · have given : (LexMode.tick w).step ':' = ([.heading w], .word []) := by
      simp [LexMode.step, filled, show isWordChar ':' = false by decide]
    have blank : (LexMode.word []).step ' ' = ([], .word []) := LexMode.step_blank (by decide)
    have colon : (LexMode.tick w).lex ": ".toList = ([.heading w], .word []) := by
      simp [LexMode.lex, given, blank]
    rw [String.toList_append, LexMode.lex_append, lexed, colon]
    rfl
  · have settled := ready.settle none
    have same := same_settle r none
    exact ⟨{ r.settle none with head := .label }, rfl, ⟨settled.jumps, settled.pending⟩,
      ⟨same.region, same.outer, rfl⟩⟩

theorem step_jump (h : w ∈ jumpWords) (r : JumpReader) :
    r.step (.word w) = some { r.settle none with pending := some (r.settle none).region } := by
  simp only [step, List.contains_iff_mem, if_pos h]

/-- **A jump with a label** may stand wherever no block is to come. -/
theorem reads_break_label (h : IsBlockLabel label) : Reads .safe ("break " ++ label) := by
  obtain ⟨w, filled, lexed⟩ := h.lex
  have word : (LexMode.word []).lex "break ".toList = ([.word "break".toList], .word []) := by
    decide
  have jump : "break".toList ∈ jumpWords := by decide
  refine ⟨[.word "break".toList, .label w], ?_, fun r ready _ => ?_⟩
  · rw [String.toList_append]
    refine lexemes?_eq_some_iff.2 ⟨[.word "break".toList], .tick w, [.label w], ?_, ?_, rfl⟩
    · rw [LexMode.lex_append_of_lex word, lexed]
      rfl
    · simp [LexMode.rest?, filled]
  · have settled := ready.settle none
    have same := same_settle r none
    -- the jump is noted at once, with its label
    refine ⟨{ r.settle none with
      pending := none, jumps := (r.settle none).jumps ++ [⟨(r.settle none).region, some w⟩] },
      ?_, ⟨fun j hj => ?_, by simp⟩, ⟨same.region, same.outer, same.head⟩⟩
    · simp only [run, step_jump jump, Option.bind_some]
      rfl
    · rcases List.mem_append.1 hj with hj | hj
      · exact settled.jumps j hj
      · obtain rfl := List.mem_singleton.1 hj
        exact fun _ => Option.some_ne_none w

/-- **A jump without a label** may only stand where none is needed. -/
theorem reads_jump {text : String} (h : w ∈ jumpWords)
    (lexed : lexemes? text.toList = some [.word w]) : Reads .jumping text := by
  refine ⟨[.word w], lexed, fun r ready admits => ?_⟩
  have settled := ready.settle none
  have same := same_settle r none
  refine ⟨{ r.settle none with pending := some (r.settle none).region }, ?_, ⟨settled.jumps, ?_⟩,
    ⟨same.region, same.outer, same.head⟩⟩
  · rw [run, step_jump h]
    rfl
  · rintro region ⟨⟩ labelled
    exact admits.2 (same.region.symm.trans labelled)

theorem reads_break : Reads .jumping "break" :=
  reads_jump (w := "break".toList) (by decide) (by decide)

theorem reads_continue : Reads .jumping "continue" :=
  reads_jump (w := "continue".toList) (by decide) (by decide)

end Blocks

end Ferric
