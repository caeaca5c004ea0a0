import Ferric.Proofs.Nesting.Brackets

/-!
# Structured statements of the emitted text

Emitted text is read back as Rust control flow, one line at a time.  A line whose brackets match is
a statement of its own: a jump, a binding, or something opaque.  Any other line opens, continues or
closes a block.  The reader keeps the blocks that are open on a stack.

An `else if` is read as an `else` whose block holds the inner `if`, and a missing `else` as an empty
one.

The statements of a part of a text are read alike wherever the part stands, so `Emits` quantifies
over the state of the reader, and one lemma for each way of composing texts carries it from the
parts to the whole.

## Main definitions

* `RustStmt`: statements, with the texts of simple statements and conditions as leaves.
* `Line.read?`: what one line says.
* `Reader`: the open blocks and the statements read so far.
* `RustStmt.read?`: the statements of a text.
* `Emits`, `EmitsBranch`: texts that are read as given statements, and as an `if`, after which a
  chain may go on, in every state of the reader.

## Main results

* `Emits.append`, `Emits.stacked`, `Emits.opening`: texts side by side, stacked, in a block.
* `emitsBranch_else`, `emitsBranch_elseIf`: what follows an `else`.
* `Emits.read?_stacked`: such texts are read back.
-/

namespace Ferric

open List

/-- **A structured statement**, with leaves of type `β`. -/
inductive RustStmt (β : Type) where
  | simple (text : β)
  /-- A variable of the program: its name, and its type and value. -/
  | declare (name : String) (rest : β)
  /-- A generated binding: its name and its value. -/
  | capture (name : String) (value : β)
  | brk (label? : Option String)
  | cont
  | ret (value? : Option β)
  | block (label? : Option String) (body : List (RustStmt β))
  | branch (test : β) (yes no : List (RustStmt β))
  | whileLoop (test : β) (body : List (RustStmt β))
  | loop (body : List (RustStmt β))

namespace RustStmt

variable {β γ : Type}

mutual

/-- Apply a function to every leaf. -/
def map (f : β → γ) : RustStmt β → RustStmt γ
  | .simple text => .simple (f text)
  | .declare name rest => .declare name (f rest)
  | .capture name value => .capture name (f value)
  | .brk label? => .brk label?
  | .cont => .cont
  | .ret value? => .ret (value?.map f)
  | .block label? body => .block label? (mapAll f body)
  | .branch test yes no => .branch (f test) (mapAll f yes) (mapAll f no)
  | .whileLoop test body => .whileLoop (f test) (mapAll f body)
  | .loop body => .loop (mapAll f body)

/-- Apply a function to every leaf of some statements. -/
def mapAll (f : β → γ) : List (RustStmt β) → List (RustStmt γ)
  | [] => []
  | s :: rest => s.map f :: mapAll f rest

end

@[simp] theorem mapAll_nil (f : β → γ) : mapAll f [] = [] := rfl

@[simp] theorem mapAll_cons (f : β → γ) (s : RustStmt β) (rest : List (RustStmt β)) :
    mapAll f (s :: rest) = s.map f :: mapAll f rest := rfl

@[simp] theorem mapAll_append (f : β → γ) (as bs : List (RustStmt β)) :
    mapAll f (as ++ bs) = mapAll f as ++ mapAll f bs := by
  induction as with
  | nil => rfl
  | cons a as ih => simp [ih]

end RustStmt

/-! ## Lines -/

namespace Chars

/-- The characters of names and reserved words: letters and digits, the underscore, the mark of raw
names, and everything beyond ASCII that is not a blank. -/
def isWordChar (c : Char) : Bool :=
  c.isAlphanum || c == '_' || c == '#' || (128 ≤ c.toNat && !isBlank c)

theorem isBlank_of_isWordChar {c : Char} (h : isWordChar c = true) : isBlank c = false := by
  simp only [isWordChar, Bool.or_eq_true, beq_iff_eq] at h
  rcases h with ((h | rfl) | rfl) | h
  · -- a letter or a digit, by its number
    replace h : (decide ('A'.val ≤ c.val ∧ c.val ≤ 'Z'.val) ||
      ('a'.val ≤ c.val && c.val ≤ 'z'.val) || ('0'.val ≤ c.val && c.val ≤ '9'.val)) = true := h
    simp only [Bool.or_eq_true, Bool.and_eq_true, decide_eq_true_eq,
      UInt32.le_iff_toNat_le] at h
    simp only [isBlank, Bool.or_eq_false_iff, Bool.and_eq_false_iff, beq_eq_false_iff_ne,
      decide_eq_false_iff_not, Char.toNat]
    generalize c.val.toNat = n at h ⊢
    have letter : (65 ≤ n ∧ n ≤ 90 ∨ 97 ≤ n ∧ n ≤ 122) ∨ 48 ≤ n ∧ n ≤ 57 := by simpa using h
    omega
  · decide
  · decide
  · simpa using (Bool.and_eq_true_iff.1 h).2

/-- The name or reserved word that a text starts with. -/
def firstWord (cs : List Char) : List Char :=
  cs.takeWhile isWordChar

/-- What follows the first word. -/
def afterWord (cs : List Char) : List Char :=
  cs.dropWhile isWordChar

/-- The text as a string, unless it is empty. -/
def nonempty? (cs : List Char) : Option String :=
  if cs = [] then none else some (String.ofList cs)

end Chars

/-- What a brace opens. -/
inductive Opening where
  | block (label? : Option String)
  /-- A branch, after the tests and blocks before it in a chain. -/
  | branch (chain : List (String × List (RustStmt String))) (test : String)
  /-- The last block of a chain. -/
  | otherwise (chain : List (String × List (RustStmt String)))
  | whileLoop (test : String)
  | loop

/-- What one line says. -/
inductive Line where
  | statement (s : RustStmt String)
  | opens (o : Opening)
  | elseIf (test : String)
  | otherwise
  | close

namespace Line

open Chars

/-- A binding, after the word `let`. -/
def binding? (cs : List Char) : Option (RustStmt String) :=
  if firstWord cs = "mut".toList then
    let rest := trimStart (afterWord cs)
    (": ".toList.isPrefixOf? (afterWord rest)).map fun value =>
      .declare (String.ofList (firstWord rest)) (String.ofList value)
  else
    (" = ".toList.isPrefixOf? (afterWord cs)).map fun value =>
      .capture (String.ofList (firstWord cs)) (String.ofList value)

/-- The words that do not start a simple statement. -/
def reserved : List (List Char) :=
  ["break".toList, "continue".toList, "return".toList, "let".toList]

/-- A statement, by the word it starts with and what follows. -/
def worded? (word rest : List Char) : Option (RustStmt String) :=
  if word = "break".toList then some (.brk (nonempty? (asExpression rest)))
  else if word = "continue".toList then some .cont
  else if word = "return".toList then some (.ret (nonempty? (asExpression rest)))
  else if word = "let".toList then binding? (asExpression rest)
  else some (.simple (String.ofList (word ++ rest)))

/-- The condition of a head, which must not be empty. -/
def condition? (start head : List Char) : Option String :=
  (start.isPrefixOf? head).bind nonempty?

/-- The head of a block, without the brace. -/
def head? (cs : List Char) : Option Line :=
  ((condition? "if ".toList cs).map fun test => .opens (.branch [] test)).or <|
  ((condition? "while ".toList cs).map fun test => .opens (.whileLoop test)).or <|
  ((condition? "\x7d else if ".toList cs).map .elseIf).or <|
  if cs = "loop".toList then some (.opens .loop)
  else if cs = "\x7d else".toList then some .otherwise
  else if cs.getLast? = some ':' then some (.opens (.block (nonempty? cs.dropLast)))
  else none

/-- **What one line says**, without the blanks in front of it. -/
def read? (cs : List Char) : Option Line :=
  if Nested cs then (worded? (firstWord cs) (afterWord cs)).map .statement
  else if cs = ['\x7d'] then some .close
  else if cs = ['\x7b'] then some (.opens (.block none))
  else if cs.drop (cs.length - 2) = [' ', '\x7b'] then head? (cs.take (cs.length - 2))
  else none

/-! What each form of line says. -/

variable {cs c word rest : List Char}

theorem read?_simple (h : Nested cs) (hw : firstWord cs ∉ reserved) :
    read? cs = some (.statement (.simple (String.ofList cs))) := by
  simp only [reserved, mem_cons, not_mem_nil, or_false, not_or] at hw
  obtain ⟨hb, hc, hr, hl⟩ := hw
  rw [read?, if_pos h, worded?, if_neg hb, if_neg hc, if_neg hr, if_neg hl, firstWord, afterWord,
    takeWhile_append_dropWhile]
  rfl

theorem read?_close : read? ['\x7d'] = some .close := rfl

theorem read?_brace : read? ['\x7b'] = some (.opens (.block none)) := rfl

/-- A line that ends in an opening brace is read by what stands before it. -/
theorem read?_head (h : ¬ Nested (cs ++ [' ', '\x7b'])) :
    read? (cs ++ [' ', '\x7b']) = head? cs := by
  have long : ∀ c : Char, cs ++ [' ', '\x7b'] ≠ [c] := by
    intro c hc
    have := congrArg length hc
    simp at this
  have size : (cs ++ [' ', '\x7b']).length - 2 = cs.length := by simp
  rw [read?, if_neg h, if_neg (long _), if_neg (long _), size, drop_left, take_left]
  simp

theorem not_nested_open (h : Nested cs) : ¬ Nested (cs ++ [' ', '\x7b']) := by
  rw [nested_append_right h]
  decide

theorem not_nested_close (cs : List Char) : ¬ Nested ('\x7d' :: cs) := by
  simp [Nested, openAfter, isOpening, isClosing]

theorem nonempty?_of_ne (h : cs ≠ []) : nonempty? cs = some (String.ofList cs) :=
  if_neg h

theorem read?_if (h : Nested c) (hc : c ≠ []) :
    read? ("if ".toList ++ c ++ [' ', '\x7b']) =
      some (.opens (.branch [] (String.ofList c))) := by
  have nested : Nested ("if ".toList ++ c) := (nested_append_right (by decide)).2 h
  have test : condition? "if ".toList ("if ".toList ++ c) = some (String.ofList c) :=
    nonempty?_of_ne hc
  rw [read?_head (not_nested_open nested), head?, test]
  rfl

theorem read?_while (h : Nested c) (hc : c ≠ []) :
    read? ("while ".toList ++ c ++ [' ', '\x7b']) =
      some (.opens (.whileLoop (String.ofList c))) := by
  have nested : Nested ("while ".toList ++ c) := (nested_append_right (by decide)).2 h
  have noIf : condition? "if ".toList ("while ".toList ++ c) = none := rfl
  have test : condition? "while ".toList ("while ".toList ++ c) = some (String.ofList c) :=
    nonempty?_of_ne hc
  rw [read?_head (not_nested_open nested), head?, noIf, test]
  rfl

theorem read?_loop : read? ("loop".toList ++ [' ', '\x7b']) = some (.opens .loop) := rfl

theorem read?_else : read? ("\x7d else".toList ++ [' ', '\x7b']) = some .otherwise := rfl

theorem read?_elseIf (hc : c ≠ []) :
    read? ("\x7d else if ".toList ++ c ++ [' ', '\x7b']) = some (.elseIf (String.ofList c)) := by
  have noIf : condition? "if ".toList ("\x7d else if ".toList ++ c) = none := rfl
  have noWhile : condition? "while ".toList ("\x7d else if ".toList ++ c) = none := rfl
  have test : condition? "\x7d else if ".toList ("\x7d else if ".toList ++ c) =
      some (String.ofList c) := nonempty?_of_ne hc
  rw [read?_head (not_nested_close _), head?, noIf, noWhile, test]
  rfl

theorem read?_label {label : List Char} (h : Nested label) (hq : label.head? = some '\'') :
    read? (label ++ [':'] ++ [' ', '\x7b']) =
      some (.opens (.block (some (String.ofList label)))) := by
  obtain ⟨rest, rfl⟩ : ∃ rest, label = '\'' :: rest := by
    cases label with
    | nil => simp at hq
    | cons c rest =>
      obtain rfl : c = '\'' := by simpa using hq
      exact ⟨rest, rfl⟩
  have nested : Nested ('\'' :: rest ++ [':']) := h.append (by decide)
  -- a quote starts none of the other heads
  have noTest : ∀ start ∈ ["if ".toList, "while ".toList, "\x7d else if ".toList],
      condition? start ('\'' :: rest ++ [':']) = none := by
    intro start hs
    simp only [mem_cons, not_mem_nil, or_false] at hs
    rcases hs with rfl | rfl | rfl <;> rfl
  have noWord : ∀ word ∈ ["loop".toList, "\x7d else".toList],
      '\'' :: rest ++ [':'] ≠ word := by
    intro word hw heq
    have first : word.head? = some '\'' := by rw [← heq]; rfl
    simp only [mem_cons, not_mem_nil, or_false] at hw
    rcases hw with rfl | rfl <;> exact absurd first (by decide)
  rw [read?_head (not_nested_open nested), head?, noTest _ (by simp), noTest _ (by simp),
    noTest _ (by simp), if_neg (noWord _ (by simp)), if_neg (noWord _ (by simp)),
    if_pos getLast?_concat, dropLast_concat, nonempty?_of_ne (cons_ne_nil _ _)]
  rfl

/-! Words: jumps and bindings. -/

theorem firstWord_append (hw : ∀ c ∈ word, isWordChar c = true)
    (hr : ∀ c, rest.head? = some c → isWordChar c = false) : firstWord (word ++ rest) = word := by
  rw [firstWord, takeWhile_append_of_pos hw]
  cases rest with
  | nil => simp
  | cons c rest => simp [hr c rfl]

theorem afterWord_append (hw : ∀ c ∈ word, isWordChar c = true)
    (hr : ∀ c, rest.head? = some c → isWordChar c = false) : afterWord (word ++ rest) = rest := by
  rw [afterWord, dropWhile_append_of_pos hw]
  cases rest with
  | nil => rfl
  | cons c rest => simp [hr c rfl]

/-- A line is read by its first word, if nothing else of the word follows. -/
theorem read?_word (hw : ∀ c ∈ word, isWordChar c = true)
    (hr : ∀ c, rest.head? = some c → isWordChar c = false) (hn : Nested (word ++ rest)) :
    read? (word ++ rest) = (worded? word rest).map .statement := by
  rw [read?, if_pos hn, firstWord_append hw hr, afterWord_append hw hr]

theorem binding?_declare {name : List Char} (hn : ∀ c ∈ name, isWordChar c = true)
    (hc : name ≠ []) (value : List Char) :
    binding? ("mut ".toList ++ name ++ ": ".toList ++ value) =
      some (.declare (String.ofList name) (String.ofList value)) := by
  have word : ∀ c ∈ "mut".toList, isWordChar c = true := all_eq_true.1 (by decide)
  have colon : ∀ c, (": ".toList ++ value).head? = some c → isWordChar c = false := by
    intro c hc
    obtain rfl : ':' = c := by simpa using hc
    decide
  have start : trimStart (name ++ (": ".toList ++ value)) = name ++ (": ".toList ++ value) := by
    obtain ⟨c, rest, rfl⟩ := exists_cons_of_ne_nil hc
    exact trimStart_cons (isBlank_of_isWordChar (hn c (by simp))) _
  have shape : "mut ".toList ++ name ++ ": ".toList ++ value =
      "mut".toList ++ (' ' :: (name ++ (": ".toList ++ value))) := by
    simp
  have blank : ∀ c, (' ' :: (name ++ (": ".toList ++ value))).head? = some c →
      isWordChar c = false := by
    intro c hc
    obtain rfl : ' ' = c := by simpa using hc
    decide
  rw [shape, binding?, firstWord_append word blank, if_pos rfl, afterWord_append word blank,
    trimStart_blank_cons (by decide), start]
  simp only [firstWord_append hn colon, afterWord_append hn colon]
  rfl

theorem binding?_capture {name : List Char} (hn : ∀ c ∈ name, isWordChar c = true)
    (hm : name ≠ "mut".toList) (value : List Char) :
    binding? (name ++ " = ".toList ++ value) =
      some (.capture (String.ofList name) (String.ofList value)) := by
  have blank : ∀ c, (" = ".toList ++ value).head? = some c → isWordChar c = false := by
    intro c hc
    obtain rfl : ' ' = c := by simpa using hc
    decide
  rw [append_assoc, binding?, firstWord_append hn blank, afterWord_append hn blank,
    if_neg hm]
  rfl

end Line

/-! ## The reader -/

/-- The statements of a chain of branches whose last block is given. -/
def chained (chain : List (String × List (RustStmt String))) (last : List (RustStmt String)) :
    List (RustStmt String) :=
  chain.foldr (fun arm no => [.branch arm.1 arm.2 no]) last

@[simp] theorem chained_nil (last : List (RustStmt String)) : chained [] last = last := rfl

@[simp] theorem chained_concat (chain : List (String × List (RustStmt String))) (test : String)
    (body last : List (RustStmt String)) :
    chained (chain ++ [(test, body)]) last = chained chain [.branch test body last] := by
  simp [chained]

/-- What a block is when its brace is closed. -/
def Opening.close : Opening → List (RustStmt String) → List (RustStmt String)
  | .block label?, body => [.block label? body]
  | .branch chain test, body => chained chain [.branch test body []]
  | .otherwise chain, body => chained chain body
  | .whileLoop test, body => [.whileLoop test body]
  | .loop, body => [.loop body]

/-- **The reader**: the open blocks, each with the statements before it, and the statements read in
the innermost one. -/
structure Reader where
  frames : List (Opening × List (RustStmt String)) := []
  here : List (RustStmt String) := []

namespace Reader

/-- Go on in the block that is open. -/
def extend (r : Reader) (code : List (RustStmt String)) : Reader :=
  { r with here := r.here ++ code }

@[simp] theorem extend_nil (r : Reader) : r.extend [] = r := by
  simp [extend]

@[simp] theorem extend_extend (r : Reader) (a b : List (RustStmt String)) :
    (r.extend a).extend b = r.extend (a ++ b) := by
  simp [extend]

def push (r : Reader) (o : Opening) : Reader :=
  ⟨(o, r.here) :: r.frames, []⟩

def step (r : Reader) : Line → Option Reader
  | .statement s => some (r.extend [s])
  | .opens o => some (r.push o)
  | .elseIf test =>
    match r.frames with
    | (.branch chain first, before) :: frames =>
      some ⟨(.branch (chain ++ [(first, r.here)]) test, before) :: frames, []⟩
    | _ => none
  | .otherwise =>
    match r.frames with
    | (.branch chain first, before) :: frames =>
      some ⟨(.otherwise (chain ++ [(first, r.here)]), before) :: frames, []⟩
    | _ => none
  | .close =>
    match r.frames with
    | (o, before) :: frames => some ⟨frames, before ++ o.close r.here⟩
    | [] => none

/-- Take in some lines. -/
def feed (r : Reader) : List (List Char) → Option Reader
  | [] => some r
  | l :: ls => (Line.read? l).bind fun line => (r.step line).bind fun next => next.feed ls

theorem feed_append (r : Reader) (ls ms : List (List Char)) :
    r.feed (ls ++ ms) = (r.feed ls).bind fun next => next.feed ms := by
  induction ls generalizing r with
  | nil => rfl
  | cons l ls ih =>
    simp only [cons_append, feed, Option.bind_assoc, ih]

/-- Take in a line that is known. -/
theorem feed_cons {l : List Char} {line : Line} (h : Line.read? l = some line) (r : Reader)
    (ls : List (List Char)) : r.feed (l :: ls) = (r.step line).bind fun next => next.feed ls := by
  rw [feed, h, Option.bind_some]

/-- The statements read when no block is open. -/
def finish (r : Reader) : Option (List (RustStmt String)) :=
  if r.frames.isEmpty then some r.here else none

end Reader

open Reader

/-- The lines of some texts, without the blanks in front of them. -/
def codeLines (texts : List String) : List (List Char) :=
  texts.flatMap fun t => (Chars.lines t.toList).map Chars.trimStart

/-- **The statements of a text.** -/
def RustStmt.read? (text : String) : Option (List (RustStmt String)) :=
  (feed {} (codeLines [text])).bind finish

section

open Chars

/-- **Texts that are read as statements**, in every state of the reader. -/
structure Emits (texts : List String) (code : List (RustStmt String)) : Prop where
  tidy : ∀ t ∈ texts, IsTidy t.toList
  terminated : ∀ t ∈ texts, isTerminated t.toList = true
  reads : ∀ r : Reader, r.feed (codeLines texts) = some (r.extend code)

theorem emits_nil : Emits [] [] where
  tidy := by simp
  terminated := by simp
  reads r := by simp [codeLines, feed]

variable {code : List (RustStmt String)} {text : String} {texts : List String}

theorem Emits.eq_nil (h : Emits [] code) : code = [] := by
  have reads := h.reads {}
  simpa [codeLines, feed, extend] using reads.symm

theorem Emits.append {as bs : List String} {ca cb : List (RustStmt String)} (ha : Emits as ca)
    (hb : Emits bs cb) : Emits (as ++ bs) (ca ++ cb) where
  tidy t ht := (mem_append.1 ht).elim (ha.tidy t) (hb.tidy t)
  terminated t ht := (mem_append.1 ht).elim (ha.terminated t) (hb.terminated t)
  reads r := by
    rw [codeLines, flatMap_append, feed_append]
    have first := ha.reads r
    rw [codeLines] at first
    rw [first, Option.bind_some]
    have second := hb.reads (r.extend ca)
    rw [codeLines] at second
    rw [second, extend_extend]

theorem emits_line {s : RustStmt String} (tidy : Tidy text.toList)
    (terminated : isTerminated text.toList = true)
    (h : Line.read? (trimStart text.toList) = some (.statement s)) : Emits [text] [s] where
  tidy := by simpa using tidy.laid.isTidy
  terminated := by simpa using terminated
  reads r := by
    have lines : codeLines [text] = [trimStart text.toList] := by
      simp [codeLines, tidy.laid.lines_eq]
    rw [lines, feed_cons h]
    rfl

theorem codeLines_of_laid {ls : List (List Char)} (h : Laid text.toList ls) :
    codeLines [text] = ls.map trimStart := by
  simp [codeLines, h.lines_eq]

theorem toList_stacked (texts : List String) :
    (Text.stacked texts).toList = unlines (texts.map String.toList) := by
  rw [Text.stacked, Text.joined, String.toList_intercalate]
  rfl

/-- Stacked statements end as the last of them does. -/
theorem isTerminated_unlines {texts : List (List Char)} (hn : ∀ t ∈ texts, t ≠ [])
    (h : ∀ t ∈ texts, isTerminated t = true) : isTerminated (unlines texts) = true := by
  rcases eq_nil_or_concat texts with rfl | ⟨front, t, rfl⟩
  · rfl
  · rw [concat_eq_append] at *
    have ht : isTerminated t = true := h t (by simp)
    cases front with
    | nil => simpa using ht
    | cons u front =>
      have kept : '\n' :: t ≠ [] := by simp
      rw [unlines_append (by simp) (by simp), unlines_singleton, isTerminated_append kept,
        ← singleton_append, isTerminated_append (hn t (by simp))]
      exact ht

theorem IsTidy.ne_nil {cs : List Char} (h : IsTidy cs) : cs ≠ [] := by
  rintro rfl
  exact h.nonempty rfl

/-- Texts on lines of their own are read one after the other. -/
theorem Emits.stacked (h : Emits texts code) (hn : texts ≠ []) :
    Emits [Text.stacked texts] code := by
  have tidy : ∀ t ∈ texts.map String.toList, IsTidy t := by simpa using h.tidy
  have laid := laid_unlines (by simpa using hn) tidy
  rw [← toList_stacked] at laid
  refine ⟨by simpa using laid.isTidy, ?_, fun r => ?_⟩
  · have ends := isTerminated_unlines (fun t ht => IsTidy.ne_nil (tidy t ht))
      (by simpa using h.terminated)
    rw [← toList_stacked] at ends
    simpa using ends
  · rw [codeLines_of_laid laid, flatMap_map, map_flatMap]
    exact h.reads r

/-! ## Blocks -/

theorem toList_block (texts : List String) :
    (Fragment.block texts).toList = block (texts.map String.toList) := by
  rw [Fragment.block, String.toList_ofList]

/-- The lines of a block between its braces are those of its statements. -/
theorem map_trimStart_moved (texts : List String) :
    (((texts.map String.toList).flatMap lines).map moved).map trimStart = codeLines texts := by
  rw [codeLines, map_map, flatMap_map, map_flatMap]
  have same : trimStart ∘ moved = trimStart := funext trimStart_moved
  rw [same]

theorem laid_headed_block (h : ∀ t ∈ texts, IsTidy t.toList) (head : List Char) (hh : '\n' ∉ head) :
    Laid (head ++ (Fragment.block texts).toList)
      ((head ++ ['\x7b']) ::
        (((texts.map String.toList).flatMap lines).map moved ++ [['\x7d']])) := by
  rw [toList_block]
  exact (laid_block (by simpa using h)).prepend hh

/-- The lines of a block after its head, taken in at the head of the block. -/
theorem Emits.feed_body (h : Emits texts code) (o : Opening) (before : List (RustStmt String))
    (frames : List (Opening × List (RustStmt String))) (rest : List (List Char)) :
    feed ⟨(o, before) :: frames, []⟩ (codeLines texts ++ rest) =
      feed ⟨(o, before) :: frames, code⟩ rest := by
  rw [feed_append, h.reads, Option.bind_some]
  simp [extend]

theorem isTerminated_block (front : List Char) (texts : List String) :
    isTerminated (front ++ (Fragment.block texts).toList) = true := by
  rw [toList_block, block, ← append_assoc, isTerminated_append (by simp)]
  rfl

/-- **A block after its head**: the head opens it, and the statements are its body. -/
theorem Emits.opening (h : Emits texts code) (head : String) {o : Opening} (hl : '\n' ∉ head.toList)
    (hs : trimStart (head.toList ++ ['\x7b']) = head.toList ++ ['\x7b'])
    (hr : Line.read? (head.toList ++ ['\x7b']) = some (.opens o)) :
    Emits [head ++ Fragment.block texts] (o.close code) := by
  have laid := laid_headed_block h.tidy head.toList hl
  rw [← String.toList_append] at laid
  refine ⟨by simpa using laid.isTidy, ?_, fun r => ?_⟩
  · simpa using isTerminated_block head.toList texts
  · rw [codeLines_of_laid laid, map_cons, map_append, map_trimStart_moved, hs,
      feed_cons hr, step, Option.bind_some, push, h.feed_body]
    rfl

/-- A block without a head. -/
theorem Emits.block (h : Emits texts code) : Emits [Fragment.block texts] [.block none code] := by
  have opened := h.opening "" (by simp) (by decide) Line.read?_brace
  simpa [Opening.close] using opened

/-! ## Branches -/

/-- **An `if` after which a chain may go on**: the first line is its head, and the rest is read as
the last part of the chain that the `if` ends. -/
structure EmitsBranch (text : String) (code : List (RustStmt String)) : Prop where
  terminated : isTerminated text.toList = true
  laid : ∃ test ls, Nested test ∧ test ≠ [] ∧
    Laid text.toList (("if ".toList ++ test ++ [' ', '\x7b']) :: ls) ∧
    ∀ chain before frames,
      feed ⟨(.branch chain (String.ofList test), before) :: frames, []⟩
        (ls.map trimStart) = some ⟨frames, before ++ chained chain code⟩

theorem EmitsBranch.emits (h : EmitsBranch text code) : Emits [text] code := by
  obtain ⟨test, ls, nested, nonempty, laid, reads⟩ := h.laid
  refine ⟨by simpa using laid.isTidy, by simpa using h.terminated, fun r => ?_⟩
  have head : trimStart ("if ".toList ++ test ++ [' ', '\x7b']) =
      "if ".toList ++ test ++ [' ', '\x7b'] := trimStart_cons (by decide) _
  rw [codeLines_of_laid laid, map_cons, head, feed_cons (Line.read?_if nested nonempty),
    step, Option.bind_some, push, reads]
  rfl

section Branches

variable {test : String} {yes : List String} {cy : List (RustStmt String)}

/-- The head of an `if` and its first block. -/
def branchText (test : String) (yes : List String) : String :=
  "if " ++ test ++ " " ++ Fragment.block yes

theorem laid_branchText (ht : '\n' ∉ test.toList) (hy : Emits yes cy) :
    Laid (branchText test yes).toList
      (("if ".toList ++ test.toList ++ [' ', '\x7b']) ::
        (((yes.map String.toList).flatMap lines).map moved ++ [['\x7d']])) := by
  have front : '\n' ∉ ("if " ++ test ++ " ").toList := by simpa using ht
  have laid := laid_headed_block hy.tidy _ front
  rw [← String.toList_append] at laid
  simpa [branchText] using laid

theorem emitsBranch_single (hn : Nested test.toList) (hl : '\n' ∉ test.toList) (he : test ≠ "")
    (hy : Emits yes cy) : EmitsBranch (branchText test yes) [.branch test cy []] where
  terminated := by
    rw [branchText, String.toList_append]
    exact isTerminated_block _ yes
  laid := by
    refine ⟨test.toList, _, hn, by simpa using he, laid_branchText hl hy, ?_⟩
    intro chain before frames
    rw [map_append, map_trimStart_moved, hy.feed_body, String.ofList_toList]
    exact feed_cons Line.read?_close _ _

/-- The lines of a chain: what follows an `else` starts on the line that closes the block. -/
theorem laid_else (hl : '\n' ∉ test.toList) (hy : Emits yes cy) {other : String}
    {first : List Char} {ls : List (List Char)} (ho : Laid other.toList (first :: ls)) :
    Laid (branchText test yes ++ " else " ++ other).toList
      (("if ".toList ++ test.toList ++ [' ', '\x7b']) ::
        (((yes.map String.toList).flatMap lines).map moved ++
          ("\x7d else ".toList ++ first) :: ls)) := by
  have before := laid_branchText hl hy
  rw [← cons_append] at before
  have glued := before.glue ho " else ".toList (by decide)
  simpa using glued

theorem emitsBranch_else (hn : Nested test.toList) (hl : '\n' ∉ test.toList) (he : test ≠ "")
    (hy : Emits yes cy) {no : List String} {cn : List (RustStmt String)} (hno : Emits no cn) :
    EmitsBranch (branchText test yes ++ " else " ++ Fragment.block no) [.branch test cy cn] where
  terminated := by
    rw [String.toList_append]
    exact isTerminated_block _ no
  laid := by
    have other := laid_headed_block hno.tidy [] (by simp)
    refine ⟨test.toList, _, hn, by simpa using he, laid_else hl hy other, ?_⟩
    intro chain before frames
    have opens : trimStart ("\x7d else ".toList ++ ([] ++ ['\x7b'])) =
        "\x7d else".toList ++ [' ', '\x7b'] := rfl
    rw [map_append, map_trimStart_moved, hy.feed_body, String.ofList_toList, map_cons,
      opens, feed_cons Line.read?_else, step, Option.bind_some, map_append,
      map_trimStart_moved, hno.feed_body]
    refine (feed_cons Line.read?_close _ _).trans ?_
    simp [step, feed, Opening.close]

theorem emitsBranch_elseIf (hn : Nested test.toList) (hl : '\n' ∉ test.toList) (he : test ≠ "")
    (hy : Emits yes cy) {other : String} {cn : List (RustStmt String)}
    (hno : EmitsBranch other cn) :
    EmitsBranch (branchText test yes ++ " else " ++ other) [.branch test cy cn] where
  terminated := by
    have nonempty : other.toList ≠ [] := by
      obtain ⟨_, _, _, _, laid, _⟩ := hno.laid
      exact IsTidy.ne_nil laid.isTidy
    rw [String.toList_append, isTerminated_append nonempty]
    exact hno.terminated
  laid := by
    obtain ⟨inner, ls, nested, nonempty, laid, reads⟩ := hno.laid
    refine ⟨test.toList, _, hn, by simpa using he, laid_else hl hy laid, ?_⟩
    intro chain before frames
    have opens : trimStart ("\x7d else ".toList ++ ("if ".toList ++ inner ++ [' ', '\x7b'])) =
        "\x7d else if ".toList ++ inner ++ [' ', '\x7b'] := rfl
    rw [map_append, map_trimStart_moved, hy.feed_body, String.ofList_toList, map_cons,
      opens, feed_cons (Line.read?_elseIf nonempty), step, Option.bind_some, reads,
      chained_concat]

end Branches

/-- **Reading back**: stacked texts are read as the statements they emit. -/
theorem Emits.read?_stacked (h : Emits texts code) :
    RustStmt.read? (Text.stacked texts) = some code := by
  by_cases hn : texts = []
  · subst hn
    rw [h.eq_nil]
    rfl
  · rw [RustStmt.read?, (h.stacked hn).reads, Option.bind_some]
    simp [extend, finish]

end

end Ferric
