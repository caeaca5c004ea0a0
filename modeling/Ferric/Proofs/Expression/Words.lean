import Ferric.Proofs.Flow.Simple

/-!
# The words of an expression

An expression of the target language is cut into words: operators, parentheses and operands.  An
operand is a name or a number together with the fields, paths, calls and subscripts that follow it
without a blank; what stands in its brackets belongs to it, and brackets inside of quotes do not
count.  It may also start with a parenthesis, if a field, a call or a subscript follows the one that
closes it.  Of two operators that start alike the longer one is read.

## Main definitions

* `Chars.Scan`: how far a word has been read.
* `Chars.isOperandWord`: texts that are one operand.
* `Chars.exprWords`: the words of an expression.

## Main results

* `Chars.exprWordsFrom_word`: a word that cannot be continued is read as such.
-/

namespace Ferric

open List Option

namespace Chars

/-- Whether and how a position is quoted. -/
inductive Quote where
  | none
  | text
  | textEscape
  | char
  | charEscape
deriving DecidableEq, Repr

/-- **How far a word has been read.** -/
inductive Scan where
  /-- A name, or a number that is no longer only digits. -/
  | name
  /-- After a point or a colon, where a name has to follow. -/
  | joint
  /-- The digits and the point of a decimal number. -/
  | number
  /-- After the letter of an exponent. -/
  | exponent
  /-- Inside of brackets, the innermost first. -/
  | group (stack : List Char) (quote : Quote)
  /-- After the brackets of a call or a subscript. -/
  | closed
  /-- An operator of one character, which may be the start of a longer one. -/
  | symbol (c : Char)
  /-- A word that nothing continues. -/
  | full
deriving DecidableEq, Repr

/-- The characters of operators. -/
def isSymbolChar (c : Char) : Bool :=
  c ∈ ['+', '-', '*', '/', '%', '&', '|', '^', '<', '>', '=', '!']

/-- The operators of two characters. -/
def isPair (c d : Char) : Bool :=
  (c, d) ∈ [('=', '='), ('!', '='), ('<', '='), ('>', '='), ('<', '<'), ('>', '>'), ('&', '&'),
    ('|', '|')]

namespace Scan

/-- The first character of a word. -/
def start? (c : Char) : Option Scan :=
  if c.isDigit then some .number
  else if isWordChar c then some .name
  else if c = '(' || c = ')' then some .full
  else if isSymbolChar c then some (.symbol c)
  else none

/-- Brackets of a call or a subscript. -/
def opens? (c : Char) : Option Scan :=
  if c = '(' || c = '[' then some (.group [c] .none) else none

/-- A character inside of brackets and outside of quotes. -/
def inGroup? (stack : List Char) (c : Char) : Option Scan :=
  if c = '"' then some (.group stack .text)
  else if c = '\'' then some (.group stack .char)
  else if isOpening c then some (.group (c :: stack) .none)
  else if isClosing c then
    match stack with
    | [] => none
    | o :: rest =>
      if o = partner c then some (if rest = [] then .closed else .group rest .none) else none
  else some (.group stack .none)

/-- A character inside of quotes. -/
def quoted (stack : List Char) : Quote → Char → Scan
  | .none, _ => .group stack .none
  | .text, c => .group stack (if c = '"' then .none else if c = '\\' then .textEscape else .text)
  | .textEscape, _ => .group stack .text
  | .char, c => .group stack (if c = '\'' then .none else if c = '\\' then .charEscape else .char)
  | .charEscape, _ => .group stack .char

/-- **One more character of a word**, unless it cannot continue it. -/
def step? : Scan → Char → Option Scan
  | .name, c =>
    if isWordChar c then some .name else if c = '.' || c = ':' then some .joint else opens? c
  | .joint, c => if isWordChar c then some .name else if c = ':' then some .joint else none
  | .number, c =>
    if c.isDigit || c = '.' || c = '_' then some .number
    else if c = 'e' || c = 'E' then some .exponent
    else if isWordChar c then some .name
    else none
  | .exponent, c => if c = '+' || c = '-' || isWordChar c then some .name else none
  | .closed, c => if c = '.' then some .joint else opens? c
  | .group stack .none, c => inGroup? stack c
  | .group stack quote, c => some (quoted stack quote c)
  | .symbol c, d => if isPair c d then some .full else none
  | .full, _ => none

/-- Whether the open brackets are closed and a field, a call or a subscript follows. -/
def leads : Scan → List Char → Bool
  | .group stack quote, c :: cs =>
    match step? (.group stack quote) c with
    | some .closed => cs.head?.any fun d => d = '.' || d = '(' || d = '['
    | some next => leads next cs
    | none => false
  | _, _ => false

/-- The first character of a word, given what follows it. -/
def startAt? (c : Char) (rest : List Char) : Option Scan :=
  if c = '(' && leads (.group ['('] .none) rest then some (.group ['('] .none) else start? c

/-- Whether a word may end here. -/
def isComplete : Scan → Bool
  | .name | .number | .closed | .symbol _ | .full => true
  | .joint | .exponent | .group _ _ => false

/-- Whether an operand may end here. -/
def isOperand : Scan → Bool
  | .name | .number | .closed => true
  | _ => false

def ofWord? : List Char → Option Scan
  | [] => none
  | c :: cs => (startAt? c cs).bind fun s => cs.foldlM step? s

end Scan

open Scan

/-- **A text that is one operand.** -/
def isOperandWord (cs : List Char) : Bool :=
  (ofWord? cs).any isOperand

theorem isOperandWord_iff {word : List Char} :
    isOperandWord word = true ↔ ∃ scan, ofWord? word = some scan ∧ scan.isOperand = true :=
  any_eq_true _ _

/-- The word that is being read, from its end, and how far it is read. -/
abbrev Pending := Option (List Char × Scan)

/-- The pending word with one more character. -/
def Pending.continue? (pending : Pending) (c : Char) : Pending :=
  pending.bind fun word => (word.2.step? c).map fun scan => (c :: word.1, scan)

/-- The pending word as a list of at most one word. -/
def Pending.close? : Pending → Option (List (List Char))
  | none => some []
  | some word => if word.2.isComplete then some [word.1.reverse] else none

/-- The words of a text, given the one that is being read. -/
def exprWordsFrom : Pending → List Char → Option (List (List Char))
  | pending, [] => pending.close?
  | pending, c :: cs =>
    match pending.continue? c with
    | some word => exprWordsFrom (some word) cs
    | none =>
      let rest? :=
        if isBlank c then exprWordsFrom none cs
        else
          match startAt? c cs with
          | some scan => exprWordsFrom (some ([c], scan)) cs
          | none => none
      pending.close?.bind fun done => rest?.map (done ++ ·)

/-- **The words of an expression.** -/
def exprWords (cs : List Char) : Option (List (List Char)) :=
  exprWordsFrom none cs

/-! ## Reading a word -/

/-- A text after which a word has to end. -/
def Scan.EndsBefore (scan : Scan) (rest : List Char) : Prop :=
  ∀ c, rest.head? = some c → scan.step? c = none

variable {scan : Scan} {cs : List Char} {c : Char}

theorem exprWordsFrom_continue {scan' : Scan} (h : cs.foldlM step? scan = some scan')
    (word rest : List Char) :
    exprWordsFrom (some (word, scan)) (cs ++ rest) =
      exprWordsFrom (some (cs.reverse ++ word, scan')) rest := by
  induction cs generalizing scan word with
  | nil =>
    obtain rfl : scan = scan' := by simpa using h
    rfl
  | cons c cs ih =>
    rw [foldlM_cons] at h
    obtain ⟨next, step, later⟩ := bind_eq_some_iff.1 h
    have read : Pending.continue? (some (word, scan)) c = some (c :: word, next) := by
      simp [Pending.continue?, step]
    rw [cons_append, exprWordsFrom, read, reverse_cons, append_assoc]
    exact ih later (c :: word)

theorem exprWordsFrom_close (complete : scan.isComplete = true) {rest : List Char}
    (ends : scan.EndsBefore rest) (word : List Char) :
    exprWordsFrom (some (word, scan)) rest =
      (exprWordsFrom none rest).map (word.reverse :: ·) := by
  cases rest with
  | nil => simp [exprWordsFrom, Pending.close?, complete]
  | cons c rest =>
    have stop : Pending.continue? (some (word, scan)) c = none := by
      simp [Pending.continue?, ends c rfl]
    have fresh : Pending.continue? none c = none := rfl
    rw [exprWordsFrom, stop, exprWordsFrom, fresh]
    simp only [Pending.close?, complete, if_true, Option.bind_some, Option.map_map]
    rfl

theorem exprWordsFrom_start (start : startAt? c cs = some scan) (solid : isBlank c = false) :
    exprWordsFrom none (c :: cs) = exprWordsFrom (some ([c], scan)) cs := by
  rw [exprWordsFrom]
  simp [Pending.continue?, Pending.close?, solid, start]

/-- **A word that cannot be continued is read as such**, if it starts with what follows as it does
alone. -/
theorem exprWordsFrom_word {rest : List Char} (read : ofWord? (c :: cs) = some scan)
    (complete : scan.isComplete = true) (solid : isBlank c = false)
    (same : startAt? c (cs ++ rest) = startAt? c cs) (ends : scan.EndsBefore rest) :
    exprWordsFrom none (c :: cs ++ rest) = (exprWordsFrom none rest).map ((c :: cs) :: ·) := by
  obtain ⟨first, start, later⟩ := bind_eq_some_iff.1 read
  rw [cons_append, exprWordsFrom_start (same.trans start) solid,
    exprWordsFrom_continue later, exprWordsFrom_close complete ends]
  simp

theorem exprWordsFrom_blank (blank : isBlank c = true) (rest : List Char) :
    exprWordsFrom none (c :: rest) = exprWordsFrom none rest := by
  rw [exprWordsFrom]
  simp [Pending.continue?, Pending.close?, blank]

/-! ## The first character of a word -/

namespace Scan

variable {c : Char} {scan : Scan}

theorem isBlank_of_start? (h : start? c = some scan) : isBlank c = false := by
  have solid : ∀ c ∈ ['(', ')', '+', '-', '*', '/', '%', '&', '|', '^', '<', '>', '=', '!'],
      isBlank c = false := by decide
  unfold start? at h
  split at h
  · rename_i digit
    apply isBlank_of_isWordChar
    simp [isWordChar, Char.isAlphanum, digit]
  · split at h
    · exact isBlank_of_isWordChar ‹_›
    · split at h
      · rename_i paren
        apply solid
        rcases Bool.or_eq_true_iff.1 paren with h | h <;> simp [of_decide_eq_true h]
      · split at h
        · rename_i symbol
          apply solid
          have mem := of_decide_eq_true symbol
          exact mem_cons_of_mem _ (mem_cons_of_mem _ mem)
        · cases h

/-- A parenthesis that leads an operand, or what stands at the start of any word. -/
theorem startAt?_eq_some {rest : List Char} (h : startAt? c rest = some scan) :
    (c = '(' ∧ leads (.group ['('] .none) rest = true ∧ scan = .group ['('] .none) ∨
      start? c = some scan := by
  rw [startAt?] at h
  split at h
  · rename_i lead
    obtain ⟨paren, lead⟩ := Bool.and_eq_true_iff.1 lead
    exact .inl ⟨of_decide_eq_true paren, lead, (some.inj h).symm⟩
  · exact .inr h

theorem startAt?_of_ne {c : Char} (h : c ≠ '(') (rest : List Char) :
    startAt? c rest = start? c := by
  simp [startAt?, h]

theorem isBlank_of_startAt? {rest : List Char} (h : startAt? c rest = some scan) :
    isBlank c = false := by
  rcases startAt?_eq_some h with ⟨rfl, -, -⟩ | h
  · rfl
  · exact isBlank_of_start? h

/-- Whether the word is an operator or a parenthesis. -/
def isOperator : Scan → Bool
  | .symbol _ | .full => true
  | _ => false

theorem isOperator_eq_false (h : scan.isOperand = true) : scan.isOperator = false := by
  cases scan with
  | symbol | full => cases h
  | _ => rfl

/-- What started as an operator stays one. -/
theorem isOperator_of_step? {scan' : Scan} (h : scan.isOperator = true)
    (step : scan.step? c = some scan') : scan'.isOperator = true := by
  cases scan with
  | symbol d =>
    simp only [step?] at step
    split at step
    · obtain rfl := some.inj step
      rfl
    · cases step
  | full => cases step
  | name | joint | number | exponent | group _ _ | closed => cases h

/-- What every step keeps holds at the end. -/
theorem of_foldlM {P : Scan → Prop}
    (kept : ∀ scan c next, P scan → step? scan c = some next → P next) {cs : List Char}
    {scan' : Scan} (h : P scan) (run : cs.foldlM step? scan = some scan') : P scan' := by
  induction cs generalizing scan with
  | nil =>
    obtain rfl : scan = scan' := by simpa using run
    exact h
  | cons c cs ih =>
    rw [foldlM_cons] at run
    obtain ⟨next, step, later⟩ := bind_eq_some_iff.1 run
    exact ih (kept scan c next h step) later

end Scan

/-- **How an operand starts**: with a parenthesis that leads it, with a digit or with a name. -/
theorem exists_of_isOperandWord {word : List Char} (h : isOperandWord word = true) :
    ∃ c cs first scan, word = c :: cs ∧ startAt? c cs = some first ∧
      cs.foldlM step? first = some scan ∧ scan.isOperand = true ∧
      (c = '(' ∧ leads (.group ['('] .none) cs = true ∧ first = .group ['('] .none ∨
        c.isDigit = true ∧ first = .number ∨ isWordChar c = true ∧ first = .name) := by
  obtain ⟨scan, read, operand⟩ := isOperandWord_iff.1 h
  cases word with
  | nil => cases read
  | cons c cs =>
    obtain ⟨first, start, later⟩ := bind_eq_some_iff.1 read
    refine ⟨c, cs, first, scan, rfl, start, later, operand, ?_⟩
    rcases startAt?_eq_some start with lead | start
    · exact .inl lead
    · unfold start? at start
      split at start
      · exact .inr (.inl ⟨‹_›, (some.inj start).symm⟩)
      · split at start
        · exact .inr (.inr ⟨‹_›, (some.inj start).symm⟩)
        · -- an operator or a parenthesis stays one
          exfalso
          have operator : first.isOperator = true := by
            split at start
            · rw [← some.inj start]
              rfl
            · split at start
              · rw [← some.inj start]
                rfl
              · cases start
          have still := of_foldlM (fun _ _ _ => isOperator_of_step?) operator later
          rw [isOperator_eq_false operand] at still
          cases still

/-! ## Words inside of brackets -/

namespace Scan

/-- A word as it is read inside of brackets that are open around it. -/
def inside (base : List Char) : Scan → Scan
  | .group stack quote => .group (stack ++ base) quote
  | _ => .group base .none

/-- Characters without a meaning inside of brackets. -/
def isNeutral (c : Char) : Bool :=
  !isOpening c && !isClosing c && c != '"' && c != '\''

variable {c : Char} {scan scan' : Scan} {base cs : List Char}

theorem step?_of_isNeutral (h : isNeutral c = true) (stack : List Char) :
    step? (.group stack .none) c = some (.group stack .none) := by
  simp only [isNeutral, Bool.and_eq_true, Bool.not_eq_true', bne_iff_ne, ne_eq] at h
  simp [step?, inGroup?, h]

/-- The characters of an operand outside of its brackets. -/
def isPart (c : Char) : Bool :=
  isWordChar c || c ∈ ['.', ':', '+', '-']

theorem isPart_of_isWordChar (h : isWordChar c = true) : isPart c = true := by
  rw [isPart, h, Bool.true_or]

theorem isPart_of_isDigit (h : c.isDigit = true) : isPart c = true :=
  isPart_of_isWordChar (by simp [isWordChar, Char.isAlphanum, h])

theorem isBlank_of_isPart (h : isPart c = true) : isBlank c = false := by
  rcases Bool.or_eq_true_iff.1 h with h | h
  · exact isBlank_of_isWordChar h
  · have solid : ∀ c ∈ ['.', ':', '+', '-'], isBlank c = false := by decide
    exact solid c (of_decide_eq_true h)

theorem isNeutral_of_isPart (h : isPart c = true) : isNeutral c = true := by
  rcases Bool.or_eq_true_iff.1 h with h | h
  · have bracket := isBracket_of_isWordChar h
    rw [isBracket, Bool.or_eq_false_iff] at bracket
    have quote : c ≠ '"' := by
      rintro rfl
      cases h
    have apostrophe : c ≠ '\'' := by
      rintro rfl
      cases h
    simp [isNeutral, bracket, quote, apostrophe]
  · have neutral : ∀ c ∈ ['.', ':', '+', '-'], isNeutral c = true := by decide
    exact neutral c (of_decide_eq_true h)

theorem step?_of_isOpening (h : isOpening c = true) (stack : List Char) :
    step? (.group stack .none) c = some (.group (c :: stack) .none) := by
  have quote : c ≠ '"' := by
    rintro rfl
    cases h
  have apostrophe : c ≠ '\'' := by
    rintro rfl
    cases h
  simp [step?, inGroup?, h, quote, apostrophe]

theorem opens?_eq_some (h : opens? c = some scan) :
    isOpening c = true ∧ scan = .group [c] .none := by
  unfold opens? at h
  split at h
  · rename_i bracket
    refine ⟨?_, (some.inj h).symm⟩
    rcases Bool.or_eq_true_iff.1 bracket with h | h <;> rw [of_decide_eq_true h] <;> rfl
  · cases h

/-- Whether an operand has been read as far as between its brackets. -/
def isOutside : Scan → Bool
  | .name | .joint | .number | .exponent | .closed => true
  | _ => false

theorem inside_of_isOutside (base : List Char) (h : scan.isOutside = true) :
    inside base scan = .group base .none := by
  cases scan with
  | group | symbol | full => cases h
  | _ => rfl

theorem isOutside_of_isOperand (h : scan.isOperand = true) : scan.isOutside = true := by
  cases scan with
  | name | number | closed => rfl
  | joint | exponent | group | symbol | full => cases h

/-- **How an operand goes on outside of brackets**: with one of its characters or with a bracket. -/
def GoesOn (c : Char) (next : Scan) : Prop :=
  isPart c = true ∧ next.isOutside = true ∨ isOpening c = true ∧ next = .group [c] .none

/-- A test that a character is put to, and what follows if it fails. -/
theorem goesOn_ite {p : Prop} [Decidable p] {next : Scan} {rest : Option Scan}
    (step : (if p then some next else rest) = some scan') (part : p → isPart c = true)
    (outside : next.isOutside = true) (other : rest = some scan' → GoesOn c scan') :
    GoesOn c scan' := by
  split at step
  · rename_i here
    exact .inl ⟨part here, some.inj step ▸ outside⟩
  · exact other step

theorem step?_outside (outside : scan.isOutside = true) (step : scan.step? c = some scan') :
    GoesOn c scan' := by
  have listed : ∀ d ∈ ['.', ':', '_', 'e', 'E', '+', '-'], isPart d = true := by decide
  have word := @isPart_of_isWordChar c
  cases scan with
  | name =>
    refine goesOn_ite step word rfl fun step => goesOn_ite step (fun joins => ?_) rfl
      fun step => .inr (opens?_eq_some step)
    exact listed c (by simp at joins ⊢; tauto)
  | joint =>
    exact goesOn_ite step word rfl fun step => goesOn_ite step
      (fun joins => listed c (by simp [joins])) rfl fun step => nomatch step
  | number =>
    refine goesOn_ite step (fun digits => ?_) rfl fun step => goesOn_ite step (fun letter => ?_) rfl
      fun step => goesOn_ite step word rfl fun step => nomatch step
    · by_cases digit : c.isDigit = true
      · exact isPart_of_isDigit digit
      · exact listed c (by simp [digit] at digits ⊢; tauto)
    · exact listed c (by simp at letter ⊢; tauto)
  | exponent =>
    refine goesOn_ite step (fun signs => ?_) rfl fun step => nomatch step
    by_cases letter : isWordChar c = true
    · exact word letter
    · exact listed c (by simp [letter] at signs ⊢; tauto)
  | closed =>
    exact goesOn_ite step (fun joins => listed c (by simp [joins])) rfl
      fun step => .inr (opens?_eq_some step)
  | group | symbol | full => cases outside

/-- Inside of its brackets an operand goes on until the last of them is closed. -/
theorem step?_group {stack : List Char} (hb : base ≠ []) {quote : Quote}
    (step : step? (.group stack quote) c = some scan') :
    step? (.group (stack ++ base) quote) c = some (inside base scan') ∧
      (isClosing c = true ∧ scan'.isOutside = true ∨
        ∃ stack' quote', scan' = .group stack' quote') := by
  cases quote with
  | none =>
    simp only [step?, inGroup?] at step ⊢
    split at step
    · rw [if_pos ‹_›, ← some.inj step]
      exact ⟨rfl, .inr ⟨_, _, rfl⟩⟩
    · rw [if_neg ‹_›]
      split at step
      · rw [if_pos ‹_›, ← some.inj step]
        exact ⟨rfl, .inr ⟨_, _, rfl⟩⟩
      · rw [if_neg ‹_›]
        split at step
        · rw [if_pos ‹_›, ← some.inj step]
          exact ⟨rfl, .inr ⟨_, _, rfl⟩⟩
        · rw [if_neg ‹_›]
          split at step
          · rw [if_pos ‹_›]
            cases stack with
            | nil => cases step
            | cons o rest =>
              simp only [cons_append] at step ⊢
              split at step
              · rename_i closing _
                rw [if_pos ‹_›, ← some.inj step]
                -- the last bracket of the operand leaves those around it open
                by_cases last : rest = []
                · simp [last, hb, inside, isOutside, closing]
                · simp [last, inside]
              · cases step
          · rw [if_neg ‹_›, ← some.inj step]
            exact ⟨rfl, .inr ⟨_, _, rfl⟩⟩
  | text | textEscape | char | charEscape =>
    rw [← some.inj step]
    exact ⟨rfl, .inr ⟨_, _, rfl⟩⟩

/-- **Inside of brackets an operand is read on like outside of them.** -/
theorem step?_inside (hb : base ≠ []) (operand : scan.isOperator = false)
    (step : scan.step? c = some scan') :
    (inside base scan).step? c = some (inside base scan') ∧ scan'.isOperator = false := by
  have outsideOf : ∀ {scan : Scan}, scan.isOutside = true → scan.isOperator = false := by
    intro scan h
    cases scan with
    | group | symbol | full => cases h
    | _ => rfl
  by_cases outside : scan.isOutside = true
  · rw [inside_of_isOutside base outside]
    rcases step?_outside outside step with ⟨part, outside'⟩ | ⟨opening, rfl⟩
    · rw [inside_of_isOutside base outside', step?_of_isNeutral (isNeutral_of_isPart part)]
      exact ⟨rfl, outsideOf outside'⟩
    · exact ⟨step?_of_isOpening opening base, rfl⟩
  · cases scan with
    | group stack quote =>
      obtain ⟨kept, ⟨-, outside'⟩ | ⟨stack', quote', rfl⟩⟩ := step?_group hb step
      · exact ⟨kept, outsideOf outside'⟩
      · exact ⟨kept, rfl⟩
    | symbol | full => cases operand
    | name | joint | number | exponent | closed => exact absurd rfl outside

theorem leads_cons {stack : List Char} {quote : Quote} {stack' : List Char} {quote' : Quote}
    (step : step? (.group stack quote) c = some (.group stack' quote')) (cs : List Char) :
    leads (.group stack quote) (c :: cs) = leads (.group stack' quote') cs := by
  rw [leads, step]

/-- Reading an operand inside of brackets does not show what follows them. -/
theorem leads_inside (hb : base ≠ []) (operand : scan.isOperator = false)
    (run : cs.foldlM step? scan = some scan') (rest : List Char) :
    leads (inside base scan) (cs ++ rest) = leads (inside base scan') rest := by
  induction cs generalizing scan with
  | nil =>
    obtain rfl : scan = scan' := by simpa using run
    rfl
  | cons c cs ih =>
    rw [foldlM_cons] at run
    obtain ⟨next, step, later⟩ := bind_eq_some_iff.1 run
    obtain ⟨kept, operand'⟩ := step?_inside hb operand step
    have grouped : ∀ scan, ∃ stack quote, inside base scan = .group stack quote := by
      intro scan
      cases scan <;> exact ⟨_, _, rfl⟩
    obtain ⟨stack, quote, before⟩ := grouped scan
    obtain ⟨stack', quote', after⟩ := grouped next
    rw [before, after] at kept
    rw [cons_append, before, leads_cons kept, ← after, ih operand' later]

theorem isOperator_foldlM_eq_false (operand : scan.isOperator = false)
    (run : cs.foldlM step? scan = some scan') : scan'.isOperator = false :=
  of_foldlM (P := fun scan => scan.isOperator = false)
    (fun _ _ _ operand step => (step?_inside (cons_ne_nil '(' []) operand step).2) operand run

/-- More text after it does not change how an operand starts. -/
theorem leads_append (h : leads scan cs = true) (rest : List Char) :
    leads scan (cs ++ rest) = true := by
  induction cs generalizing scan with
  | nil => cases scan <;> cases h
  | cons c cs ih =>
    cases scan with
    | group stack quote =>
      rw [leads] at h
      rw [cons_append, leads]
      split at h
      · cases cs with
        | nil => cases h
        | cons d cs => exact h
      · exact ih h
      · cases h
    | name | joint | number | exponent | closed | symbol | full => cases h

/-- An operand does not end in a blank or a semicolon. -/
theorem solid_of_step? (operand : scan.isOperator = false) (step : scan.step? c = some scan')
    (outside : scan'.isOutside = true) : isBlank c = false ∧ c ≠ ';' := by
  by_cases before : scan.isOutside = true
  · rcases step?_outside before step with ⟨part, -⟩ | ⟨-, rfl⟩
    · refine ⟨isBlank_of_isPart part, ?_⟩
      rintro rfl
      cases part
    · cases outside
  · cases scan with
    | group stack quote =>
      obtain ⟨-, ⟨closing, -⟩ | ⟨stack', quote', rfl⟩⟩ := step?_group (cons_ne_nil '(' []) step
      · simp only [isClosing, Bool.or_eq_true, beq_iff_eq] at closing
        rcases closing with (rfl | rfl) | rfl <;> decide
      · cases outside
    | symbol | full => cases operand
    | name | joint | number | exponent | closed => exact absurd rfl before

end Scan

/-! ## Operands -/

section Operands

variable {word : List Char} (h : isOperandWord word = true)

include h

/-- More text after it does not change how an operand starts. -/
theorem startAt?_append_of_isOperandWord {c : Char} {cs : List Char} (hw : word = c :: cs)
    (rest : List Char) : startAt? c (cs ++ rest) = startAt? c cs := by
  obtain ⟨d, ds, first, scan, shape, -, -, -, how⟩ := exists_of_isOperandWord h
  obtain ⟨rfl, rfl⟩ := cons.inj (hw.symm.trans shape)
  rcases how with ⟨rfl, leads, -⟩ | ⟨digit, -⟩ | ⟨name, -⟩
  · simp [startAt?, leads, leads_append leads rest]
  · have other : c ≠ '(' := by
      rintro rfl
      cases digit
    rw [startAt?_of_ne other, startAt?_of_ne other]
  · have other : c ≠ '(' := by
      rintro rfl
      cases name
    rw [startAt?_of_ne other, startAt?_of_ne other]

/-- An operand inside of brackets does not show what follows them. -/
theorem leads_of_isOperandWord {base : List Char} (hb : base ≠ []) (rest : List Char) :
    leads (.group base .none) (word ++ rest) = leads (.group base .none) rest := by
  obtain ⟨c, cs, first, scan, rfl, -, run, operand, how⟩ := exists_of_isOperandWord h
  have start : step? (.group base .none) c = some (inside base first) ∧
      first.isOperator = false := by
    rcases how with ⟨rfl, -, rfl⟩ | ⟨digit, rfl⟩ | ⟨name, rfl⟩
    · exact ⟨step?_of_isOpening rfl base, rfl⟩
    · exact ⟨step?_of_isNeutral (isNeutral_of_isPart (isPart_of_isDigit digit)) base,
        rfl⟩
    · exact ⟨step?_of_isNeutral (isNeutral_of_isPart (isPart_of_isWordChar name))
        base, rfl⟩
  have whole : inside base scan = .group base .none :=
    inside_of_isOutside base (isOutside_of_isOperand operand)
  have later := leads_inside hb start.2 run rest
  rw [whole] at later
  rw [cons_append, ← later]
  obtain ⟨kept, -⟩ := start
  cases first <;> exact leads_cons kept _

/-- An operand does not end in a blank or a semicolon. -/
theorem getLast?_of_isOperandWord :
    ∀ c, word.getLast? = some c → isBlank c = false ∧ c ≠ ';' := by
  intro c hc
  obtain ⟨d, cs, first, scan, rfl, -, run, operand, how⟩ := exists_of_isOperandWord h
  rcases eq_nil_or_concat cs with rfl | ⟨front, last, rfl⟩
  · obtain rfl : d = c := by simpa using hc
    obtain rfl : first = scan := by simpa using run
    have part : isPart d = true := by
      rcases how with ⟨-, -, rfl⟩ | ⟨digit, -⟩ | ⟨name, -⟩
      · cases operand
      · exact isPart_of_isDigit digit
      · exact isPart_of_isWordChar name
    refine ⟨isBlank_of_isPart part, ?_⟩
    rintro rfl
    cases part
  · obtain rfl : last = c := by simpa [getLast?_cons] using hc
    rw [concat_eq_append, foldlM_append] at run
    obtain ⟨before, ahead, step⟩ := bind_eq_some_iff.1 run
    have first : first.isOperator = false := by
      rcases how with ⟨-, -, rfl⟩ | ⟨-, rfl⟩ | ⟨-, rfl⟩ <;> rfl
    have step : before.step? last = some scan := by simpa using step
    exact solid_of_step? (isOperator_foldlM_eq_false first ahead) step
      (isOutside_of_isOperand operand)

end Operands

end Chars

end Ferric
