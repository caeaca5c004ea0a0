import Ferric.Proofs.Expression.RustExpr

/-!
# Reading expressions

The reader goes through the words of an expression with a stack of what waits for an operand.  A
sign takes the operand after it.  An operator takes the operand before it, once everything that
waits and binds at least as tightly has been put together.  Comparisons do not associate, so that
two of them in a row cannot be read.

## Main definitions

* `RustExpr.Reading.step?`: one more word.
* `RustExpr.read?`: the expression that a text is read as.

## Main results

* `RustExpr.read?_text_of_fits`: an expression that fits is read.
* `RustExpr.fits_of_read?`: whatever is read fits.
* `RustExpr.read?_text_iff`: an expression is read as it was written just when it fits.
-/

namespace Ferric

open Option

namespace RustExpr

/-! ## The reader -/

/-- What waits for an operand. -/
inductive Frame where
  | group
  | sign (op : PrefixOp)
  /-- An operator with its left operand. -/
  | left (op : InfixOp) (lhs : RustExpr)

/-- Put together what binds at least as tightly as a level. -/
def reduce (bound : Nat) : List Frame → RustExpr → List Frame × RustExpr
  | .sign op :: frames, e => reduce bound frames (.unary op e)
  | .left op l :: frames, e =>
    if bound ≤ op.level then reduce bound frames (.binary op l e) else (.left op l :: frames, e)
  | frames, e => (frames, e)

/-- How far an expression has been read: what waits, and the operand before the next word. -/
structure Reading where
  frames : List Frame
  current : Option RustExpr

namespace Reading

def close? : List Frame × RustExpr → Option Reading
  | (.group :: frames, e) => some ⟨frames, some (.paren e)⟩
  | _ => none

/-- An operator follows its left operand. -/
def join? (op : InfixOp) (left : List Frame × RustExpr) : Option Reading :=
  if op.isComparison && left.2.isComparison then none
  else some ⟨.left op left.2 :: left.1, none⟩

/-- **One more word.** -/
def step? : Reading → List Char → Option Reading
  | ⟨frames, none⟩, word =>
    if word = ['('] then some ⟨.group :: frames, none⟩
    else
      match PrefixOp.ofWord? word with
      | some op => some ⟨.sign op :: frames, none⟩
      | none =>
        if Chars.isOperandWord word then some ⟨frames, some (.operand (String.ofList word))⟩
        else none
  | ⟨frames, some e⟩, word =>
    if word = [')'] then close? (reduce 0 frames e)
    else (InfixOp.ofWord? word).bind fun op => join? op (reduce op.level frames e)

/-- The expression is over. -/
def finish? : Reading → Option RustExpr
  | ⟨_, none⟩ => none
  | ⟨frames, some e⟩ =>
    match reduce 0 frames e with
    | ([], e) => some e
    | _ => none

/-- The expression that the words to come complete. -/
def run? : Reading → List (List Char) → Option RustExpr
  | reading, [] => reading.finish?
  | reading, word :: words => (reading.step? word).bind fun next => run? next words

end Reading

open Reading

/-- **The expression that a text is read as.** -/
def read? (text : String) : Option RustExpr :=
  (Chars.exprWords text.toList).bind (run? ⟨[], none⟩)

/-! ## Expressions that fit are read -/

/-- What waits takes an operand that binds with a level. -/
def Accepts : List Frame → Nat → Prop
  | [], _ | .group :: _, _ => True
  | .sign _ :: _, n => 10 ≤ n
  | .left op _ :: _, n => op.level < n

variable {frames : List Frame} {n : Nat} {ws : List (List Char)} {e : RustExpr}
  {reading next : Reading} {w : List Char}

theorem Accepts.mono {m : Nat} (h : Accepts frames m) (le : m ≤ n) : Accepts frames n := by
  rcases frames with - | ⟨- | op | ⟨op, l⟩, frames⟩
  · trivial
  · trivial
  · exact Nat.le_trans h le
  · exact Nat.lt_of_lt_of_le h le

/-- What follows an expression does not bind its last operand more tightly. -/
def Follows (n : Nat) (ws : List (List Char)) : Prop :=
  ∀ w op, ws.head? = some w → InfixOp.ofWord? w = some op → op.level ≤ n

theorem Follows.mono {m : Nat} (h : Follows m ws) (le : m ≤ n) : Follows n ws :=
  fun w op hw hop => Nat.le_trans (h w op hw hop) le

theorem follows_operator {op : InfixOp} (h : op.level ≤ n) (ws : List (List Char)) :
    Follows n (op.spelling.toList :: ws) := by
  rintro w op' hw hop
  obtain rfl : op.spelling.toList = w := by simpa using hw
  obtain rfl : op = op' := by simpa [InfixOp.ofWord?_spelling] using hop
  exact h

theorem follows_paren (n : Nat) (ws : List (List Char)) : Follows n ([')'] :: ws) := by
  rintro w op hw hop
  obtain rfl : [')'] = w := by simpa using hw
  cases hop

theorem reduce_of_accepts {op : InfixOp} (h : Accepts frames op.level) (e : RustExpr) :
    reduce op.level frames e = (frames, e) := by
  rcases frames with - | ⟨- | sign | ⟨op', l⟩, frames⟩
  · rfl
  · rfl
  · exact absurd h (Nat.not_le.2 op.level_lt_ten)
  · rw [reduce, if_neg (Nat.not_le.2 h)]

/-- Readings that reduce alike read the same expression. -/
theorem Reading.run?_congr {frames frames' : List Frame} {e e' : RustExpr}
    {ws : List (List Char)} (whole : reduce 0 frames e = reduce 0 frames' e')
    (part : ∀ w op, ws.head? = some w → InfixOp.ofWord? w = some op →
      reduce op.level frames e = reduce op.level frames' e') :
    run? ⟨frames, some e⟩ ws = run? ⟨frames', some e'⟩ ws := by
  cases ws with
  | nil => simp only [run?, finish?, whole]
  | cons w ws =>
    have step : step? ⟨frames, some e⟩ w = step? ⟨frames', some e'⟩ w := by
      simp only [step?, whole]
      split
      · rfl
      · exact bind_congr fun op hop => by rw [part w op rfl hop]
    rw [run?, run?, step]

/-- An operand is neither a parenthesis nor a sign. -/
theorem Reading.step?_operand (frames : List Frame) {t : String}
    (word : Chars.isOperandWord t.toList = true) :
    step? ⟨frames, none⟩ t.toList = some ⟨frames, some (.operand t)⟩ := by
  have other : t.toList ≠ ['('] := by
    intro h
    rw [h] at word
    cases word
  have unsigned : PrefixOp.ofWord? t.toList = none := by
    unfold PrefixOp.ofWord?
    split
    · rename_i h
      rw [h] at word
      cases word
    · rename_i h
      rw [h] at word
      cases word
    · rfl
  simp [step?, other, unsigned, word]

/-- **The words of an expression that fits are read as the expression.** -/
theorem run?_words (fits : e.fits = true) (accepts : Accepts frames e.level)
    (follows : Follows e.level ws) :
    run? ⟨frames, none⟩ (e.words ++ ws) = run? ⟨frames, some e⟩ ws := by
  induction e generalizing frames ws with
  | operand t =>
    rw [words, List.singleton_append, run?, step?_operand frames fits]
    rfl
  | paren e ih =>
    have inside : Accepts (.group :: frames) e.level := trivial
    have shape : (paren e).words ++ ws = ['('] :: (e.words ++ [')'] :: ws) := by simp [words]
    have opened : step? ⟨frames, none⟩ ['('] = some ⟨.group :: frames, none⟩ := rfl
    have closed : step? ⟨.group :: frames, some e⟩ [')'] =
        some ⟨frames, some (.paren e)⟩ := rfl
    rw [shape, run?, opened, bind_some, ih fits inside (follows_paren e.level ws),
      run?, closed, bind_some]
  | unary op e ih =>
    obtain ⟨fits, tight⟩ := Bool.and_eq_true_iff.1 fits
    have tight : 10 ≤ e.level := of_decide_eq_true tight
    have inside : Accepts (.sign op :: frames) e.level := tight
    have signed : step? ⟨frames, none⟩ [op.symbol] = some ⟨.sign op :: frames, none⟩ := by
      cases op <;> rfl
    rw [words, List.cons_append, run?, signed, bind_some,
      ih fits inside (follows.mono tight)]
    -- a sign is put in front of its operand before anything else happens
    exact run?_congr rfl fun _ _ _ _ => rfl
  | binary op l r ihl ihr =>
    simp only [RustExpr.fits, Bool.and_eq_true, decide_eq_true_eq, Bool.not_eq_true'] at fits
    obtain ⟨⟨⟨⟨fitsl, fitsr⟩, left⟩, right⟩, single⟩ := fits
    have inside : Accepts (.left op l :: frames) r.level := right
    have joined : step? ⟨frames, some l⟩ op.spelling.toList =
        some ⟨.left op l :: frames, none⟩ := by
      simp only [step?, op.spelling_ne_paren, if_false, InfixOp.ofWord?_spelling,
        bind_some, reduce_of_accepts accepts, join?]
      rw [if_neg (by simp [single])]
    rw [words, List.append_assoc, List.cons_append,
      ihl fitsl (accepts.mono left) (follows_operator left _), run?, joined,
      bind_some, ihr fitsr inside (follows.mono (Nat.le_of_lt right))]
    -- whatever follows, the two operands are put together first
    apply run?_congr
    · rw [reduce, if_pos (Nat.zero_le _)]
    · intro w next hw hnext
      have loose : next.level ≤ op.level := follows w next hw hnext
      rw [reduce, if_pos loose]

theorem read?_text_of_fits (fits : e.fits = true) : read? e.text = some e := by
  have accepts : Accepts [] e.level := trivial
  have follows : Follows e.level [] := fun _ _ hw => by cases hw
  have whole := run?_words fits accepts follows
  rw [List.append_nil] at whole
  rw [read?, exprWords_text (isWordy_of_fits fits), bind_some, whole]
  rfl

/-! ## What is read fits -/

/-- Everything that waits for an operand fits so far. -/
def Sound : List Frame → Prop
  | [] => True
  | .group :: frames | .sign _ :: frames => Sound frames
  | .left op l :: frames =>
    l.fits = true ∧ op.level ≤ l.level ∧ (op.isComparison && l.isComparison) = false ∧
      Accepts frames op.level ∧ Sound frames

theorem accepts_ten (frames : List Frame) : Accepts frames 10 := by
  rcases frames with - | ⟨- | sign | ⟨op, l⟩, frames⟩
  · trivial
  · trivial
  · exact Nat.le_refl 10
  · exact op.level_lt_ten

/-- **Putting together keeps everything fitting.** -/
theorem sound_reduce {bound : Nat} (sound : Sound frames) (fits : e.fits = true)
    (accepts : Accepts frames e.level) (le : bound ≤ e.level) (ten : bound ≤ 10) :
    Sound (reduce bound frames e).1 ∧ (reduce bound frames e).2.fits = true ∧
      bound ≤ (reduce bound frames e).2.level ∧
      (0 < bound → Accepts (reduce bound frames e).1 bound) := by
  induction frames generalizing e with
  | nil => exact ⟨trivial, fits, le, fun _ => trivial⟩
  | cons frame frames ih =>
    cases frame with
    | group => exact ⟨sound, fits, le, fun _ => trivial⟩
    | sign op =>
      have signed : (unary op e).fits = true := by
        rw [RustExpr.fits, fits, Bool.true_and]
        exact decide_eq_true accepts
      exact ih sound signed (accepts_ten frames) ten
    | left op l =>
      obtain ⟨fitsl, left, single, below, sound'⟩ := sound
      rw [reduce]
      split
      · rename_i tight
        have joined : (binary op l e).fits = true := by
          have right : op.level < e.level := accepts
          simp [RustExpr.fits, fits, fitsl, left, right, single]
        exact ih sound' joined below tight
      · rename_i loose
        exact ⟨⟨fitsl, left, single, below, sound'⟩, fits, le, fun _ => Nat.not_le.1 loose⟩

/-- **What one more word can do.** -/
inductive Reading.Step : Reading → List Char → Reading → Prop
  | opened (frames : List Frame) : Step ⟨frames, none⟩ ['('] ⟨.group :: frames, none⟩
  | signed (op : PrefixOp) (frames : List Frame) :
      Step ⟨frames, none⟩ [op.symbol] ⟨.sign op :: frames, none⟩
  | operand (frames : List Frame) {w : List Char} (word : Chars.isOperandWord w = true) :
      Step ⟨frames, none⟩ w ⟨frames, some (.operand (String.ofList w))⟩
  | closed {frames rest : List Frame} {e inner : RustExpr}
      (reduced : reduce 0 frames e = (.group :: rest, inner)) :
      Step ⟨frames, some e⟩ [')'] ⟨rest, some (.paren inner)⟩
  | joined (op : InfixOp) (frames : List Frame) (e : RustExpr)
      (single : (op.isComparison && (reduce op.level frames e).2.isComparison) = false) :
      Step ⟨frames, some e⟩ op.spelling.toList
        ⟨.left op (reduce op.level frames e).2 :: (reduce op.level frames e).1, none⟩

theorem Reading.Step.of_step? (h : reading.step? w = some next) : Step reading w next := by
  obtain ⟨frames, - | e⟩ := reading
  · simp only [step?] at h
    split at h
    · rename_i group
      obtain rfl := some.inj h
      exact group ▸ .opened frames
    · split at h
      · rename_i op sign
        obtain rfl := some.inj h
        exact PrefixOp.eq_of_ofWord? sign ▸ .signed op frames
      · split at h
        · obtain rfl := some.inj h
          exact .operand frames ‹_›
        · cases h
  · simp only [step?] at h
    split at h
    · rename_i group
      unfold close? at h
      split at h
      · obtain rfl := some.inj h
        exact group ▸ .closed ‹_›
      · cases h
    · obtain ⟨op, word, joined⟩ := bind_eq_some_iff.1 h
      rw [join?] at joined
      split at joined
      · cases joined
      · rename_i single
        obtain rfl := some.inj joined
        exact InfixOp.eq_of_ofWord? word ▸ .joined op frames e (by simpa using single)

/-- The operands of a reading are names, numbers and groups. -/
structure Reading.Sound (reading : Reading) : Prop where
  frames : RustExpr.Sound reading.frames
  fits : ∀ e, reading.current = some e → e.fits = true ∧ e.level = 11

theorem Reading.Sound.reduce (sound : Sound ⟨frames, some e⟩) {bound : Nat} (ten : bound ≤ 10) :
    RustExpr.Sound (RustExpr.reduce bound frames e).1 ∧
      (RustExpr.reduce bound frames e).2.fits = true ∧
      bound ≤ (RustExpr.reduce bound frames e).2.level ∧
      (0 < bound → Accepts (RustExpr.reduce bound frames e).1 bound) := by
  obtain ⟨fits, level⟩ := sound.fits e rfl
  have primary : 10 ≤ e.level := by omega
  exact sound_reduce sound.frames fits ((accepts_ten frames).mono primary)
    (Nat.le_trans ten primary) ten

/-- **One more word keeps everything fitting.** -/
theorem Reading.Sound.step? (sound : reading.Sound) (h : reading.step? w = some next) :
    next.Sound := by
  cases Step.of_step? h with
  | opened frames => exact ⟨sound.frames, fun _ he => by cases he⟩
  | signed op frames => exact ⟨sound.frames, fun _ he => by cases he⟩
  | operand frames word =>
    refine ⟨sound.frames, fun e he => ?_⟩
    obtain rfl := some.inj he
    refine ⟨?_, rfl⟩
    rw [RustExpr.fits, String.toList_ofList]
    exact word
  | closed reduced =>
    obtain ⟨below, fits, -, -⟩ := sound.reduce (Nat.zero_le 10)
    rw [reduced] at below fits
    refine ⟨below, fun e he => ?_⟩
    obtain rfl := some.inj he
    exact ⟨fits, rfl⟩
  | joined op frames e single =>
    obtain ⟨below, fits, left, accepts⟩ := sound.reduce (Nat.le_of_lt op.level_lt_ten)
    exact ⟨⟨fits, left, single, accepts op.level_pos, below⟩, fun _ he => by cases he⟩

theorem Reading.Sound.run? (sound : reading.Sound) (h : reading.run? ws = some e) :
    e.fits = true := by
  induction ws generalizing reading with
  | nil =>
    obtain ⟨frames, - | current⟩ := reading
    · cases h
    · obtain ⟨-, fits, -, -⟩ := sound.reduce (Nat.zero_le 10)
      simp only [run?, finish?] at h
      split at h
      · rename_i reduced
        obtain rfl := some.inj h
        rw [reduced] at fits
        exact fits
      · cases h
  | cons w ws ih =>
    obtain ⟨next, step, later⟩ := bind_eq_some_iff.1 h
    exact ih (sound.step? step) later

theorem fits_of_read? {t : String} (h : read? t = some e) : e.fits = true := by
  obtain ⟨ws, -, run⟩ := bind_eq_some_iff.1 h
  have sound : Reading.Sound ⟨[], none⟩ := ⟨trivial, fun _ he => by cases he⟩
  exact sound.run? run

/-! ## What is read has the words that were there -/

def wordsOf : List Frame → List (List Char)
  | [] => []
  | .group :: frames => wordsOf frames ++ [['(']]
  | .sign op :: frames => wordsOf frames ++ [[op.symbol]]
  | .left op l :: frames => wordsOf frames ++ l.words ++ [op.spelling.toList]

theorem wordsOf_reduce (bound : Nat) (frames : List Frame) (e : RustExpr) :
    wordsOf (reduce bound frames e).1 ++ (reduce bound frames e).2.words =
      wordsOf frames ++ e.words := by
  induction frames generalizing e with
  | nil => rfl
  | cons frame frames ih =>
    cases frame with
    | group => rfl
    | sign op => rw [reduce, ih, wordsOf, words, List.append_assoc, List.singleton_append]
    | left op l =>
      rw [reduce]
      split
      · rw [ih, wordsOf, words]
        simp
      · rfl

def Reading.words (reading : Reading) : List (List Char) :=
  wordsOf reading.frames ++ (reading.current.map RustExpr.words).getD []

theorem Reading.words_step? (h : reading.step? w = some next) :
    next.words = reading.words ++ [w] := by
  cases Step.of_step? h with
  | opened frames => simp [words, wordsOf]
  | signed op frames => simp [words, wordsOf]
  | operand frames word => simp [words, RustExpr.words]
  | @closed frames rest e inner reduced =>
    have whole := wordsOf_reduce 0 frames e
    rw [reduced] at whole
    simp only [wordsOf] at whole
    simp [words, RustExpr.words, ← whole]
  | joined op frames e single =>
    have whole := wordsOf_reduce op.level frames e
    simp [words, wordsOf, whole]

theorem Reading.words_run? (h : reading.run? ws = some e) : e.words = reading.words ++ ws := by
  induction ws generalizing reading with
  | nil =>
    obtain ⟨frames, - | current⟩ := reading
    · cases h
    · have whole := wordsOf_reduce 0 frames current
      simp only [run?, finish?] at h
      split at h
      · rename_i reduced
        obtain rfl := some.inj h
        rw [reduced] at whole
        simpa [words, wordsOf] using whole
      · cases h
  | cons w ws ih =>
    obtain ⟨next, step, later⟩ := bind_eq_some_iff.1 h
    rw [ih later, words_step? step]
    simp

/-! ## Main result -/

/-- **An expression is read as it was written just when it fits.**  With operands that are words,
its text is read, up to parentheses, as the same expression if and only if every operand binds more
tightly than its operator; and then it is read with the same parentheses too. -/
theorem read?_text_iff (wordy : e.isWordy = true) :
    (∃ e', read? e.text = some e' ∧ e'.bare = e.bare) ↔ e.fits = true := by
  constructor
  · rintro ⟨e', read, bare⟩
    have fits := fits_of_read? read
    rw [read?, exprWords_text wordy, bind_some] at read
    have words : e'.words = e.words := words_run? read
    rwa [← eq_of_words_eq_of_bare_eq (isWordy_of_fits fits) wordy words bare]
  · intro fits
    exact ⟨e, read?_text_of_fits fits, rfl⟩

end RustExpr

end Ferric
