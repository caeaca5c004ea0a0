import Mathlib.Data.Nat.Digits.Defs
import Ferric.Proofs.Expression.Texts

/-!
# Integer constants

The value of a digit is its place among the sixteen digits, and the value of a run of digits is the
one that Mathlib gives to a list of digits, so neither depends on how a reader goes through the
text.

An integer constant of C is decimal, octal after a zero, or hexadecimal after `0x` or `0X`, with
some suffixes.  It is written without the suffixes and with the mark of base eight that the target
has, so the number is the same when the text is read again, by the reader of this library or by the
target.  The capital letter of `0X` is the exception: it is kept, and the target has no such mark.

## Main definitions

* `Chars.Digits`, `Chars.numeral`: runs of digits of a base, and the number that a run stands for.
* `IntegerConstant`: integer constants of C, with their spelling and value.
* `Chars.wholeNumber?`: the value of a whole number of the target.

## Main results

* `Signed64.read?_of_digits`: a number is read if it fits into 64 bits, and refused otherwise.
* `IntegerConstant.integerLiteral_spelling`: how a constant is written.
* `integer_values_read_back`: the value is found in what is written.
* `integers_keep_value_iff`: the target reads the same value unless the mark is `0X`.
* `capital_mark_is_no_number`: `0X1F` is no number of the target.
-/

namespace Ferric

section

open List

namespace Chars

/-- The sixteen digits in order, with small letters. -/
def smallDigits : List Char :=
  ['0', '1', '2', '3', '4', '5', '6', '7', '8', '9', 'a', 'b', 'c', 'd', 'e', 'f']

/-- The sixteen digits in order, with capital letters. -/
def capitalDigits : List Char :=
  ['0', '1', '2', '3', '4', '5', '6', '7', '8', '9', 'A', 'B', 'C', 'D', 'E', 'F']

/-- **The value of a digit**: its place among the sixteen.  It is sixteen for other characters. -/
def digit (c : Char) : Nat :=
  min (smallDigits.idxOf c) (capitalDigits.idxOf c)

/-- Texts that hold nothing but digits of a base. -/
def Digits (base : Nat) (cs : List Char) : Prop :=
  ∀ c ∈ cs, digit c < base

instance (base : Nat) : DecidablePred (Digits base) := fun cs =>
  inferInstanceAs (Decidable (∀ c ∈ cs, digit c < base))

/-- **The number that digits stand for** in a base, the highest digit first. -/
def numeral (base : Nat) (cs : List Char) : Nat :=
  Nat.ofDigits base (cs.map digit).reverse

/-- The number of one or more digits, which may be separated by underscores. -/
def numeral? (base : Nat) (cs : List Char) : Option Nat :=
  let digits := cs.filter (· != '_')
  if digits ≠ [] ∧ Digits base digits then some (numeral base digits) else none

variable {c : Char} {base : Nat} {cs : List Char}

theorem of_digit_lt {P : Char → Prop} (table : ∀ c ∈ smallDigits ++ capitalDigits, P c)
    (h : digit c < 16) : P c := by
  refine table c (mem_append.2 ?_)
  rcases min_lt_iff.1 h with small | capital
  · exact .inl (idxOf_lt_length_iff.1 small)
  · exact .inr (idxOf_lt_length_iff.1 capital)

theorem numeral_cons (base : Nat) (c : Char) (cs : List Char) :
    numeral base (c :: cs) = digit c * base ^ cs.length + numeral base cs := by
  rw [numeral, map_cons, Nat.ofDigits_reverse_cons, length_map, Nat.mul_comm,
    Nat.add_comm]
  rfl

theorem Digits.cons (first : digit c < base) (h : Digits base cs) : Digits base (c :: cs) :=
  forall_mem_cons.2 ⟨first, h⟩

theorem Digits.tail (h : Digits base (c :: cs)) : Digits base cs :=
  fun d hd => h d (mem_cons_of_mem c hd)

theorem Digits.mono {base' : Nat} (le : base ≤ base') (h : Digits base cs) : Digits base' cs :=
  fun c hc => (h c hc).trans_le le

/-- Digits hold no separator. -/
theorem filter_of_digits (bound : base ≤ 16) (h : Digits base cs) : cs.filter (· != '_') = cs :=
  filter_eq_self.2 fun c hc =>
    of_digit_lt (P := fun c => (c != '_') = true) (by decide) ((h c hc).trans_le bound)

theorem numeral?_of_digits (bound : base ≤ 16) (nonempty : cs ≠ []) (h : Digits base cs) :
    numeral? base cs = some (numeral base cs) := by
  rw [numeral?, filter_of_digits bound h]
  exact if_pos ⟨nonempty, h⟩

/-! ## The ends of a constant -/

theorem dropEndWhile_append_of_all {p : Char → Bool} {body suffix : List Char}
    (kept : ∀ c, body.getLast? = some c → p c = false) (dropped : ∀ c ∈ suffix, p c = true) :
    dropEndWhile p (body ++ suffix) = body := by
  rw [dropEndWhile, reverse_append,
    dropWhile_append_of_pos fun c hc => dropped c (mem_reverse.1 hc)]
  exact dropEndWhile_of_getLast? kept

/-- A text that ends in digits. -/
theorem getLast?_append_digits (front : List Char) {digits : List Char} (nonempty : digits ≠ [])
    (valid : Digits base digits) : ∃ c, (front ++ digits).getLast? = some c ∧ digit c < base := by
  refine ⟨digits.getLast nonempty, ?_, valid _ (getLast_mem nonempty)⟩
  rw [getLast?_append, getLast?_eq_some_getLast nonempty]
  rfl

/-- Texts that start and end with a digit. -/
structure DigitEnds (cs : List Char) : Prop where
  head : ∃ c, cs.head? = some c ∧ digit c < 16
  last : ∃ c, cs.getLast? = some c ∧ digit c < 16

namespace DigitEnds

variable {cs : List Char}

theorem of_digits {digits : List Char} (nonempty : digits ≠ []) (valid : Digits 16 digits) :
    DigitEnds digits where
  head := ⟨digits.head nonempty, head?_eq_some_head nonempty, valid _ (head_mem _)⟩
  last := getLast?_append_digits [] nonempty valid

/-- Digits after a mark that starts with a zero. -/
theorem of_mark (mark : List Char) {digits : List Char} (nonempty : digits ≠ [])
    (valid : Digits 16 digits) : DigitEnds ('0' :: (mark ++ digits)) where
  head := ⟨'0', rfl, by decide⟩
  last := getLast?_append_digits ('0' :: mark) nonempty valid

theorem getLast?_of_table {p : Char → Bool} (h : DigitEnds cs)
    (table : ∀ c ∈ smallDigits ++ capitalDigits, p c = false) :
    ∀ c, cs.getLast? = some c → p c = false := by
  intro c last
  obtain ⟨d, last', digit⟩ := h.last
  obtain rfl := Option.some.inj (last.symm.trans last')
  exact of_digit_lt table digit

theorem trim_eq (h : DigitEnds cs) : trim cs = cs := by
  have solid : ∀ c ∈ smallDigits ++ capitalDigits, isBlank c = false := by decide
  refine trim_of_ends ?_ (h.getLast?_of_table solid)
  intro c first
  obtain ⟨d, first', digit⟩ := h.head
  obtain rfl := Option.some.inj (first.symm.trans first')
  exact of_digit_lt solid digit

end DigitEnds

/-! ## Reading digits -/

theorem digitValue?_of_lt (bound : base ≤ 16) (h : digit c < base) :
    digitValue? base c = some (digit c) := by
  have table : ∀ c ∈ smallDigits ++ capitalDigits, digitValue? 16 c = some (digit c) := by decide
  -- the base only decides which values are kept
  obtain ⟨value, -⟩ := Option.filter_eq_some_iff.1 (of_digit_lt table (h.trans_le bound))
  exact Option.filter_eq_some_iff.2 ⟨value, decide_eq_true h⟩

theorem digitsValueFrom?_of_digits (bound : base ≤ 16) (h : Digits base cs) (n : Nat) :
    digitsValueFrom? base n cs = some (n * base ^ cs.length + numeral base cs) := by
  induction cs generalizing n with
  | nil => simp [digitsValueFrom?, numeral]
  | cons c cs ih =>
    rw [digitsValueFrom?, digitValue?_of_lt bound (h c mem_cons_self), Option.bind_some,
      ih h.tail, numeral_cons, length_cons, Nat.pow_succ', Nat.add_mul, Nat.mul_assoc,
      Nat.add_assoc]

end Chars

namespace Signed64

open Chars

/-- Which numbers without a sign fit into 64 bits. -/
theorem holds_natCast (n : Nat) : holds n = decide (n < 2 ^ 63) := by
  have bound : (2 : Nat) ^ 63 = 9223372036854775808 := by norm_num
  rw [Bool.eq_iff_iff, holds, Bool.and_eq_true, decide_eq_true_eq, decide_eq_true_eq,
    decide_eq_true_eq, bound, least, greatest]
  omega

/-- **Digits are read as the number that they stand for**, if it fits. -/
theorem read?_of_digits {base : Nat} (bound : base ≤ 16) {cs : List Char} (nonempty : cs ≠ [])
    (h : Digits base cs) :
    read? base cs = if numeral base cs < 2 ^ 63 then some (numeral base cs : Int) else none := by
  obtain ⟨c, cs, rfl⟩ := exists_cons_of_ne_nil nonempty
  have unsigned : c ≠ '-' ∧ c ≠ '+' :=
    of_digit_lt (P := fun c => c ≠ '-' ∧ c ≠ '+') (by decide)
      ((h c mem_cons_self).trans_le bound)
  have value : digitsValue? base (c :: cs) = some (numeral base (c :: cs)) := by
    rw [digitsValue?, digitsValueFrom?_of_digits bound h, Nat.zero_mul, Nat.zero_add]
    exact cons_ne_nil c cs
  unfold read?
  dsimp only
  split
  · exact absurd (cons.inj ‹_›).1 unsigned.1
  · exact absurd (cons.inj ‹_›).1 unsigned.2
  · rw [value]
    show Option.filter holds (some (numeral base (c :: cs) : Int)) = _
    rw [Option.filter_some, holds_natCast]
    simp only [decide_eq_true_eq]

end Signed64

end

section

open Chars

/-! ## Constants of the source -/

/-- **The notations of integers in C**, each with the digits that it allows. -/
inductive IntegerBody where
  /-- A leading zero would mark another base. -/
  | decimal (first : Char) (rest : List Char) (valid : Digits 10 (first :: rest))
      (unmarked : first ≠ '0')
  /-- A zero, and the digits after it, if there are any. -/
  | octal (digits : List Char) (valid : Digits 8 digits)
  /-- The letter of the mark is small or a capital. -/
  | hexadecimal (capital : Bool) (digits : List Char) (valid : Digits 16 digits)
      (nonempty : digits ≠ [])

namespace IntegerBody

def spelling : IntegerBody → List Char
  | .decimal first rest _ _ => first :: rest
  | .octal digits _ => '0' :: digits
  | .hexadecimal capital digits _ _ => '0' :: (if capital then 'X' else 'x') :: digits

/-- The value that C gives to the digits. -/
def value : IntegerBody → Nat
  | .decimal first rest _ _ => numeral 10 (first :: rest)
  | .octal digits _ => numeral 8 digits
  | .hexadecimal _ digits _ _ => numeral 16 digits

/-- **The digits as they are written**: with the mark of base eight unless they are a zero alone. -/
def written : IntegerBody → List Char
  | .octal (d :: digits) _ => '0' :: 'o' :: d :: digits
  | body => body.spelling

/-- Whether the mark has a capital letter. -/
def isCapital : IntegerBody → Bool
  | .hexadecimal capital _ _ _ => capital
  | _ => false

variable (b : IntegerBody)

theorem digitEnds_spelling : DigitEnds b.spelling := by
  cases b with
  | decimal first rest valid unmarked =>
    exact .of_digits (List.cons_ne_nil first rest) (valid.mono (by decide))
  | octal digits valid =>
    exact .of_digits (List.cons_ne_nil '0' digits) (.cons (by decide) (valid.mono (by decide)))
  | hexadecimal capital digits valid nonempty => exact .of_mark [_] nonempty valid

theorem digitEnds_written : DigitEnds b.written := by
  unfold written
  split
  · rename_i d digits valid
    exact .of_mark ['o'] (List.cons_ne_nil d digits) (valid.mono (by decide))
  · exact b.digitEnds_spelling

end IntegerBody

/-- **An integer constant of C.**  Any run of suffix letters may follow, so the suffixes that C
allows are among them. -/
structure IntegerConstant where
  body : IntegerBody
  suffix : List Char
  suffixed : ∀ c ∈ suffix, isIntegerSuffix c = true

namespace IntegerConstant

variable (c : IntegerConstant)

def spelling : List Char :=
  c.body.spelling ++ c.suffix

def text : String :=
  String.ofList c.spelling

def value : Nat :=
  c.body.value

/-- **How a constant is written.** -/
theorem integerLiteral_spelling : integerLiteral c.spelling = c.body.written := by
  have bare : dropEndWhile isIntegerSuffix c.spelling = c.body.spelling :=
    dropEndWhile_append_of_all (c.body.digitEnds_spelling.getLast?_of_table (by decide)) c.suffixed
  have table : ∀ d ∈ smallDigits ++ capitalDigits, digit d < 8 → d.isDigit = true := by decide
  rw [integerLiteral, bare]
  cases c.body with
  | decimal first rest valid unmarked => simp [IntegerBody.spelling, IntegerBody.written, unmarked]
  | octal digits valid =>
    cases digits with
    | nil => rfl
    | cons d ds =>
      have digits : (d :: ds).all Char.isDigit = true := List.all_eq_true.2 fun e he =>
        of_digit_lt table ((valid e he).trans (by decide)) (valid e he)
      simp [IntegerBody.spelling, IntegerBody.written, digits]
  | hexadecimal capital digits valid nonempty =>
    -- the letter of the mark is no digit
    cases capital <;> simp [IntegerBody.spelling, IntegerBody.written]

theorem toList_integer : (Literal.integer c.text).toList = c.body.written := by
  rw [Literal.integer, Text.toList_onChars, text, String.toList_ofList, c.integerLiteral_spelling]

end IntegerConstant

/-! ## Reading the value again -/

namespace Chars

variable {cs : List Char}

/-- The characters that decide how a constant is read are no digits. -/
theorem first_ne_of_digitEnds (h : DigitEnds cs) :
    ∃ c rest, cs = c :: rest ∧ c ≠ '(' ∧ c ≠ '-' := by
  obtain ⟨c, first, digit⟩ := h.head
  obtain ⟨rest, rfl⟩ := List.head?_eq_some_iff.1 first
  exact ⟨c, rest, rfl, of_digit_lt (P := fun c => c ≠ '(' ∧ c ≠ '-') (by decide) digit⟩

theorem dropEndWhile_of_digitEnds (h : DigitEnds cs) : dropEndWhile isIntegerSuffix cs = cs :=
  dropEndWhile_of_getLast? (h.getLast?_of_table (by decide))

/-- What is left of a text without blanks and parentheses is read. -/
theorem integerValue_of_inner {text : List Char}
    (inner : trim ((parenthesized? (trim text)).getD (trim text)) = cs) (h : DigitEnds cs) :
    Chars.integerValue text = .ok (magnitude? cs) := by
  obtain ⟨c, rest, rfl, -, minus⟩ := first_ne_of_digitEnds h
  rw [Chars.integerValue, inner]
  split
  · exact absurd (List.cons.inj ‹_›).1 minus
  · rw [dropEndWhile_of_digitEnds h]

theorem integerValue_of_digitEnds (h : DigitEnds cs) :
    Chars.integerValue cs = .ok (magnitude? cs) := by
  refine integerValue_of_inner ?_ h
  obtain ⟨c, rest, rfl, bracket, -⟩ := first_ne_of_digitEnds h
  have unwrapped : parenthesized? (c :: rest) = none := by simp [parenthesized?, bracket]
  rw [h.trim_eq, unwrapped, Option.getD_none, h.trim_eq]

/-- A pair of parentheses around a constant is taken away. -/
theorem integerValue_parenthesized (h : DigitEnds cs) :
    Chars.integerValue ('(' :: (cs ++ [')'])) = .ok (magnitude? cs) := by
  refine integerValue_of_inner ?_ h
  have ends : trim ('(' :: (cs ++ [')'])) = '(' :: (cs ++ [')']) := trim_closed (by decide) cs
  have inside : parenthesized? ('(' :: (cs ++ [')'])) = some cs := by simp [parenthesized?]
  rw [ends, inside, Option.getD_some, h.trim_eq]

/-- A minus sign before a constant negates its value, and the result always fits. -/
theorem integerValue_negative (h : DigitEnds cs) {n : Nat}
    (value : magnitude? cs = if n < 2 ^ 63 then some (n : Int) else none) :
    Chars.integerValue ('-' :: cs) = .ok (if n < 2 ^ 63 then some (-(n : Int)) else none) := by
  have ends : trim ('-' :: cs) = '-' :: cs := by
    refine trim_of_ends (fun d first => ?_) fun d last => ?_
    · obtain rfl := Option.some.inj first
      rfl
    · obtain ⟨c, final, digit⟩ := h.last
      rw [List.getLast?_cons, final] at last
      obtain rfl := Option.some.inj last
      exact of_digit_lt (P := fun c => isBlank c = false) (by decide) digit
  have unwrapped : parenthesized? ('-' :: cs) = none := rfl
  rw [Chars.integerValue, ends, unwrapped, Option.getD_none, ends]
  simp only [h.trim_eq, dropEndWhile_of_digitEnds h]
  by_cases fits : n < 2 ^ 63
  · have other : (n : Int) ≠ Signed64.least := by
      rw [Signed64.least]
      omega
    rw [value, if_pos fits, if_pos fits]
    show (Signed64.negate n).map some = _
    rw [Signed64.negate, if_neg other]
    rfl
  · rw [value, if_neg fits, if_neg fits]

end Chars

/-- **The value of what is written** is the one of the digits, if it fits. -/
theorem IntegerBody.magnitude?_written (b : IntegerBody) :
    magnitude? b.written = if b.value < 2 ^ 63 then some (b.value : Int) else none := by
  cases b with
  | decimal first rest valid unmarked =>
    have decimal : magnitude? (first :: rest) = Signed64.read? 10 (first :: rest) := by
      simp [magnitude?, unmarked]
    exact decimal.trans
      (Signed64.read?_of_digits (by decide) (List.cons_ne_nil first rest) valid)
  | octal digits valid =>
    cases digits with
    | nil => rfl
    | cons d ds => exact Signed64.read?_of_digits (by decide) (List.cons_ne_nil d ds) valid
  | hexadecimal capital digits valid nonempty =>
    have read := Signed64.read?_of_digits (by decide) nonempty valid
    cases capital <;> exact read

/-- **The value of an integer constant is found in what is written for it**: alone, in parentheses
and after a minus sign, unless it is too great for a signed number of 64 bits. -/
theorem integer_values_read_back (c : IntegerConstant) :
    Literal.integerValue (Literal.integer c.text) =
        .ok (if c.value < 2 ^ 63 then some (c.value : Int) else none) ∧
      Literal.integerValue ("(" ++ Literal.integer c.text ++ ")") =
        .ok (if c.value < 2 ^ 63 then some (c.value : Int) else none) ∧
      Literal.integerValue ("-" ++ Literal.integer c.text) =
        .ok (if c.value < 2 ^ 63 then some (-(c.value : Int)) else none) := by
  have written := c.toList_integer
  have ends := c.body.digitEnds_written
  have read : magnitude? c.body.written = if c.value < 2 ^ 63 then some (c.value : Int) else none :=
    c.body.magnitude?_written
  refine ⟨?_, ?_, ?_⟩
  · rw [Literal.integerValue, written, integerValue_of_digitEnds ends, read]
  · have shape : ("(" ++ Literal.integer c.text ++ ")").toList =
        '(' :: (c.body.written ++ [')']) := by simp [written]
    rw [Literal.integerValue, shape, integerValue_parenthesized ends, read]
  · have shape : ("-" ++ Literal.integer c.text).toList = '-' :: c.body.written := by simp [written]
    rw [Literal.integerValue, shape, integerValue_negative ends read]

/-! ## Numbers of the target -/

/-- **The value of a whole number of the target** without a suffix: decimal, or with the mark of
base eight or sixteen. -/
def Chars.wholeNumber? : List Char → Option Nat
  | '0' :: 'x' :: cs => numeral? 16 cs
  | '0' :: 'o' :: cs => numeral? 8 cs
  | c :: cs => if digit c < 10 then numeral? 10 (c :: cs) else none
  | [] => none

namespace IntegerBody

variable (b : IntegerBody)

theorem wholeNumber?_written (small : b.isCapital = false) :
    wholeNumber? b.written = some b.value := by
  cases b with
  | decimal first rest valid unmarked =>
    have digit : digit first < 10 := valid first List.mem_cons_self
    have decimal : wholeNumber? (first :: rest) = numeral? 10 (first :: rest) := by
      simp [wholeNumber?, unmarked, digit]
    exact decimal.trans (numeral?_of_digits (by decide) (List.cons_ne_nil first rest) valid)
  | octal digits valid =>
    cases digits with
    | nil => rfl
    | cons d ds => exact numeral?_of_digits (by decide) (List.cons_ne_nil d ds) valid
  | hexadecimal capital digits valid nonempty =>
    obtain rfl : capital = false := small
    exact numeral?_of_digits (by decide) nonempty valid

/-- With the capital mark, the text goes on after the zero with something that is no digit. -/
theorem wholeNumber?_written_capital (capital : b.isCapital = true) :
    wholeNumber? b.written = none := by
  cases b with
  | decimal first rest valid unmarked => cases capital
  | octal digits valid => cases capital
  | hexadecimal big digits valid nonempty =>
    obtain rfl : big = true := capital
    have other : ¬ Digits 10 (('0' :: 'X' :: digits).filter (· != '_')) := fun h =>
      absurd (h 'X' (by simp)) (by decide)
    show (if digit '0' < 10 then numeral? 10 ('0' :: 'X' :: digits) else none) = none
    rw [if_pos (by decide), numeral?]
    exact if_neg fun h => other h.2

end IntegerBody

/-- **The target reads the value of an integer constant** in what is written for it, unless the
constant has the mark with the capital letter. -/
theorem integers_keep_value_iff (c : IntegerConstant) :
    wholeNumber? (Literal.integer c.text).toList = some c.value ↔ c.body.isCapital = false := by
  rw [c.toList_integer]
  refine ⟨fun read => ?_, c.body.wholeNumber?_written⟩
  cases capital : c.body.isCapital with
  | false => rfl
  | true =>
    rw [c.body.wholeNumber?_written_capital capital] at read
    cases read

/-- The constant `0X1F`. -/
def capitalConstant : IntegerConstant where
  body := .hexadecimal true ['1', 'F'] (by decide) (by decide)
  suffix := []
  suffixed := by decide

/-- **A mark with the capital letter is kept**, and then the text is no number of the target. -/
theorem capital_mark_is_no_number :
    capitalConstant.text = "0X1F" ∧ capitalConstant.value = 31 ∧
      Literal.integer capitalConstant.text = "0X1F" ∧
      wholeNumber? (Literal.integer capitalConstant.text).toList = none := by
  decide

end

end Ferric
