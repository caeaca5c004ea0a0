import Ferric.Proofs.Literal.Integers
import Mathlib.Algebra.Field.Rat

/-!
# Floating constants

A floating constant of C may have no digits on one side of its point, and the target does not allow
all of these forms.  The constant is written with a zero there, and its suffix as a type.  The
digits stay as they are otherwise, so the number is the same, as a rational number and not only
after rounding.

## Main definitions

* `DecimalNumber`, `FloatingConstant`: decimal numbers with a point or an exponent, and the floating
  constants of C.
* `DecimalNumber.completed`: the number with digits on both sides of the point.
* `Chars.floatingNumber?`: value and suffix of a floating number of the target.

## Main results

* `DecimalNumber.completedPoint_body`: zeros are put where digits are missing.
* `FloatingConstant.floatingLiteral_spelling`: how a constant is written.
* `DecimalNumber.floatingNumber?_body`: the target reads a number that is complete.
* `floating_constants_keep_value`: the target reads the value of the constant.
-/

namespace Ferric

open Chars List

/-! ## Constants of the source -/

/-- **The number of a mantissa and an exponent.** -/
def decimalValue (whole fraction : List Char) (exponent : Int) : ℚ :=
  (numeral 10 whole + numeral 10 fraction / 10 ^ fraction.length) * 10 ^ exponent

/-- The exponent of a decimal number. -/
structure Exponent where
  letter : Char
  lettered : letter ∈ ['e', 'E']
  sign : List Char
  signed : sign ∈ [[], ['+'], ['-']]
  digits : List Char
  nonempty : digits ≠ []
  valid : Digits 10 digits

namespace Exponent

def spelling (e : Exponent) : List Char :=
  e.letter :: (e.sign ++ e.digits)

def value (e : Exponent) : Int :=
  if e.sign = ['-'] then -(numeral 10 e.digits : Int) else numeral 10 e.digits

end Exponent

/-- **A decimal number with a point or an exponent.**  The digits on one side of the point may be
missing. -/
structure DecimalNumber where
  whole : List Char
  /-- The digits after the point, if there is a point. -/
  fraction? : Option (List Char)
  exponent? : Option Exponent
  wholeValid : Digits 10 whole
  fractionValid : ∀ fraction ∈ fraction?, Digits 10 fraction
  nonempty : whole ++ fraction?.getD [] ≠ []
  marked : fraction? ≠ none ∨ exponent? ≠ none

namespace DecimalNumber

variable (d : DecimalNumber)

/-- The point with the digits after it. -/
def point : List Char :=
  d.fraction?.elim [] ('.' :: ·)

/-- The exponent with its letter. -/
def power : List Char :=
  d.exponent?.elim [] Exponent.spelling

def body : List Char :=
  d.whole ++ (d.point ++ d.power)

def value : ℚ :=
  decimalValue d.whole (d.fraction?.getD []) ((d.exponent?.map Exponent.value).getD 0)

def orZero (digits : List Char) : List Char :=
  if digits = [] then ['0'] else digits

theorem orZero_of_ne_nil {digits : List Char} (h : digits ≠ []) : orZero digits = digits :=
  if_neg h

theorem orZero_ne_nil (digits : List Char) : orZero digits ≠ [] := by
  unfold orZero
  split
  · exact cons_ne_nil _ _
  · assumption

theorem digits_orZero {digits : List Char} (h : Digits 10 digits) : Digits 10 (orZero digits) := by
  unfold orZero
  split
  · decide
  · exact h

theorem numeral_orZero (base : Nat) (digits : List Char) :
    numeral base (orZero digits) = numeral base digits := by
  unfold orZero
  split
  · rename_i empty
    rw [empty, numeral_cons]
    exact Nat.zero_add _
  · rfl

/-- The number with digits on both sides of the point. -/
def completed : DecimalNumber where
  whole := orZero d.whole
  fraction? := d.fraction?.map orZero
  exponent? := d.exponent?
  wholeValid := digits_orZero d.wholeValid
  fractionValid := by
    intro fraction h
    obtain ⟨digits, given, rfl⟩ := Option.map_eq_some_iff.1 h
    exact digits_orZero (d.fractionValid digits given)
  nonempty := List.append_ne_nil_of_left_ne_nil (orZero_ne_nil d.whole) _
  marked := d.marked.imp_left fun pointed h => pointed (Option.map_eq_none_iff.1 h)

/-- The zeros do not change the number. -/
theorem value_completed : d.completed.value = d.value := by
  have zero : (numeral 10 [] : ℚ) = 0 := rfl
  unfold value decimalValue completed
  dsimp only
  rw [numeral_orZero]
  cases d.fraction? with
  | none => rfl
  | some fraction =>
    rw [Option.map_some, Option.getD_some, Option.getD_some, numeral_orZero]
    by_cases empty : fraction = []
    · rw [empty, zero, zero_div, zero_div]
    · rw [orZero_of_ne_nil empty]

end DecimalNumber

open DecimalNumber

/-- **A floating constant of C**: its suffix is the letter of a type, or none. -/
structure FloatingConstant extends DecimalNumber where
  suffix : List Char
  suffixed : suffix ∈ [[], ['f'], ['F'], ['l'], ['L']]

namespace FloatingConstant

variable (c : FloatingConstant)

def spelling : List Char :=
  c.body ++ c.suffix

def text : String :=
  String.ofList c.spelling

/-- Whether the constant has single precision. -/
def isSingle : Bool :=
  c.suffix = ['f'] || c.suffix = ['F']

end FloatingConstant

/-! ## Numbers of the target -/

namespace Chars

/-- Digits of base ten and separators. -/
def isDecimalChar (c : Char) : Bool :=
  digit c < 10 || c == '_'

/-- The digits in front of a text, without separators. -/
def leadingDigits (cs : List Char) : List Char :=
  (cs.takeWhile isDecimalChar).filter (· != '_')

/-- What stands after the digits in front of a text. -/
def afterDigits (cs : List Char) : List Char :=
  cs.dropWhile isDecimalChar

def startsWithDigit (cs : List Char) : Bool :=
  cs.head?.any (digit · < 10)

/-- The digits after a point, and what follows; nothing may follow a point without digits. -/
def fractionPart? : List Char → Option (Option (List Char) × List Char)
  | ['.'] => some (some [], [])
  | '.' :: cs =>
    if startsWithDigit cs then some (some (leadingDigits cs), afterDigits cs) else none
  | cs => some (none, cs)

/-- A number without a sign, and what follows. -/
def unsignedPart? (cs : List Char) : Option (Int × List Char) :=
  (numeral? 10 (leadingDigits cs)).map fun n : Nat => ((n : Int), afterDigits cs)

/-- A number with an optional sign, and what follows. -/
def signedPart? : List Char → Option (Int × List Char)
  | '-' :: cs => (unsignedPart? cs).map fun part => (-part.1, part.2)
  | '+' :: cs => unsignedPart? cs
  | cs => unsignedPart? cs

/-- The value of an exponent, if there is one, and what follows. -/
def exponentPart? : List Char → Option (Option Int × List Char)
  | 'e' :: cs => (signedPart? cs).map fun part => (some part.1, part.2)
  | 'E' :: cs => (signedPart? cs).map fun part => (some part.1, part.2)
  | cs => some (none, cs)

/-- The types that a floating number may end in. -/
def floatingMarks : List (List Char) :=
  [[], ['f', '3', '2'], ['f', '6', '4']]

/-- **Value and suffix of a floating number of the target**: digits, then a point with digits or an
exponent or both, then a type or nothing. -/
def floatingNumber? (cs : List Char) : Option (ℚ × List Char) := do
  guard (startsWithDigit cs)
  let (fraction?, rest) ← fractionPart? (afterDigits cs)
  let (exponent?, mark) ← exponentPart? rest
  guard ((fraction?.isSome || exponent?.isSome) && floatingMarks.contains mark)
  pure (decimalValue (leadingDigits cs) (fraction?.getD []) (exponent?.getD 0), mark)

end Chars

/-! ## Zeros around the point -/

namespace Chars

/-- The other characters of numbers are no digits. -/
theorem not_mem_of_digit_lt {c : Char} (h : digit c < 10) :
    c ∉ ['.', 'e', 'E', '+', '-', 'f', 'F', 'l', 'L', 'x', 'X'] :=
  of_digit_lt (P := fun c => digit c < 10 →
    c ∉ ['.', 'e', 'E', '+', '-', 'f', 'F', 'l', 'L', 'x', 'X']) (by decide)
    (h.trans (by decide)) h

theorem point_not_mem {digits : List Char} (h : Digits 10 digits) : '.' ∉ digits :=
  fun mem => not_mem_of_digit_lt (h _ mem) (by decide)

theorem splitPoint_append (letter : Char) {front : List Char} (h : '.' ∉ front) (cs : List Char) :
    splitPoint letter (front ++ cs) = (splitPoint letter cs).map (front ++ ·) := by
  induction front with
  | nil => simp
  | cons c front ih =>
    have other : c ≠ '.' := fun e => h (e ▸ mem_cons_self)
    have step : splitPoint letter (c :: (front ++ cs)) =
        (splitPoint letter (front ++ cs)).map (c :: ·) := by
      rw [splitPoint]
      intro d ds e
      exact absurd e other
    rw [cons_append, step, ih fun hc => h (mem_cons_of_mem c hc), Option.map_map]
    rfl

theorem splitPoint_of_not_mem (letter : Char) {cs : List Char} (h : '.' ∉ cs) :
    splitPoint letter cs = none := by
  simpa [splitPoint] using splitPoint_append letter h []

/-- A zero is put between a point and the letter of an exponent, and nowhere else. -/
theorem splitPoint_point (letter : Char) {c : Char} {cs : List Char} (h : '.' ∉ c :: cs) :
    splitPoint letter ('.' :: c :: cs) =
      if c = letter then some ('.' :: '0' :: c :: cs) else none := by
  rw [splitPoint]
  simp only [beq_iff_eq]
  rw [splitPoint_of_not_mem letter h, Option.map_none]

/-- A text without a point stays as it is. -/
theorem completedPoint_of_not_mem {body : List Char} (h : '.' ∉ body) :
    completedPoint body = body := by
  have last : (body.getLast? == some '.') = false :=
    beq_eq_false_iff_ne.2 fun e => h (mem_of_getLast? e)
  have head : (body.head? == some '.') = false :=
    beq_eq_false_iff_ne.2 fun e => h (mem_of_head? e)
  simp [completedPoint, last, head, splitPoint_of_not_mem _ h]

/-- A text with one point: zeros are put before the point and after it where nothing stands there,
and before an exponent that follows the point. -/
theorem completedPoint_pointed {whole tail : List Char} (valid : Digits 10 whole)
    (rest : '.' ∉ tail) :
    completedPoint (whole ++ '.' :: tail) = orZero whole ++
      '.' :: (if tail.head? = some 'e' ∨ tail.head? = some 'E' then '0' :: tail
        else orZero tail) := by
  -- the end is looked at first, so something follows the point from there on
  have ended : (if (whole ++ '.' :: tail).getLast? == some '.' then whole ++ '.' :: tail ++ ['0']
      else whole ++ '.' :: tail) = whole ++ '.' :: orZero tail := by
    cases tail with
    | nil => simp [orZero]
    | cons c cs =>
      have last : (whole ++ '.' :: c :: cs).getLast? ≠ some '.' := by
        rw [append_cons, getLast?_append, getLast?_cons, Option.some_or,
          ← getLast?_cons]
        exact fun e => rest (mem_of_getLast? e)
      rw [if_neg (by simpa using last), orZero_of_ne_nil (cons_ne_nil c cs)]
  have started (cs : List Char) : (if (whole ++ '.' :: cs).head? == some '.'
      then '0' :: (whole ++ '.' :: cs) else whole ++ '.' :: cs) =
      orZero whole ++ '.' :: cs := by
    cases whole with
    | nil => rfl
    | cons d ds =>
      have digit : d ≠ '.' := fun e => point_not_mem valid (e ▸ mem_cons_self)
      simp [orZero, digit]
  have front : '.' ∉ orZero whole :=
    point_not_mem (digits_orZero valid)
  unfold completedPoint
  dsimp only
  rw [ended, started, splitPoint_append _ front, splitPoint_append _ front]
  cases tail with
  | nil => simp [orZero, splitPoint]
  | cons c cs =>
    rw [orZero_of_ne_nil (cons_ne_nil c cs), splitPoint_point _ rest,
      splitPoint_point _ rest]
    by_cases small : c = 'e'
    · simp [small]
    · by_cases capital : c = 'E'
      · simp [capital]
      · simp [small, capital]

end Chars

namespace Exponent

variable (e : Exponent)

/-- The characters of an exponent. -/
theorem of_mem_spelling {c : Char} (h : c ∈ e.spelling) :
    digit c < 10 ∨ c ∈ ['e', 'E', '+', '-'] := by
  have signs : ∀ s ∈ [[], ['+'], ['-']], ∀ c ∈ s, c ∈ ['e', 'E', '+', '-'] := by decide
  have letters : ∀ c ∈ ['e', 'E'], c ∈ ['e', 'E', '+', '-'] := by decide
  rw [spelling, mem_cons, mem_append] at h
  rcases h with rfl | sign | digit
  · exact .inr (letters _ e.lettered)
  · exact .inr (signs _ e.signed c sign)
  · exact .inl (e.valid c digit)

end Exponent

namespace DecimalNumber

variable (d : DecimalNumber)

theorem whole_ne_nil (pointless : d.fraction? = none) : d.whole ≠ [] := by
  have nonempty := d.nonempty
  rw [pointless] at nonempty
  simpa using nonempty

theorem of_mem_power {c : Char} (h : c ∈ d.power) : digit c < 10 ∨ c ∈ ['e', 'E', '+', '-'] := by
  unfold power at h
  cases exponent : d.exponent? with
  | none =>
    rw [exponent] at h
    cases h
  | some e =>
    rw [exponent] at h
    exact e.of_mem_spelling h

/-- The characters of a number. -/
theorem of_mem_body {c : Char} (h : c ∈ d.body) :
    digit c < 10 ∨ c ∈ ['.', 'e', 'E', '+', '-'] := by
  rw [body, mem_append, mem_append] at h
  rcases h with whole | point | power
  · exact .inl (d.wholeValid c whole)
  · unfold DecimalNumber.point at point
    cases pointed : d.fraction? with
    | none =>
      rw [pointed] at point
      cases point
    | some digits =>
      rw [pointed] at point
      rcases mem_cons.1 point with rfl | digit
      · exact .inr (by decide)
      · exact .inl (d.fractionValid digits pointed c digit)
  · exact (d.of_mem_power power).imp_right (mem_cons_of_mem '.')

theorem not_mem_body {c : Char} (other : ¬ (digit c < 10 ∨ c ∈ ['.', 'e', 'E', '+', '-'])) :
    c ∉ d.body :=
  fun h => other (d.of_mem_body h)

/-- **Zeros are put where digits are missing.** -/
theorem completedPoint_body : completedPoint d.body = d.completed.body := by
  have completed : d.completed.body =
      orZero d.whole ++ ((d.fraction?.map orZero).elim [] ('.' :: ·) ++ d.power) := rfl
  rw [completed, body, point]
  cases pointed : d.fraction? with
  | none =>
    rw [orZero_of_ne_nil (d.whole_ne_nil pointed)]
    refine completedPoint_of_not_mem fun h => ?_
    rcases mem_append.1 h with h | h
    · exact point_not_mem d.wholeValid h
    · exact absurd (d.of_mem_power h) (by decide)
  | some digits =>
    have valid : Digits 10 digits := d.fractionValid digits pointed
    have rest : '.' ∉ digits ++ d.power := by
      rw [mem_append, not_or]
      exact ⟨point_not_mem valid, fun h => absurd (d.of_mem_power h) (by decide)⟩
    refine (completedPoint_pointed d.wholeValid rest).trans ?_
    cases digits with
    | nil =>
      unfold power
      cases d.exponent? with
      | none => rfl
      | some e =>
        have letter : e.letter = 'e' ∨ e.letter = 'E' := by simpa using e.lettered
        simp [Exponent.spelling, orZero, letter]
    | cons c cs =>
      have other := not_mem_of_digit_lt (valid c mem_cons_self)
      simp only [mem_cons, not_or] at other
      simp [orZero, other]

end DecimalNumber

/-! ## How a constant is written -/

theorem Chars.mem_of_isHexadecimal {cs : List Char} (h : isHexadecimal cs = true) :
    'x' ∈ cs ∨ 'X' ∈ cs := by
  unfold isHexadecimal at h
  split at h
  · exact .inl (by simp)
  · exact .inr (by simp)
  · cases h

namespace FloatingConstant

variable (c : FloatingConstant)

/-- The type that is written after the number. -/
def mark : List Char :=
  if c.isSingle then ['f', '3', '2'] else []

theorem isHexadecimal_spelling : isHexadecimal c.spelling = false := by
  have suffixes : ∀ s ∈ [[], ['f'], ['F'], ['l'], ['L']], 'x' ∉ s ∧ 'X' ∉ s := by decide
  obtain ⟨small, capital⟩ := suffixes _ c.suffixed
  refine Bool.eq_false_iff.2 fun h => ?_
  rcases mem_of_isHexadecimal h with h | h
  · exact (mem_append.1 h).elim (c.not_mem_body (by decide)) small
  · exact (mem_append.1 h).elim (c.not_mem_body (by decide)) capital

/-- The letters of the suffixes that do not make the precision single. -/
theorem of_mem_suffix (other : c.isSingle = false) :
    ∀ l ∈ c.suffix, (l == 'l' || l == 'L') = true := by
  have table : ∀ s ∈ [[], ['f'], ['F'], ['l'], ['L']],
      (decide (s = ['f']) || decide (s = ['F'])) = false →
        ∀ l ∈ s, (l == 'l' || l == 'L') = true := by decide
  exact table _ c.suffixed other

/-- **How a constant is written**: complete, and with its type. -/
theorem floatingLiteral_spelling :
    floatingLiteral c.spelling = c.completed.body ++ c.mark := by
  unfold floatingLiteral
  rw [c.isHexadecimal_spelling, mark]
  cases single : c.isSingle with
  | true =>
    obtain ⟨l, letter, shape⟩ : ∃ l, (l = 'f' ∨ l = 'F') ∧ c.suffix = [l] := by
      simp only [isSingle, Bool.or_eq_true, decide_eq_true_eq] at single
      exact single.elim (fun h => ⟨'f', .inl rfl, h⟩) fun h => ⟨'F', .inr rfl, h⟩
    have last : (c.spelling.getLast? == some 'f' || c.spelling.getLast? == some 'F') = true := by
      rw [spelling, shape, getLast?_concat]
      simpa using letter
    have front : c.spelling.dropLast = c.body := by
      rw [spelling, shape, dropLast_concat]
    simp [last, front, c.completedPoint_body]
  | false =>
    have long := c.of_mem_suffix single
    have kept : ∀ d, c.body.getLast? = some d → (d == 'l' || d == 'L') = false := by
      intro d ends
      refine Bool.eq_false_iff.2 fun h => ?_
      rcases Bool.or_eq_true_iff.1 h with h | h <;>
        exact c.not_mem_body (by decide) (beq_iff_eq.1 h ▸ mem_of_getLast? ends)
    have last : (c.spelling.getLast? == some 'f' || c.spelling.getLast? == some 'F') = false := by
      refine Bool.eq_false_iff.2 fun h => ?_
      rcases Bool.or_eq_true_iff.1 h with h | h <;>
        exact (mem_append.1 (mem_of_getLast? (beq_iff_eq.1 h))).elim
          (c.not_mem_body (by decide)) fun h => absurd (long _ h) (by decide)
    have bare : dropEndWhile (fun d => d == 'l' || d == 'L') c.spelling = c.body :=
      dropEndWhile_append_of_all kept long
    simp [last, bare, c.completedPoint_body]

end FloatingConstant

/-! ## Reading what is written -/

namespace Chars

/-- A text that is empty or starts with one of some characters. -/
def StartsIn (marks cs : List Char) : Prop :=
  ∀ c, cs.head? = some c → c ∈ marks

theorem leadingDigits_append {digits rest : List Char} (valid : Digits 10 digits)
    (stop : StartsIn ['.', 'e', 'E', 'f'] rest) :
    leadingDigits (digits ++ rest) = digits ∧ afterDigits (digits ++ rest) = rest := by
  have all : ∀ c ∈ digits, isDecimalChar c = true := fun c hc => by
    simp [isDecimalChar, valid c hc]
  have marks : ∀ c ∈ ['.', 'e', 'E', 'f'], isDecimalChar c = false := by decide
  have ends : rest.takeWhile isDecimalChar = [] ∧ rest.dropWhile isDecimalChar = rest := by
    cases rest with
    | nil => exact ⟨rfl, rfl⟩
    | cons c cs =>
      have other := marks c (stop c rfl)
      simp [other]
  constructor
  · rw [leadingDigits, takeWhile_append_of_pos all, ends.1, append_nil]
    exact filter_of_digits (by decide) valid
  · rw [afterDigits, dropWhile_append_of_pos all, ends.2]

end Chars

namespace Exponent

variable (e : Exponent) {rest : List Char} (stop : StartsIn ['.', 'e', 'E', 'f'] rest)

include stop

theorem signedPart?_append : signedPart? (e.sign ++ e.digits ++ rest) = some (e.value, rest) := by
  have part : unsignedPart? (e.digits ++ rest) = some ((numeral 10 e.digits : Int), rest) := by
    obtain ⟨leading, after⟩ := leadingDigits_append e.valid stop
    rw [unsignedPart?, leading, after, numeral?_of_digits (by decide) e.nonempty e.valid]
    rfl
  have signed := e.signed
  simp only [mem_cons, not_mem_nil, or_false] at signed
  rcases signed with sign | sign | sign
  · have unsigned : signedPart? (e.digits ++ rest) = unsignedPart? (e.digits ++ rest) := by
      obtain ⟨c, cs, digits⟩ := exists_cons_of_ne_nil e.nonempty
      have first := not_mem_of_digit_lt (e.valid c (digits ▸ mem_cons_self))
      simp only [mem_cons, not_or] at first
      rw [digits, cons_append]
      simp [signedPart?, first]
    rw [value, sign, nil_append, unsigned, part]
    rfl
  · rw [value, sign]
    exact part
  · rw [value, sign]
    show (unsignedPart? (e.digits ++ rest)).map _ = _
    rw [part]
    rfl

theorem exponentPart?_append : exponentPart? (e.spelling ++ rest) = some (some e.value, rest) := by
  have part := e.signedPart?_append stop
  have lettered := e.lettered
  simp only [mem_cons, not_mem_nil, or_false] at lettered
  rcases lettered with letter | letter <;>
    · rw [spelling, letter]
      show (signedPart? (e.sign ++ e.digits ++ rest)).map _ = _
      rw [part]
      rfl

end Exponent

namespace DecimalNumber

variable (d : DecimalNumber)

theorem exponentPart?_power {mark : List Char} (stop : StartsIn ['f'] mark) :
    exponentPart? (d.power ++ mark) = some (d.exponent?.map Exponent.value, mark) := by
  unfold power
  cases d.exponent? with
  | none =>
    show exponentPart? mark = some (none, mark)
    unfold exponentPart?
    split
    · exact absurd (stop _ rfl) (by decide)
    · exact absurd (stop _ rfl) (by decide)
    · rfl
  | some e =>
    refine e.exponentPart?_append fun c first => ?_
    exact mem_cons_of_mem _ (mem_cons_of_mem _ (mem_cons_of_mem _ (stop c first)))

theorem startsIn_power {mark : List Char} (stop : StartsIn ['f'] mark) :
    StartsIn ['e', 'E', 'f'] (d.power ++ mark) := by
  intro c first
  unfold power at first
  cases exponent : d.exponent? with
  | none =>
    rw [exponent] at first
    exact mem_cons_of_mem _ (mem_cons_of_mem _ (stop c first))
  | some e =>
    rw [exponent] at first
    obtain rfl := Option.some.inj first
    exact mem_append_left ['f'] e.lettered

theorem fractionPart?_point (complete : d.fraction? ≠ some []) {rest : List Char}
    (stop : StartsIn ['e', 'E', 'f'] rest) :
    fractionPart? (d.point ++ rest) = some (d.fraction?, rest) := by
  unfold point
  cases pointed : d.fraction? with
  | none =>
    show fractionPart? rest = some (none, rest)
    unfold fractionPart?
    split
    · exact absurd (stop _ rfl) (by decide)
    · exact absurd (stop _ rfl) (by decide)
    · rfl
  | some digits =>
    have valid : Digits 10 digits := d.fractionValid digits pointed
    obtain ⟨c, cs, rfl⟩ : ∃ c cs, digits = c :: cs :=
      exists_cons_of_ne_nil fun empty => complete (by rw [pointed, empty])
    obtain ⟨leading, after⟩ :=
      leadingDigits_append valid fun c first => mem_cons_of_mem '.' (stop c first)
    have first : startsWithDigit (c :: cs ++ rest) = true :=
      decide_eq_true (valid c mem_cons_self)
    show (if startsWithDigit (c :: cs ++ rest) then
      some (some (leadingDigits (c :: cs ++ rest)), afterDigits (c :: cs ++ rest)) else none) = _
    rw [if_pos first, leading, after]

/-- **The target reads a number that has digits on both sides of its point.** -/
theorem floatingNumber?_body (whole : d.whole ≠ []) (complete : d.fraction? ≠ some [])
    {mark : List Char} (type : mark ∈ floatingMarks) :
    floatingNumber? (d.body ++ mark) = some (d.value, mark) := by
  have marks : ∀ mark ∈ floatingMarks, ∀ c, mark.head? = some c → c ∈ ['f'] := by
    simp [floatingMarks]
  have stop : StartsIn ['f'] mark := marks mark type
  have powerStop := d.startsIn_power stop
  have pointStop : StartsIn ['.', 'e', 'E', 'f'] (d.point ++ (d.power ++ mark)) := by
    intro c first
    unfold point at first
    cases pointed : d.fraction? with
    | none =>
      rw [pointed] at first
      exact mem_cons_of_mem '.' (powerStop c first)
    | some digits =>
      rw [pointed] at first
      obtain rfl := Option.some.inj first
      exact mem_cons_self
  have shape : d.body ++ mark = d.whole ++ (d.point ++ (d.power ++ mark)) := by simp [body]
  obtain ⟨leading, after⟩ := leadingDigits_append d.wholeValid pointStop
  have first : startsWithDigit (d.whole ++ (d.point ++ (d.power ++ mark))) = true := by
    obtain ⟨c, cs, digits⟩ := exists_cons_of_ne_nil whole
    rw [digits]
    exact decide_eq_true (d.wholeValid c (digits ▸ mem_cons_self))
  have marked : d.fraction?.isSome = true ∨ d.exponent?.isSome = true := by
    rw [Option.isSome_iff_ne_none, Option.isSome_iff_ne_none]
    exact d.marked
  rw [shape, floatingNumber?, first, leading, after, d.fractionPart?_point complete powerStop]
  simp only [Option.bind_eq_bind, Option.bind_some]
  rw [d.exponentPart?_power stop]
  simp [marked, type, value]

end DecimalNumber

namespace FloatingConstant

variable (c : FloatingConstant)

theorem toList_floating : (Literal.floating c.text).toList = c.completed.body ++ c.mark := by
  rw [Literal.floating, Text.toList_onChars, text, String.toList_ofList,
    c.floatingLiteral_spelling]

/-- No number has a letter of the type in it, so the type is seen at the end of the text. -/
theorem endsWith_floating_iff :
    Text.endsWith (Literal.floating c.text) "f32" = true ↔ c.isSingle = true := by
  have type : "f32".toList = ['f', '3', '2'] := by decide
  rw [Text.endsWith, c.toList_floating, mark, type, isSuffixOf_iff_suffix]
  cases c.isSingle with
  | true => exact iff_of_true (suffix_append _ _) rfl
  | false =>
    refine iff_of_false (fun ends => ?_) Bool.false_ne_true
    have letter : 'f' ∈ c.completed.body := by
      simpa using ends.subset mem_cons_self
    exact c.completed.not_mem_body (by decide) letter

end FloatingConstant

/-- **The target reads the value of a floating constant** in what is written for it, with the type
of single precision just when the constant has it, and without a type otherwise. -/
theorem floating_constants_keep_value (c : FloatingConstant) :
    floatingNumber? (Literal.floating c.text).toList =
        some (c.value, if c.isSingle then ['f', '3', '2'] else []) ∧
      (Text.endsWith (Literal.floating c.text) "f32" = true ↔
        c.suffix = ['f'] ∨ c.suffix = ['F']) := by
  have type : c.mark ∈ floatingMarks := by
    unfold FloatingConstant.mark
    split <;> decide
  have complete : c.completed.fraction? ≠ some [] := by
    intro h
    obtain ⟨digits, -, empty⟩ := Option.map_eq_some_iff.1 h
    exact DecimalNumber.orZero_ne_nil digits empty
  constructor
  · rw [c.toList_floating,
      c.completed.floatingNumber?_body (DecimalNumber.orZero_ne_nil _) complete type,
      c.value_completed]
    rfl
  · rw [c.endsWith_floating_iff]
    simp [FloatingConstant.isSingle]

-- digits are missing before the point, and the exponent has a sign
example :
    let c : FloatingConstant :=
      { whole := [], fraction? := some ['5'], suffix := ['F']
        exponent? := some
          { letter := 'e', lettered := by decide, sign := ['-'], signed := by decide
            digits := ['3'], nonempty := by decide, valid := by decide }
        wholeValid := by decide, fractionValid := by decide, nonempty := by decide
        marked := .inl (by decide), suffixed := by decide }
    c.text = ".5e-3F" ∧ Literal.floating c.text = "0.5e-3f32" := by
  decide

end Ferric
