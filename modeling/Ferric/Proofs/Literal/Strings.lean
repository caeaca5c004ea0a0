import Ferric.Proofs.Expression.Tokens
import Ferric.Proofs.Literal.Integers
import Mathlib.Data.List.Basic

/-!
# Contents of string constants

A string constant is written without its width mark and otherwise as it is spelled.  Most escapes
are the same in C and in the target.  An octal escape is not: in the target, a backslash and a zero
are an escape of their own, the digits after it stand for themselves, and a backslash before another
digit has no meaning.  So the contents are kept just when the only octal escape is `\0`, alone.

## Main definitions

* `StringConstant`: string constants of C, as the parts that C reads, with the codes that these
  stand for.
* `Chars.stringContents?`: the characters of a string literal of the target.

## Main results

* `quotedContents?_spell`: the target reads a constant part by part.
* `targets?_codes_iff`: which parts stand for the same codes.
* `string_contents_kept_iff`: the contents are kept just when each octal escape is `\0`.
* `octal_escape_changes_contents`: a line feed that is spelled `\012`.
-/

namespace Ferric

open Chars List

/-! ## Constants of the source -/

namespace StringPart

/-- The characters that do not stand for themselves: a line does not end inside of a constant. -/
def delimiters : List Char :=
  ['"', '\\', '\n', '\r']

/-- What may follow a backslash. -/
def simpleEscapes : List Char :=
  ['n', 't', 'r', '\\', '\'', '"']

end StringPart

open StringPart

/-- **The parts of a string constant.** -/
inductive StringPart where
  | plain (c : Char) (ascii : c.toNat < 128) (free : c ∉ delimiters)
  /-- A backslash and a letter or a mark. -/
  | simple (c : Char) (known : c ∈ simpleEscapes)
  /-- A backslash and octal digits. -/
  | octal (digits : List Char) (valid : Digits 8 digits) (sized : digits.length ∈ [1, 2, 3])
  /-- A backslash, the letter `x` and hexadecimal digits, for a character of seven bits. -/
  | hexadecimal (digits : List Char) (valid : Digits 16 digits) (two : digits.length = 2)
      (low : numeral 16 digits < 128)

namespace StringPart

def spelling : StringPart → List Char
  | .plain c _ _ => [c]
  | .simple c _ => ['\\', c]
  | .octal digits _ _ => '\\' :: digits
  | .hexadecimal digits _ _ _ => '\\' :: 'x' :: digits

def code : StringPart → Nat
  | .plain c _ _ => c.toNat
  | .simple 'n' _ => 10
  | .simple 't' _ => 9
  | .simple 'r' _ => 13
  | .simple c _ => c.toNat
  | .octal digits _ _ => numeral 8 digits
  | .hexadecimal digits _ _ _ => numeral 16 digits

/-- Whether C reads a part to its end, and not further, when a text follows: an escape by number
takes as many digits as it can. -/
def endsBefore (rest : List Char) : StringPart → Bool
  | .octal digits _ _ => digits.length = 3 || rest.head?.all (8 ≤ digit ·)
  | .hexadecimal _ _ _ _ => rest.head?.all (16 ≤ digit ·)
  | _ => true

/-- What stands after the opening quote. -/
def spell : List StringPart → List Char
  | [] => ['"']
  | p :: ps => p.spelling ++ spell ps

/-- Whether C reads the spelling as these parts. -/
def isSpelled : List StringPart → Bool
  | [] => true
  | p :: ps => p.endsBefore (spell ps) && isSpelled ps

end StringPart

/-- **A string constant of C**, with a mark of its width. -/
structure StringConstant where
  mark : List Char
  marked : mark ∈ [[], ['L'], ['u'], ['U'], ['u', '8']]
  parts : List StringPart
  spelled : isSpelled parts = true

namespace StringConstant

variable (s : StringConstant)

def spelling : List Char :=
  s.mark ++ '"' :: spell s.parts

def text : String :=
  String.ofList s.spelling

def codes : List Nat :=
  s.parts.map StringPart.code

end StringConstant

/-! ## Literals of the target -/

namespace Chars

/-- The characters that the target writes as a backslash and one more character. -/
def escape? : Char → Option Char
  | 'n' => some '\n'
  | 'r' => some '\r'
  | 't' => some '\t'
  | '0' => some '\x00'
  | '\\' => some '\\'
  | '\'' => some '\''
  | '"' => some '"'
  | _ => none

/-- The characters up to the closing quote, with which the text has to end.  The escapes of code
points in braces and of line ends are left out; no text here has one. -/
def quotedContents? : List Char → Option (List Char)
  | [] => none
  | ['"'] => some []
  | '\\' :: 'x' :: high :: low :: cs =>
    if Digits 16 [high, low] ∧ numeral 16 [high, low] < 128 then
      (quotedContents? cs).map (Char.ofNat (numeral 16 [high, low]) :: ·)
    else none
  | '\\' :: c :: cs => (escape? c).bind fun e => (quotedContents? cs).map (e :: ·)
  | c :: cs =>
    if c = '"' ∨ c = '\\' ∨ c = '\r' then none else (quotedContents? cs).map (c :: ·)

/-- **The characters of a string literal of the target.** -/
def stringContents? : List Char → Option (List Char)
  | '"' :: cs => quotedContents? cs
  | _ => none

end Chars

/-! ## Reading part by part -/

namespace StringPart

/-- The characters that the target reads in a part. -/
def target? : StringPart → Option (List Char)
  | .plain c _ _ => some [c]
  | .simple c _ => (escape? c).map ([·])
  | .octal digits _ _ => if digits.head? = some '0' then some ('\x00' :: digits.tail) else none
  | .hexadecimal digits _ _ _ => some [Char.ofNat (numeral 16 digits)]

/-- The characters that the target reads in some parts. -/
def targets? : List StringPart → Option (List Char)
  | [] => some []
  | p :: ps => p.target?.bind fun front => (targets? ps).map (front ++ ·)

end StringPart

namespace Chars

theorem quotedContents?_plain {c : Char} (h : c ≠ '"' ∧ c ≠ '\\' ∧ c ≠ '\r') (cs : List Char) :
    quotedContents? (c :: cs) = (quotedContents? cs).map (c :: ·) := by
  obtain ⟨quote, backslash, control⟩ := h
  simp [quotedContents?, quote, backslash, control]

theorem quotedContents?_escape {c : Char} (h : c ≠ 'x') (cs : List Char) :
    quotedContents? ('\\' :: c :: cs) =
      (escape? c).bind fun e => (quotedContents? cs).map (e :: ·) := by
  simp [quotedContents?, h]

/-- Digits stand for themselves. -/
theorem quotedContents?_digits {digits : List Char} (valid : Digits 8 digits) (cs : List Char) :
    quotedContents? (digits ++ cs) = (quotedContents? cs).map (digits ++ ·) := by
  induction digits with
  | nil => simp
  | cons c digits ih =>
    have other : c ≠ '"' ∧ c ≠ '\\' ∧ c ≠ '\r' :=
      of_digit_lt (P := fun c => c ≠ '"' ∧ c ≠ '\\' ∧ c ≠ '\r') (by decide)
        ((valid c mem_cons_self).trans (by decide))
    rw [cons_append, quotedContents?_plain other, ih valid.tail, Option.map_map]
    rfl

/-- **The target reads a part, and then what follows it.** -/
theorem quotedContents?_append (p : StringPart) (cs : List Char) :
    quotedContents? (p.spelling ++ cs) =
      p.target?.bind fun front => (quotedContents? cs).map (front ++ ·) := by
  cases p with
  | plain c ascii free =>
    simp only [delimiters, mem_cons, not_or] at free
    exact quotedContents?_plain ⟨free.1, free.2.1, free.2.2.2.1⟩ cs
  | simple c known =>
    have other : c ≠ 'x' := by
      rintro rfl
      exact absurd known (by decide)
    rw [spelling, target?]
    show quotedContents? ('\\' :: c :: cs) = _
    rw [quotedContents?_escape other, Option.bind_map]
    rfl
  | octal digits valid sized =>
    cases digits with
    | nil => exact absurd sized (by decide)
    | cons d ds =>
      show quotedContents? ('\\' :: d :: (ds ++ cs)) = _
      have table : ∀ c ∈ smallDigits ++ capitalDigits, digit c < 8 → c ≠ 'x' ∧
          (c ≠ '0' → escape? c = none) := by decide
      have digit : digit d < 8 := valid d mem_cons_self
      obtain ⟨other, meaningless⟩ := of_digit_lt table (digit.trans (by decide)) digit
      rw [quotedContents?_escape other]
      by_cases zero : d = '0'
      · subst zero
        rw [quotedContents?_digits valid.tail]
        simp [target?, escape?, Option.map_map, Function.comp_def]
      · rw [meaningless zero]
        simp [target?, zero]
  | hexadecimal digits valid two low =>
    obtain ⟨h, l, rfl⟩ := length_eq_two.1 two
    show quotedContents? ('\\' :: 'x' :: h :: l :: cs) = _
    rw [quotedContents?, if_pos ⟨valid, low⟩]
    rfl

end Chars

namespace StringPart

/-- **The target reads a constant part by part.** -/
theorem quotedContents?_spell (parts : List StringPart) :
    quotedContents? (spell parts) = targets? parts := by
  induction parts with
  | nil => rfl
  | cons p ps ih =>
    rw [spell, quotedContents?_append, ih]
    rfl

/-! ## Codes -/

/-- Whether the target has the part too: octal escapes are `\0` alone. -/
def isShared : StringPart → Bool
  | .octal digits _ _ => digits = ['0']
  | _ => true

/-- A part that the target has stands for one character, with the same code. -/
theorem target?_of_isShared {p : StringPart} (shared : p.isShared = true) :
    ∃ c, p.target? = some [c] ∧ c.toNat = p.code := by
  cases p with
  | plain c ascii free => exact ⟨c, rfl, rfl⟩
  | simple c known =>
    simp only [simpleEscapes, mem_cons, not_mem_nil, or_false] at known
    rcases known with rfl | rfl | rfl | rfl | rfl | rfl
    all_goals exact ⟨_, rfl, rfl⟩
  | octal digits valid sized =>
    obtain rfl : digits = ['0'] := of_decide_eq_true shared
    exact ⟨'\x00', rfl, rfl⟩
  | hexadecimal digits valid two low =>
    have scalar : (numeral 16 digits).isValidChar := .inl (low.trans (by decide))
    refine ⟨_, rfl, ?_⟩
    rw [Char.ofNat, dif_pos scalar]
    rfl

/-- An octal escape that the target does not have is refused, or more than one character. -/
theorem length_of_target? {p : StringPart} (other : p.isShared = false) {front : List Char}
    (h : p.target? = some front) : 2 ≤ front.length := by
  cases p with
  | octal digits valid sized =>
    cases digits with
    | nil => exact absurd sized (by decide)
    | cons d ds =>
      by_cases zero : d = '0'
      · subst zero
        rw [target?, head?_cons, if_pos rfl] at h
        obtain rfl := Option.some.inj h
        have more : ds ≠ [] := by
          rintro rfl
          cases other
        exact Nat.succ_le_succ (length_pos_iff.2 more)
      · simp [target?, zero] at h
  | _ => cases other

/-- What the target reads in a constant. -/
theorem targets?_cons {p : StringPart} {ps : List StringPart} {cs : List Char}
    (h : targets? (p :: ps) = some cs) :
    ∃ front rest, p.target? = some front ∧ targets? ps = some rest ∧ cs = front ++ rest := by
  obtain ⟨front, first, h⟩ := Option.bind_eq_some_iff.1 h
  obtain ⟨rest, later, rfl⟩ := Option.map_eq_some_iff.1 h
  exact ⟨front, rest, first, later, rfl⟩

/-- No part vanishes, so a part that becomes more characters is not made up for later. -/
theorem length_le_of_targets? {parts : List StringPart} {cs : List Char}
    (read : targets? parts = some cs) : parts.length ≤ cs.length := by
  induction parts generalizing cs with
  | nil => exact Nat.zero_le _
  | cons p ps ih =>
    obtain ⟨front, later, first, tail, rfl⟩ := targets?_cons read
    have tail := ih tail
    have head : 1 ≤ front.length := by
      cases shared : p.isShared with
      | true =>
        obtain ⟨c, single, -⟩ := target?_of_isShared shared
        obtain rfl := Option.some.inj (first.symm.trans single)
        exact Nat.le_refl 1
      | false => exact (Nat.le_succ 1).trans (length_of_target? shared first)
    rw [length_cons, length_append]
    omega

/-- **Which parts stand for the same codes**: those that the target has too. -/
theorem targets?_codes_iff (parts : List StringPart) :
    (targets? parts).map (map Char.toNat) = some (parts.map code) ↔
      ∀ p ∈ parts, p.isShared = true := by
  induction parts with
  | nil => simp [targets?]
  | cons p ps ih =>
    rw [forall_mem_cons, ← ih]
    cases shared : p.isShared with
    | true =>
      obtain ⟨c, single, code⟩ := target?_of_isShared shared
      have read : targets? (p :: ps) = (targets? ps).map (c :: ·) := by
        rw [targets?, single]
        rfl
      rw [read, Option.map_map, map_cons, ← code]
      cases targets? ps with
      | none => simp
      | some cs => simp
    | false =>
      refine iff_of_false (fun same => ?_) fun h => Bool.false_ne_true h.1
      obtain ⟨cs, read, codes⟩ := Option.map_eq_some_iff.1 same
      obtain ⟨front, later, first, tail, rfl⟩ := targets?_cons read
      have head := length_of_target? shared first
      have more := length_le_of_targets? tail
      have length := congrArg length codes
      simp only [length_map, length_append, length_cons] at length
      omega

end StringPart

/-! ## What is written for a constant -/

theorem StringPart.getLast?_spell (parts : List StringPart) :
    (spell parts).getLast? = some '"' := by
  induction parts with
  | nil => rfl
  | cons p ps ih =>
    rw [spell, getLast?_append, ih]
    rfl

namespace StringConstant

variable (s : StringConstant)

/-- The mark of the width is dropped. -/
theorem stringLiteral_spelling : stringLiteral s.spelling = '"' :: spell s.parts := by
  have marked := s.marked
  simp only [mem_cons, not_mem_nil, or_false] at marked
  rw [spelling]
  rcases marked with mark | mark | mark | mark | mark <;> rw [mark] <;> rfl

theorem toList_string : (Literal.string s.text).toList = '"' :: spell s.parts := by
  rw [Literal.string, Text.toList_onChars, text, String.toList_ofList, s.stringLiteral_spelling]

/-- A quote stands at both ends, so nothing is trimmed. -/
theorem asExpression_string :
    Fragment.asExpression (Literal.string s.text) = Literal.string s.text := by
  have trimmed : Trimmed (Literal.string s.text).toList := by
    rw [s.toList_string]
    refine ⟨⟨'"', rfl, rfl⟩, '"', ?_, rfl, by decide⟩
    rw [getLast?_cons, getLast?_spell]
    rfl
  apply String.toList_inj.1
  rw [Fragment.asExpression, Text.toList_onChars, trimmed.asExpression_eq]

end StringConstant

/-- **The contents of a string constant are kept just when each of its octal escapes is `\0`.**
An operand has the same text. -/
theorem string_contents_kept_iff {n : Node} (kind : n.kind = .stringLiteral) {s : StringConstant}
    (spelled : n.spelling = s.text) (reg : Registry) (ctx : Context) :
    (n.emitExpression reg ctx).value = (n.emit reg ctx).value ∧
      ((stringContents? (n.emit reg ctx).value.toList).map (List.map Char.toNat) = some s.codes ↔
        ∀ p ∈ s.parts, p.isShared = true) := by
  have written : (n.emit reg ctx).value = Literal.string s.text := by
    rw [Node.emit, Draft.text_ofNode, Draft.compose, kind, ← spelled]
    rfl
  constructor
  · show Fragment.asExpression (n.emit reg ctx).value = _
    rw [written, s.asExpression_string]
  · rw [written, s.toList_string, stringContents?, quotedContents?_spell]
    exact targets?_codes_iff s.parts

/-- The constant `u8"A:\x41\t\08"`.  The digit 8 is not octal, so the escape ends before it. -/
def markedConstant : StringConstant where
  mark := ['u', '8']
  marked := by decide
  parts := [.plain 'A' (by decide) (by decide), .plain ':' (by decide) (by decide),
    .hexadecimal ['4', '1'] (by decide) rfl (by decide), .simple 't' (by decide),
    .octal ['0'] (by decide) (by decide), .plain '8' (by decide) (by decide)]
  spelled := by decide

theorem string_contents_kept_iff_marked :
    let n : Node := { kind := .stringLiteral, spelling := markedConstant.text }
    n.spelling = "u8\"A:\\x41\\t\\08\"" ∧
      (stringContents? (n.emit {} {}).value.toList).map (List.map Char.toNat) =
        some [65, 58, 65, 9, 0, 56] := by
  have shared : ∀ p ∈ markedConstant.parts, p.isShared = true := by decide
  exact ⟨by decide, (string_contents_kept_iff
    (n := { kind := .stringLiteral, spelling := markedConstant.text }) rfl rfl {} {}).2.2 shared⟩

/-- The constant `"\012"`, which is a line feed. -/
def octalConstant : StringConstant where
  mark := []
  marked := by decide
  parts := [.octal ['0', '1', '2'] (by decide) (by decide)]
  spelled := by decide

/-- **An octal escape becomes other contents**: a zero character and two digits. -/
theorem octal_escape_changes_contents :
    let n : Node := { kind := .stringLiteral, spelling := octalConstant.text }
    n.spelling = "\"\\012\"" ∧ octalConstant.codes = [10] ∧
      (stringContents? (n.emit {} {}).value.toList).map (List.map Char.toNat) =
        some [0, 49, 50] := by
  decide

end Ferric
