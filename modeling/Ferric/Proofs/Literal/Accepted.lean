import Ferric.Proofs.Literal.Integers

/-!
# Texts that are read as integers

The reader of integer constants takes blanks, one pair of parentheses and a minus sign away, then
the suffixes and the mark of the base, and hands the rest to a reader of digits.  That reader takes
a sign of its own, so that a second sign may stand in front of the digits, even behind the mark.  It
also refuses a number that does not fit before the minus sign is applied, so that the least number
cannot be written.

## Main definitions

* `Chars.IsConstant`: constants without a minus sign, with the signs that may stand in them.
* `Chars.IsInteger`: texts that hold a constant, perhaps behind a minus sign.

## Main results

* `Chars.read?_eq_some_iff`, `Chars.magnitude?_eq_some_iff`: what is read without a minus sign.
* `integers_read_iff`: the texts that are read as integers.
* `second_sign_is_read`: a second sign is read, and the least number is not.
-/

namespace Ferric

open List Signed64 Option

namespace Chars

/-- The marks in front of digits, with the base that they set. -/
def integerMarks : List (List Char × Nat) :=
  [(['0', 'x'], 16), (['0', 'X'], 16), (['0', 'o'], 8), (['0'], 8), ([], 10)]

/-- The sign that the reader of digits takes, if any. -/
def innerSigns : List (List Char) :=
  [['-'], ['+'], []]

/-- The number behind a sign. -/
def signedValue (sign : List Char) (n : Nat) : Int :=
  if sign = ['-'] then -n else n

/-- **A constant**: a mark and digits, with one of some signs between them.  Digits without a mark
and a sign do not start with a zero, unless it stands alone. -/
def IsConstant (signs : List (List Char)) (cs : List Char) (m : Int) : Prop :=
  ∃ mark ∈ integerMarks, ∃ sign ∈ signs, ∃ digits ≠ [], Digits mark.2 digits ∧
    (mark.1 = [] → sign = [] → digits.head? = some '0' → digits = ['0']) ∧
    mark.1 ++ (sign ++ digits) = cs ∧ signedValue sign (numeral mark.2 digits) = m

/-- Blanks around a text and one pair of parentheses around the rest hold another text. -/
def HasCore (text core : List Char) : Prop :=
  (∃ inside, trim text = '(' :: (inside ++ [')']) ∧ trim inside = core) ∨
    (∀ inside, trim text ≠ '(' :: (inside ++ [')'])) ∧ trim text = core

/-- **A text that holds a constant** with suffixes, perhaps behind a minus sign and blanks. -/
def IsInteger (signs : List (List Char)) (text : List Char) (negative : Bool) (m : Int) : Prop :=
  ∃ core cs suffix, HasCore text core ∧ IsConstant signs cs m ∧
    (∀ c ∈ suffix, isIntegerSuffix c = true) ∧
    if negative then ∃ rest, core = '-' :: rest ∧ trim rest = cs ++ suffix
    else core = cs ++ suffix ∧ core.head? ≠ some '-'

variable {cs : List Char} {base : Nat} {m : Int}

/-- The parentheses that are taken away are the first and the last character. -/
theorem parenthesized?_eq_some_iff {inside : List Char} :
    parenthesized? cs = some inside ↔ cs = '(' :: (inside ++ [')']) := by
  constructor
  · intro h
    unfold parenthesized? at h
    split at h
    · split at h
      · rename_i last
        obtain ⟨front, rfl⟩ := getLast?_eq_some_iff.1 (beq_iff_eq.1 last)
        rw [dropLast_concat] at h
        rw [some.inj h]
      · cases h
    · cases h
  · rintro rfl
    simp [parenthesized?]

theorem hasCore_iff {text core : List Char} :
    HasCore text core ↔ trim ((parenthesized? (trim text)).getD (trim text)) = core := by
  cases found : parenthesized? (trim text) with
  | some inside =>
    have wrapped := parenthesized?_eq_some_iff.1 found
    refine ⟨?_, fun same => .inl ⟨inside, wrapped, same⟩⟩
    rintro (⟨inside', wrapped', same⟩ | ⟨unwrapped, -⟩)
    · rw [parenthesized?_eq_some_iff.2 wrapped'] at found
      rwa [some.inj found] at same
    · exact absurd wrapped (unwrapped inside)
  | none =>
    have unwrapped (inside : List Char) : trim text ≠ '(' :: (inside ++ [')']) := fun wrapped => by
      rw [parenthesized?_eq_some_iff.2 wrapped] at found
      cases found
    rw [getD_none, trim_trim]
    refine ⟨?_, fun same => .inr ⟨unwrapped, same⟩⟩
    rintro (⟨inside, wrapped, -⟩ | ⟨-, same⟩)
    · exact absurd wrapped (unwrapped inside)
    · exact same

/-! ## Digits -/

theorem digit_of_digitValue? (bound : base ≤ 16) {c : Char} {d : Nat}
    (h : digitValue? base c = some d) : digit c = d ∧ d < base := by
  obtain ⟨value, small⟩ := filter_eq_some_iff.1 h
  have small : d < base := by simpa using small
  have below (a b : Char) : (decide (a ≤ b) = true) = (a.toNat ≤ b.toNat) :=
    propext decide_eq_true_iff
  -- a digit below sixteen is in one of three ranges, and the table holds them all
  have listed : c.toNat ∈ (smallDigits ++ capitalDigits).map Char.toNat := by
    simp only [smallDigits, capitalDigits, cons_append, nil_append, map_cons,
      map_nil, mem_cons, not_mem_nil, or_false]
    simp only [Bool.and_eq_true, below, Char.reduceToNat] at value ⊢
    split at value
    · omega
    · split at value
      · have := some.inj value
        omega
      · split at value
        · have := some.inj value
          omega
        · cases value
  obtain ⟨e, he, same⟩ := mem_map.1 listed
  obtain rfl : e = c := Char.toNat_inj.1 same
  have table : ∀ c ∈ smallDigits ++ capitalDigits, digitValue? 16 c = some (digit c) := by decide
  obtain ⟨value', -⟩ := filter_eq_some_iff.1 (table e he)
  exact ⟨some.inj (value'.symm.trans value), small⟩

theorem digits_of_digitsValueFrom? (bound : base ≤ 16) {n m : Nat}
    (h : digitsValueFrom? base n cs = some m) : Digits base cs := by
  induction cs generalizing n with
  | nil => exact fun c hc => absurd hc not_mem_nil
  | cons c cs ih =>
    obtain ⟨d, value, rest⟩ := bind_eq_some_iff.1 h
    obtain ⟨rfl, small⟩ := digit_of_digitValue? bound value
    exact .cons small (ih rest)

theorem digitsValue?_eq_some_iff (bound : base ≤ 16) {n : Nat} :
    digitsValue? base cs = some n ↔ cs ≠ [] ∧ Digits base cs ∧ numeral base cs = n := by
  cases cs with
  | nil => simp [digitsValue?]
  | cons c cs =>
    show digitsValueFrom? base 0 (c :: cs) = some n ↔ _
    constructor
    · intro h
      have valid := digits_of_digitsValueFrom? bound h
      rw [digitsValueFrom?_of_digits bound valid, Nat.zero_mul, Nat.zero_add] at h
      exact ⟨cons_ne_nil c cs, valid, some.inj h⟩
    · rintro ⟨-, valid, rfl⟩
      rw [digitsValueFrom?_of_digits bound valid, Nat.zero_mul, Nat.zero_add]

/-! ## Constants -/

theorem base_le_of_mem : ∀ mark ∈ integerMarks, mark.2 ≤ 16 := by
  decide

theorem read?_signed (base : Nat) {sign digits : List Char} (hs : sign ∈ innerSigns)
    (h : sign = [] → digits.head? ≠ some '-' ∧ digits.head? ≠ some '+') :
    read? base (sign ++ digits) =
      ((digitsValue? base digits).map (signedValue sign)).filter holds := by
  have value (f : Int → Int) : (Option.map f do
      let n ← digitsValue? base digits
      pure (n : Int)) = (digitsValue? base digits).map fun n : Nat => f n := by
    cases digitsValue? base digits <;> rfl
  simp only [innerSigns, mem_cons, not_mem_nil, or_false] at hs
  rcases hs with rfl | rfl | rfl
  · exact congrArg (Option.filter _) (value fun n => -n)
  · exact congrArg (Option.filter _) (value fun n => n)
  · obtain ⟨minus, plus⟩ := h rfl
    rw [nil_append]
    unfold read?
    dsimp only
    split
    · exact absurd rfl minus
    · exact absurd rfl plus
    · exact congrArg (Option.filter _) (value fun n => n)

/-- **What the reader of digits takes**: one sign and digits whose value fits. -/
theorem read?_eq_some_iff (bound : base ≤ 16) :
    read? base cs = some m ↔ ∃ sign ∈ innerSigns, ∃ digits ≠ [],
      Digits base digits ∧ sign ++ digits = cs ∧ signedValue sign (numeral base digits) = m ∧
        holds m = true := by
  constructor
  · intro h
    obtain ⟨sign, hs, digits, rfl, first⟩ : ∃ sign ∈ innerSigns, ∃ digits, sign ++ digits = cs ∧
        (sign = [] → digits.head? ≠ some '-' ∧ digits.head? ≠ some '+') := by
      by_cases minus : cs.head? = some '-'
      · obtain ⟨digits, rfl⟩ := head?_eq_some_iff.1 minus
        exact ⟨['-'], by decide, digits, rfl, fun h => absurd h (by decide)⟩
      · by_cases plus : cs.head? = some '+'
        · obtain ⟨digits, rfl⟩ := head?_eq_some_iff.1 plus
          exact ⟨['+'], by decide, digits, rfl, fun h => absurd h (by decide)⟩
        · exact ⟨[], by decide, cs, rfl, fun _ => ⟨minus, plus⟩⟩
    rw [read?_signed base hs first] at h
    obtain ⟨value, fits⟩ := filter_eq_some_iff.1 h
    obtain ⟨n, found, rfl⟩ := map_eq_some_iff.1 value
    obtain ⟨nonempty, valid, rfl⟩ := (digitsValue?_eq_some_iff bound).1 found
    exact ⟨sign, hs, digits, nonempty, valid, rfl, rfl, fits⟩
  · rintro ⟨sign, hs, digits, nonempty, valid, rfl, rfl, fits⟩
    obtain ⟨d, rest, rfl⟩ := exists_cons_of_ne_nil nonempty
    have unsigned := of_digit_lt (P := fun c => c ≠ '-' ∧ c ≠ '+') (by decide)
      ((valid d mem_cons_self).trans_le bound)
    rw [read?_signed base hs fun _ => by simpa using unsigned,
      (digitsValue?_eq_some_iff bound).2 ⟨nonempty, valid, rfl⟩]
    exact filter_eq_some_iff.2 ⟨rfl, fits⟩

/-- The base of each mark is tried in turn. -/
theorem magnitude?_mark {mark : List Char × Nat} {sign digits : List Char}
    (hm : mark ∈ integerMarks) (hs : sign ∈ innerSigns) (nonempty : digits ≠ [])
    (valid : Digits mark.2 digits)
    (unmarked : mark.1 = [] → sign = [] → digits.head? = some '0' → digits = ['0']) :
    magnitude? (mark.1 ++ (sign ++ digits)) = read? mark.2 (sign ++ digits) := by
  obtain ⟨d, rest, rfl⟩ := exists_cons_of_ne_nil nonempty
  have first := valid d mem_cons_self
  simp only [integerMarks, innerSigns, mem_cons, not_mem_nil, or_false] at hm hs
  rcases hm with rfl | rfl | rfl | rfl | rfl
  · rfl
  · rfl
  · rfl
  · -- neither a sign nor a digit of base eight is the letter of a mark
    have table : ∀ c ∈ smallDigits ++ capitalDigits, digit c < 8 → c ≠ 'x' ∧ c ≠ 'X' ∧ c ≠ 'o' := by
      decide
    have letter := of_digit_lt table (first.trans (by decide)) first
    rcases hs with rfl | rfl | rfl
    · rfl
    · rfl
    · simp [magnitude?, letter]
  · rcases hs with rfl | rfl | rfl
    · rfl
    · rfl
    · by_cases zero : d = '0'
      · subst zero
        obtain ⟨-, rfl⟩ := cons.inj (unmarked rfl rfl rfl)
        rfl
      · simp [magnitude?, zero]

/-- **What is read without a minus sign** in front. -/
theorem magnitude?_eq_some_iff :
    magnitude? cs = some m ↔ IsConstant innerSigns cs m ∧ holds m = true := by
  constructor
  · intro h
    obtain ⟨mark, hm, rest, rfl, read, other⟩ : ∃ mark ∈ integerMarks, ∃ rest,
        mark.1 ++ rest = cs ∧ read? mark.2 rest = some m ∧
          (mark.1 = [] → ∀ c cs, rest ≠ '0' :: c :: cs) := by
      unfold magnitude? at h
      split at h
      · exact ⟨(['0', 'x'], 16), by simp [integerMarks], _, rfl, h, fun h => absurd h (by decide)⟩
      · exact ⟨(['0', 'X'], 16), by simp [integerMarks], _, rfl, h, fun h => absurd h (by decide)⟩
      · exact ⟨(['0', 'o'], 8), by simp [integerMarks], _, rfl, h, fun h => absurd h (by decide)⟩
      · exact ⟨(['0'], 8), by simp [integerMarks], _, rfl, h, fun h => absurd h (by decide)⟩
      · rename_i other
        exact ⟨([], 10), by simp [integerMarks], cs, rfl, h, fun _ => other⟩
    obtain ⟨sign, hs, digits, nonempty, valid, rfl, same, fits⟩ :=
      (read?_eq_some_iff (base_le_of_mem mark hm)).1 read
    refine ⟨⟨mark, hm, sign, hs, digits, nonempty, valid, fun unmarked unsigned first => ?_, rfl,
      same⟩, fits⟩
    obtain ⟨rest, rfl⟩ := head?_eq_some_iff.1 first
    cases rest with
    | nil => rfl
    | cons c rest => exact absurd (by rw [unsigned]; rfl) (other unmarked c rest)
  · rintro ⟨⟨mark, hm, sign, hs, digits, nonempty, valid, unmarked, rfl, same⟩, fits⟩
    rw [magnitude?_mark hm hs nonempty valid unmarked]
    exact (read?_eq_some_iff (base_le_of_mem mark hm)).2
      ⟨sign, hs, digits, nonempty, valid, rfl, same, fits⟩

theorem dropEndWhile_constant {signs : List (List Char)} {suffix : List Char}
    (h : IsConstant signs cs m) (suffixed : ∀ c ∈ suffix, isIntegerSuffix c = true) :
    dropEndWhile isIntegerSuffix (cs ++ suffix) = cs := by
  obtain ⟨mark, hm, sign, -, digits, nonempty, valid, -, rfl, -⟩ := h
  refine dropEndWhile_append_of_all (fun c last => ?_) suffixed
  obtain ⟨d, last', digit⟩ := getLast?_append_digits (mark.1 ++ sign) nonempty valid
  rw [append_assoc] at last'
  obtain rfl := some.inj (last.symm.trans last')
  exact of_digit_lt (P := fun c => isIntegerSuffix c = false) (by decide)
    (digit.trans_le (base_le_of_mem mark hm))

theorem exists_suffix (cs : List Char) : ∃ suffix, (∀ c ∈ suffix, isIntegerSuffix c = true) ∧
    cs = dropEndWhile isIntegerSuffix cs ++ suffix :=
  ⟨_, fun _ hc => mem_takeWhile_imp (mem_reverse.1 hc),
    (dropEndWhile_append _ cs).symm⟩

end Chars

open Chars

/-! ## Integers -/

/-- The number behind a minus sign, if there is one. -/
def negatedIf (negative : Bool) (m : Int) : Int :=
  if negative then -m else m

/-- Whether a number fits, and its opposite where it is asked for. -/
def FitsNegated (negative : Bool) (m : Int) : Prop :=
  holds m = true ∧ (negative = true → m ≠ least)

theorem map_negate_eq_some_iff {m v : Int} :
    (negate m).map some = .ok (some v) ↔ m ≠ least ∧ -m = v := by
  unfold negate
  split
  · rename_i least
    exact ⟨fun h => (by cases h), fun h => absurd least h.1⟩
  · rename_i other
    exact ⟨fun h => ⟨other, some.inj (Except.ok.inj h)⟩, fun h => by rw [h.2]; rfl⟩

/-- **The characters that are read as integers.** -/
theorem Chars.integerValue_eq_some_iff {text : List Char} {v : Int} :
    Chars.integerValue text = .ok (some v) ↔ ∃ negative m,
      IsInteger innerSigns text negative m ∧ FitsNegated negative m ∧ negatedIf negative m = v := by
  unfold Chars.integerValue IsInteger
  simp only [hasCore_iff]
  generalize trim ((parenthesized? (trim text)).getD (trim text)) = core
  constructor
  · intro h
    split at h
    · rename_i rest
      split at h
      · rename_i m found
        obtain ⟨opposite, rfl⟩ := map_negate_eq_some_iff.1 h
        obtain ⟨constant, fits⟩ := magnitude?_eq_some_iff.1 found
        obtain ⟨suffix, suffixed, split⟩ := exists_suffix (trim rest)
        exact ⟨true, m, ⟨_, _, suffix, rfl, constant, suffixed, rest, rfl, split⟩,
          ⟨fits, fun _ => opposite⟩, rfl⟩
      · cases h
    · rename_i plain
      obtain ⟨constant, fits⟩ := magnitude?_eq_some_iff.1 (Except.ok.inj h)
      obtain ⟨suffix, suffixed, split⟩ := exists_suffix core
      refine ⟨false, v, ⟨_, _, suffix, rfl, constant, suffixed, split, fun minus => ?_⟩,
        ⟨fits, fun h => absurd h (by decide)⟩, rfl⟩
      obtain ⟨rest, minus⟩ := head?_eq_some_iff.1 minus
      exact plain rest minus
  · rintro ⟨negative, m, ⟨_, cs, suffix, rfl, constant, suffixed, holds⟩, ⟨fits, opposite⟩, rfl⟩
    have read := magnitude?_eq_some_iff.2 ⟨constant, fits⟩
    have bare := dropEndWhile_constant constant suffixed
    cases negative with
    | true =>
      obtain ⟨rest, rfl, split⟩ := holds
      simp only [split, bare, read]
      exact map_negate_eq_some_iff.2 ⟨opposite rfl, rfl⟩
    | false =>
      obtain ⟨rfl, first⟩ := holds
      split
      · rename_i rest minus
        exact absurd (by rw [minus]; rfl) first
      · rw [bare, read]
        rfl

/-- **The texts that are read as integers.**  They hold a constant that fits, with blanks and one
pair of parentheses around it: a constant of C, except for the least number, or one with a second
sign in front of the digits. -/
theorem integers_read_iff (text : String) (v : Int) :
    (Literal.integerValue text = .ok (some v) ↔ ∃ negative m,
        IsInteger innerSigns text.toList negative m ∧ FitsNegated negative m ∧
          negatedIf negative m = v) ∧
      ∀ negative m, IsInteger [[]] text.toList negative m →
        IsInteger innerSigns text.toList negative m ∧
          (FitsNegated negative m ↔ Signed64.holds (negatedIf negative m) = true ∧
            negatedIf negative m ≠ Signed64.least) := by
  refine ⟨Chars.integerValue_eq_some_iff, fun negative m plain => ?_⟩
  obtain ⟨core, cs, suffix, inside, ⟨mark, hm, sign, hs, digits, written⟩, rest⟩ := plain
  obtain rfl := List.mem_singleton.1 hs
  refine ⟨⟨core, cs, suffix, inside, ⟨mark, hm, [], by decide, digits, written⟩, rest⟩, ?_⟩
  obtain ⟨-, -, -, -, rfl⟩ := written
  have natural : signedValue [] (numeral mark.2 digits) = (numeral mark.2 digits : Int) := rfl
  have holds_iff (i : Int) : Signed64.holds i = true ↔
      -9223372036854775808 ≤ i ∧ i ≤ 9223372036854775807 := by
    rw [Signed64.holds, Bool.and_eq_true, decide_eq_true_iff, decide_eq_true_iff]
    rfl
  rw [FitsNegated, holds_iff, holds_iff, natural, Signed64.least]
  cases negative with
  | true =>
    simp only [negatedIf, if_true, forall_const]
    omega
  | false =>
    simp only [negatedIf, Bool.false_eq_true, if_false, false_implies, and_true]
    omega

/-- **A second sign is read**, in front of the digits or behind the mark, and the least number is
not; the opposite of the least number ends the run. -/
theorem second_sign_is_read :
    Literal.integerValue "+5" = .ok (some 5) ∧ Literal.integerValue "0x-5" = .ok (some (-5)) ∧
      Literal.integerValue "(--5)" = .ok (some 5) ∧
      Literal.integerValue "-9223372036854775808" = .ok none ∧
      Literal.integerValue "--9223372036854775808" = .error .negation := by
  decide +kernel

end Ferric
