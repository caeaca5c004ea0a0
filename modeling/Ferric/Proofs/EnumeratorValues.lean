import Ferric.Proofs.Enumerators

/-!
# Values of enumerators

An enumerator without an explicit value counts on from the one before it.  The pass over the
enumerations does so with a running number, which the front end's value or the value of an explicit
text replaces.  In C's own terms no number runs: an enumerator has the value it is given, else the
value of the nearest enumerator before it that is given one, and one more for each step in between.

The pass asks for the number after every enumerator, also after the last one, where nothing takes
it.  So it ends early when an enumerator has the greatest number of 64 bits, although that number
fits.

## Main definitions

* `Enumeration.given?`: the value that an enumerator is given.
* `Enumeration.Assigned`: the value that C assigns to an enumerator.
* `Enumeration.numbers`: the running number.

## Main results

* `Enumeration.value_lines`: the constants are written with the running number.
* `Enumeration.getElem?_numbers`: the running number is the value that C assigns.
* `implicit_enumerators_follow`: what is written of an enumerator without an explicit value.
* `enumerations_finish_iff`: when the pass over the enumerations finishes.
* `greatest_enumerator_ends_run`: it does not after an enumerator with the greatest number.
-/

namespace Ferric

open Signed64 List

namespace Enumeration

variable {reg : Registry}

/-- The explicit text of an enumerator; there is none when it is empty. -/
def explicitText (reg : Registry) (constant : Node) : String :=
  (constant.emitExpression reg (Context.ofPhase .enums)).value

/-- **The value that an enumerator is given**: by the front end, else by its explicit text. -/
def given? (reg : Registry) (constant : Node) : Option Int :=
  constant.value.or ((Literal.integerValue (explicitText reg constant)).toOption.bind id)

/-- An enumerator that is given nothing. -/
structure IsImplicit (reg : Registry) (constant : Node) : Prop where
  text : explicitText reg constant = ""
  value : constant.value = none

/-- **The value that C assigns** to the enumerator with an index: its own if it is given one, else
that of the nearest enumerator before it that is given one, plus the distance; its index if there is
none. -/
inductive Assigned (reg : Registry) (constants : List Node) (i : Nat) : Int → Prop
  | own {constant : Node} {v : Int} (at_i : constants[i]? = some constant)
    (given : given? reg constant = some v) : Assigned reg constants i v
  | counted {constant : Node} {v : Int} {j : Nat} (before : j < i)
    (at_j : constants[j]? = some constant) (given : given? reg constant = some v)
    (between : ∀ k, j < k → k ≤ i → ∃ d, constants[k]? = some d ∧ IsImplicit reg d) :
    Assigned reg constants i (v + (i - j : Nat))
  | index (all : ∀ k ≤ i, ∃ d, constants[k]? = some d ∧ IsImplicit reg d) :
    Assigned reg constants i i

/-! ## The running number -/

/-- **The running number**: what is due next, unless a value is given. -/
def numbers : Int → List (Option Int) → List Int
  | _, [] => []
  | due, given :: rest => given.getD due :: numbers (given.getD due + 1) rest

theorem length_numbers (due : Int) (givens : List (Option Int)) :
    (numbers due givens).length = givens.length := by
  induction givens generalizing due with
  | nil => rfl
  | cons given rest ih => simp [numbers, ih]

/-- After a given value the number runs on from it, whatever came before. -/
theorem getElem?_numbers_of_given {due v : Int} {givens : List (Option Int)} {j : Nat}
    (h : givens[j]? = some (some v)) (m : Nat) :
    (numbers due givens)[j + m]? = (numbers v (none :: givens.drop (j + 1)))[m]? := by
  induction givens generalizing due j with
  | nil => simp at h
  | cons given rest ih =>
    cases j with
    | zero =>
      obtain rfl : given = some v := by simpa using h
      simp [numbers]
    | succ j =>
      rw [Nat.add_right_comm, numbers, getElem?_cons_succ, drop_succ_cons]
      exact ih (by simpa using h)

/-- As long as nothing is given, the number counts. -/
theorem getElem?_numbers_of_none {due : Int} {givens : List (Option Int)} {i : Nat}
    (h : ∀ k ≤ i, givens[k]? = some none) : (numbers due givens)[i]? = some (due + i) := by
  induction givens generalizing due i with
  | nil => cases h 0 (Nat.zero_le i)
  | cons given rest ih =>
    obtain rfl : given = none := by simpa using h 0 (Nat.zero_le i)
    cases i with
    | zero => simp [numbers]
    | succ i =>
      have later : ∀ k ≤ i, rest[k]? = some none := fun k hk => by
        simpa using h (k + 1) (Nat.succ_le_succ hk)
      have sum : due + 1 + i = due + (i + 1 : Nat) := by omega
      rw [numbers, getElem?_cons_succ, Option.getD_none, ih later, sum]

/-! ## Lines -/

/-- Nothing is given to an enumerator that has neither a text nor a value. -/
theorem IsImplicit.given?_eq {constant : Node} (h : IsImplicit reg constant) :
    given? reg constant = none := by
  rw [given?, h.value, h.text]
  rfl

theorem eq_getD_of_number {constant : Node} {due n : Int}
    (h : number constant (explicitText reg constant) due = .ok n) :
    n = (given? reg constant).getD due := by
  unfold number at h
  unfold given?
  cases own : constant.value with
  | some v =>
    rw [own] at h
    cases h
    rfl
  | none =>
    rw [own] at h
    cases read : Literal.integerValue (explicitText reg constant) with
    | error fault =>
      rw [read] at h
      cases h
    | ok v? =>
      rw [read] at h
      cases h
      rfl

/-- One more than a number that has a next one. -/
theorem eq_add_one_of_next {n m : Int} (h : Signed64.next n = .ok m) : m = n + 1 := by
  unfold Signed64.next at h
  split at h
  · cases h
  · cases h
    rfl

/-- **The constants are written with the running number**, where there is no explicit text. -/
theorem value_lines {due : Int} {constants : List Node} {texts : Logged (List String)}
    (h : lines reg due constants = .ok texts) :
    texts.value = zipWith (fun c n => line c (explicitText reg c) n) constants
      (numbers due (constants.map (given? reg))) := by
  induction constants generalizing due texts with
  | nil =>
    cases h
    rfl
  | cons constant rest ih =>
    rw [lines] at h
    obtain ⟨n, numbered, h⟩ := exists_of_bind_eq_ok h
    obtain ⟨next, counted, h⟩ := exists_of_bind_eq_ok h
    obtain ⟨others, written, h⟩ := exists_of_bind_eq_ok h
    cases h
    obtain rfl := eq_getD_of_number numbered
    obtain rfl := eq_add_one_of_next counted
    rw [map_cons, numbers, zipWith_cons_cons, ← ih written]
    rfl

/-! ## The value that C assigns -/

section Assigned

variable {constants : List Node} {i : Nat} {v w : Int}

theorem getElem?_given_of_isImplicit {k : Nat}
    (h : ∃ d, constants[k]? = some d ∧ IsImplicit reg d) :
    (constants.map (given? reg))[k]? = some none := by
  obtain ⟨d, at_k, implicit⟩ := h
  rw [getElem?_map, at_k, Option.map_some, implicit.given?_eq]

/-- **The running number is the value that C assigns.** -/
theorem getElem?_numbers (h : Assigned reg constants i v) :
    (numbers 0 (constants.map (given? reg)))[i]? = some v := by
  cases h with
  | own at_i given =>
    have here : (constants.map (given? reg))[i]? = some (some v) := by
      rw [getElem?_map, at_i, Option.map_some, given]
    exact (getElem?_numbers_of_given here 0).trans rfl
  | @counted constant v j before at_j given between =>
    have there : (constants.map (given? reg))[j]? = some (some v) := by
      rw [getElem?_map, at_j, Option.map_some, given]
    obtain ⟨m, rfl⟩ := Nat.exists_eq_add_of_lt before
    -- the enumerators from the next one on are given nothing, up to this one
    have rest : ∀ k ≤ m + 1,
        (none :: (constants.map (given? reg)).drop (j + 1))[k]? = some none := by
      intro k hk
      cases k with
      | zero => rfl
      | succ k =>
        rw [getElem?_cons_succ, getElem?_drop]
        exact getElem?_given_of_isImplicit (between (j + 1 + k) (by omega) (by omega))
    rw [Nat.add_assoc, getElem?_numbers_of_given there, getElem?_numbers_of_none rest,
      Nat.add_sub_cancel_left]
  | index all =>
    rw [getElem?_numbers_of_none fun k hk => getElem?_given_of_isImplicit (all k hk), Int.zero_add]

/-- C assigns one value. -/
theorem Assigned.unique (hv : Assigned reg constants i v) (hw : Assigned reg constants i w) :
    v = w :=
  Option.some.inj ((getElem?_numbers hv).symm.trans (getElem?_numbers hw))

/-- An enumerator that is given nothing comes after the one before it. -/
theorem Assigned.succ (h : Assigned reg constants i v)
    (next : ∃ d, constants[i + 1]? = some d ∧ IsImplicit reg d) :
    Assigned reg constants (i + 1) (v + 1) := by
  cases h with
  | own at_i given =>
    have one : v + 1 = v + (i + 1 - i : Nat) := by omega
    rw [one]
    refine .counted (Nat.lt_succ_self i) at_i given fun k above upto => ?_
    obtain rfl : k = i + 1 := by omega
    exact next
  | @counted constant v j before at_j given between =>
    have more : v + (i - j : Nat) + 1 = v + (i + 1 - j : Nat) := by omega
    rw [more]
    refine .counted (Nat.lt_succ_of_lt before) at_j given fun k above upto => ?_
    rcases Nat.le_succ_iff.1 upto with upto | rfl
    · exact between k above upto
    · exact next
  | index all =>
    refine .index fun k upto => ?_
    rcases Nat.le_succ_iff.1 upto with upto | rfl
    · exact all k upto
    · exact next

/-- An enumerator is given a value or nothing, as long as each explicit text gives one. -/
theorem given_or_isImplicit
    (known : ∀ c ∈ constants, explicitText reg c ≠ "" → given? reg c ≠ none)
    (bound : i < constants.length) :
    (∃ c v, constants[i]? = some c ∧ given? reg c = some v) ∨
      ∃ d, constants[i]? = some d ∧ IsImplicit reg d := by
  have here := getElem?_eq_getElem bound
  cases given : given? reg constants[i] with
  | some v => exact .inl ⟨_, v, here, given⟩
  | none =>
    have text : explicitText reg constants[i] = "" :=
      Decidable.by_contra fun some => known _ (getElem_mem bound) some given
    exact .inr ⟨_, here, text, (Option.or_eq_none_iff.1 given).1⟩

/-- **C assigns a value to every enumerator**, as long as each explicit text gives one. -/
theorem exists_assigned (known : ∀ c ∈ constants, explicitText reg c ≠ "" → given? reg c ≠ none)
    (bound : i < constants.length) : ∃ v, Assigned reg constants i v := by
  induction i with
  | zero =>
    rcases given_or_isImplicit known bound with ⟨c, v, here, given⟩ | implicit
    · exact ⟨v, .own here given⟩
    · refine ⟨_, .index fun k upto => ?_⟩
      obtain rfl := Nat.le_zero.1 upto
      exact implicit
  | succ i ih =>
    rcases given_or_isImplicit known bound with ⟨c, v, here, given⟩ | implicit
    · exact ⟨v, .own here given⟩
    · obtain ⟨v, before⟩ := ih (Nat.lt_of_succ_lt bound)
      exact ⟨v + 1, before.succ implicit⟩

end Assigned

/-- A block is written of every enumeration that is put into a buffer, with its constants. -/
theorem mem_blocks {policy : Policy} {root : Node} {written : Logged (List Block)}
    (finished : blocks policy reg root = .ok written) {v : Visit} (declared : v ∈ visits root)
    {buffer : String} (placed : policy.buffer? (.enum v.tagName) = some buffer) :
    ∃ texts, lines reg 0 (constants v.subject.node) = .ok texts ∧
      ⟨buffer, text texts.value⟩ ∈ written.value := by
  obtain ⟨value, known⟩ := value_blocksOf finished
  obtain ⟨texts, found⟩ := known v declared (by simp [placed])
  refine ⟨texts, found, ?_⟩
  rw [value, mem_filterMap]
  refine ⟨.enum v, mem_map_of_mem declared, ?_⟩
  rw [Declared.block?, Declared.subject, placed, Declared.text, found, Option.map_some]

end Enumeration

open Enumeration in
/-- **An enumerator without an explicit value follows the one before it.**  When the pass over the
enumerations finishes, and each explicit text of an enumeration that is put into a buffer gives its
enumerator a value, then the enumeration is written there with a line for each enumerator.  C
assigns one value to an enumerator without an explicit text, and its line has this value. -/
theorem implicit_enumerators_follow {policy : Policy} {reg : Registry} {root : Node}
    {written : Logged (List Block)} (finished : blocks policy reg root = .ok written)
    {v : Visit} (declared : v ∈ visits root) {buffer : String}
    (placed : policy.buffer? (.enum v.tagName) = some buffer)
    (known : ∀ c ∈ constants v.subject.node, explicitText reg c ≠ "" → given? reg c ≠ none) :
    ∃ lines, ⟨buffer, text lines⟩ ∈ written.value ∧
      lines.length = (constants v.subject.node).length ∧
      ∀ i c, (constants v.subject.node)[i]? = some c → explicitText reg c = "" →
        ∃ n, (∀ w, Assigned reg (constants v.subject.node) i w ↔ w = n) ∧
          lines[i]? =
            some ("const " ++ sanitize c.spelling ++ ": i32 = " ++ toString n ++ ";") := by
  obtain ⟨texts, found, mem⟩ := mem_blocks finished declared placed
  refine ⟨texts.value, mem, ?_, fun i c here blank => ?_⟩
  · rw [value_lines found, List.length_zipWith, length_numbers, List.length_map, Nat.min_self]
  · obtain ⟨n, assigned⟩ := exists_assigned known (List.getElem?_eq_some_iff.1 here).1
    refine ⟨n, fun w => ⟨fun h => h.unique assigned, fun h => h ▸ assigned⟩, ?_⟩
    rw [value_lines found, List.getElem?_zipWith, here, getElem?_numbers assigned]
    simp [line, blank]

/-- An enumeration that counts on from a constant and from the value of an expression. -/
def levels : Node :=
  let constant (name : String) (value : Option Int) (children : List Node) : Node :=
    { kind := .enumConstantDecl, spelling := name, value := value, children := children }
  { kind := .enumDecl, spelling := "level", children :=
    [constant "OFF" none [],
      constant "LOW" none [{ kind := .integerLiteral, tokens := ["0x10u"] }],
      { kind := .typeRef, type := .int true },
      constant "MID" none [],
      constant "TOP" (some (-3)) [{ kind := .declRefExpr, spelling := "base" }],
      constant "END" none [],
      constant "MAX" none []] }

open Enumeration in
theorem implicit_enumerators_follow_levels :
    let root : Node := { kind := .unit, children := [levels] }
    ∃ written, blocks (.single "out") {} root = .ok written ∧
      ∃ v ∈ visits root, Policy.buffer? (.single "out") (.enum v.tagName) = some "out" ∧
        (∀ c ∈ constants v.subject.node, explicitText {} c ≠ "" → given? {} c ≠ none) ∧
        ∃ lines, ⟨"out", text lines⟩ ∈ written.value ∧
          lines[0]? = some "const OFF: i32 = 0;" ∧ lines[2]? = some "const MID: i32 = 17;" ∧
          lines[5]? = some "const MAX: i32 = -1;" := by
  intro root
  obtain ⟨written, finished⟩ : ∃ written, blocks (.single "out") {} root = .ok written := ⟨_, rfl⟩
  obtain ⟨v, first, same⟩ : ∃ v, (visits root)[0]? = some v ∧ v.subject.node = levels :=
    ⟨_, rfl, rfl⟩
  have mem := List.mem_of_getElem? first
  have known : ∀ c ∈ constants v.subject.node, explicitText {} c ≠ "" → given? {} c ≠ none := by
    rw [same]
    decide +kernel
  have placed : Policy.buffer? (.single "out") (.enum v.tagName) = some "out" := rfl
  obtain ⟨lines, block, -, follows⟩ := implicit_enumerators_follow finished mem placed known
  rw [same] at follows
  refine ⟨written, finished, v, mem, placed, known, lines, block, ?_, ?_, ?_⟩
  · obtain ⟨n, only, line⟩ := follows 0 _ rfl rfl
    obtain rfl : (0 : Nat) = n := (only _).1 <| .index fun k upto => by
      obtain rfl := Nat.le_zero.1 upto
      exact ⟨_, rfl, rfl, rfl⟩
    exact line
  · obtain ⟨n, only, line⟩ := follows 2 _ rfl rfl
    obtain rfl : 16 + (2 - 1 : Nat) = n := (only _).1 <| .counted (j := 1) (by decide) rfl rfl
      fun k above upto => by
        obtain rfl : k = 2 := by omega
        exact ⟨_, rfl, rfl, rfl⟩
    exact line
  · obtain ⟨n, only, line⟩ := follows 5 _ rfl rfl
    obtain rfl : -3 + (5 - 3 : Nat) = n := (only _).1 <| .counted (j := 3) (by decide) rfl rfl
      fun k above upto => by
        obtain rfl | rfl : k = 4 ∨ k = 5 := by omega
        · exact ⟨_, rfl, rfl, rfl⟩
        · exact ⟨_, rfl, rfl, rfl⟩
    exact line

namespace Enumeration

variable {policy : Policy} {reg : Registry}

/-- **Enumerators whose values are known**: an explicit one carries the value of the front end. -/
def CarryValues (reg : Registry) (constants : List Node) : Prop :=
  ∀ c ∈ constants, explicitText reg c ≠ "" → c.value ≠ none

instance (constants : List Node) : Decidable (CarryValues reg constants) :=
  inferInstanceAs (Decidable (∀ c ∈ constants, explicitText reg c ≠ "" → c.value ≠ none))

/-- The number of such an enumerator is found, and it is what C says. -/
theorem number_eq_ok {constant : Node} (carries : explicitText reg constant ≠ "" →
    constant.value ≠ none) (due : Int) :
    number constant (explicitText reg constant) due = .ok ((given? reg constant).getD due) := by
  unfold number given?
  cases own : constant.value with
  | some v => rfl
  | none =>
    -- without a value of its own it has no text either, and no text has no value
    have blank : explicitText reg constant = "" :=
      Decidable.by_contra fun explicit => carries explicit own
    rw [blank]
    rfl

/-- The constants from an enumerator on: there are none when its number is the greatest one, even if
nothing follows. -/
theorem lines_cons {constant : Node} {rest : List Node} (carries : explicitText reg constant ≠ "" →
    constant.value ≠ none) (due : Int) :
    let n := (given? reg constant).getD due
    lines reg due (constant :: rest) =
      if n = greatest then .error .increment
      else (lines reg (n + 1) rest).map fun others => (do
        let text ← constant.emitExpression reg (Context.ofPhase .enums)
        let texts ← others
        pure (line constant text n :: texts)) := by
  intro n
  have numbered : number constant (constant.emitExpression reg (Context.ofPhase .enums)).value due =
      .ok n := number_eq_ok carries due
  rw [lines, numbered]
  show (next n >>= _) = _
  by_cases full : n = greatest
  · rw [if_pos full, show next n = .error .increment from if_pos full]
    rfl
  · rw [if_neg full, show next n = .ok (n + 1) from if_neg full]
    show (lines reg (n + 1) rest >>= _) = _
    cases lines reg (n + 1) rest <;> rfl

/-- **The constants are written unless the running number is the greatest one**; then the run ends
for the number after it. -/
theorem lines_eq_ok_or_error {constants : List Node} (carry : CarryValues reg constants)
    (due : Int) :
    (∃ texts, lines reg due constants = .ok texts) ∧
        greatest ∉ numbers due (constants.map (given? reg)) ∨
      lines reg due constants = .error .increment ∧
        greatest ∈ numbers due (constants.map (given? reg)) := by
  induction constants generalizing due with
  | nil => exact .inl ⟨⟨_, rfl⟩, not_mem_nil⟩
  | cons constant rest ih =>
    have later : CarryValues reg rest := fun c hc => carry c (mem_cons_of_mem _ hc)
    rw [lines_cons (carry constant mem_cons_self), map_cons, numbers, mem_cons]
    by_cases full : (given? reg constant).getD due = greatest
    · rw [if_pos full]
      exact .inr ⟨rfl, .inl full.symm⟩
    · rw [if_neg full]
      rcases ih later ((given? reg constant).getD due + 1) with
        ⟨⟨texts, written⟩, fits⟩ | ⟨ends, met⟩
      · rw [written]
        exact .inl ⟨⟨_, rfl⟩, not_or.2 ⟨Ne.symm full, fits⟩⟩
      · rw [ends]
        exact .inr ⟨rfl, .inr met⟩

/-- **The running numbers are the values that C assigns.** -/
theorem mem_numbers_iff {constants : List Node} (carry : CarryValues reg constants) {n : Int} :
    n ∈ numbers 0 (constants.map (given? reg)) ↔ ∃ i, Assigned reg constants i n := by
  constructor
  · intro h
    obtain ⟨i, bound, here⟩ := mem_iff_getElem.1 h
    rw [length_numbers, length_map] at bound
    have known : ∀ c ∈ constants, explicitText reg c ≠ "" → given? reg c ≠ none :=
      fun c hc explicit none => carry c hc explicit (Option.or_eq_none_iff.1 none).1
    obtain ⟨v, assigned⟩ := exists_assigned known bound
    have same : some n = some v := by
      rw [← getElem?_numbers assigned, ← here, getElem?_eq_getElem]
    exact ⟨i, Option.some.inj same ▸ assigned⟩
  · rintro ⟨i, assigned⟩
    exact mem_of_getElem? (getElem?_numbers assigned)

/-- The pass ends early only for what ends the constants of an enumeration early. -/
theorem exists_lines_eq_error {vs : List Visit} {fault : Overflow}
    (h : blocksOf policy reg vs = .error fault) :
    ∃ v ∈ vs, policy.buffer? (.enum v.tagName) ≠ none ∧
      lines reg 0 (constants v.subject.node) = .error fault := by
  induction vs with
  | nil => cases h
  | cons v vs ih =>
    rw [blocksOf] at h
    cases first : block? policy reg v with
    | ok b =>
      cases rest : blocksOf policy reg vs with
      | ok bs =>
        rw [first, rest] at h
        cases h
      | error fault' =>
        rw [first, rest] at h
        cases h
        obtain ⟨w, hw, ends⟩ := ih rest
        exact ⟨w, mem_cons_of_mem _ hw, ends⟩
    | error fault' =>
      rw [first] at h
      cases h
      refine ⟨v, mem_cons_self, ?_⟩
      have placed := Policy.value_placed? policy (.enum v.tagName)
      unfold block? at first
      cases answer : (placed? policy (.enum v.tagName)).value with
      | none =>
        simp only [answer] at first
        cases first
      | some p =>
        rw [answer, Option.map_some] at placed
        refine ⟨by simp [← placed], ?_⟩
        simp only [answer] at first
        cases texts : lines reg 0 (constants v.subject.node) with
        | ok lines =>
          rw [texts] at first
          cases first
        | error fault'' =>
          rw [texts] at first
          cases first
          rfl

end Enumeration

open Enumeration in
/-- **The pass over the enumerations finishes unless an enumerator has the greatest number.**  Let
every explicit enumerator of an enumeration that is put into a buffer carry the value of the front
end.  Then the pass finishes just when C assigns to none of their enumerators the greatest number of
64 bits; so it does whatever other values they have.  If it ends early, it is for the number after
the greatest one. -/
theorem enumerations_finish_iff {policy : Policy} {reg : Registry} {root : Node}
    (carry : ∀ v ∈ visits root, policy.buffer? (.enum v.tagName) ≠ none →
      CarryValues reg (constants v.subject.node)) :
    ((∃ written, blocks policy reg root = .ok written) ↔
        ∀ v ∈ visits root, policy.buffer? (.enum v.tagName) ≠ none →
          ∀ i n, Assigned reg (constants v.subject.node) i n → n ≠ Signed64.greatest) ∧
      ∀ fault, blocks policy reg root = .error fault → fault = .increment := by
  refine ⟨exists_blocksOf_iff.trans (forall₂_congr fun v hv => forall_congr' fun placed => ?_),
    fun fault ends => ?_⟩
  · have values := mem_numbers_iff (carry v hv placed) (n := Signed64.greatest)
    rcases lines_eq_ok_or_error (carry v hv placed) 0 with ⟨written, fits⟩ | ⟨ends, met⟩
    · refine ⟨fun _ i n assigned full => fits (values.2 ⟨i, full ▸ assigned⟩), fun _ => written⟩
    · obtain ⟨i, assigned⟩ := values.1 met
      refine ⟨?_, fun fits => absurd rfl (fits i _ assigned)⟩
      rintro ⟨texts, written⟩
      cases ends.symm.trans written
  · obtain ⟨v, hv, placed, ends⟩ := exists_lines_eq_error ends
    rcases lines_eq_ok_or_error (carry v hv placed) 0 with ⟨⟨texts, written⟩, -⟩ | ⟨ends', -⟩
    · cases ends.symm.trans written
    · exact Except.error.inj (ends.symm.trans ends')

/-- A source with an enumeration from the least number to a given one:
`enum limit { LOW = MINIMUM, NEXT, TOP = MAXIMUM };` -/
def limitUnit (last : Int) : Node :=
  let constant (name : String) (value : Option Int) (children : List Node) : Node :=
    { kind := .enumConstantDecl, spelling := name, value := value, children := children }
  { kind := .unit, children :=
    [{ kind := .enumDecl, spelling := "limit", children :=
      [constant "LOW" (some least) [{ kind := .declRefExpr, spelling := "MINIMUM" }],
        constant "NEXT" none [],
        constant "TOP" (some last) [{ kind := .declRefExpr, spelling := "MAXIMUM" }]] }] }

open Enumeration in
theorem enumerations_finish_iff_limits :
    let root := limitUnit (Signed64.greatest - 1)
    (∀ v ∈ visits root, Policy.buffer? (.single "out") (.enum v.tagName) ≠ none →
        CarryValues {} (constants v.subject.node)) ∧
      ∃ written, blocks (.single "out") {} root = .ok written := by
  intro root
  have carry : ∀ v ∈ visits root, CarryValues {} (constants v.subject.node) := by decide +kernel
  have fits : ∀ v ∈ visits root,
      Signed64.greatest ∉ numbers 0 ((constants v.subject.node).map (given? {})) := by
    decide +kernel
  refine ⟨fun v hv _ => carry v hv,
    (enumerations_finish_iff fun v hv _ => carry v hv).1.2 fun v hv _ i n assigned full => ?_⟩
  exact fits v hv ((mem_numbers_iff (carry v hv)).2 ⟨i, full ▸ assigned⟩)

open Enumeration in
/-- **An enumerator with the greatest number ends the run**, although all values fit and nothing
counts on from it. -/
theorem greatest_enumerator_ends_run :
    let root := limitUnit Signed64.greatest
    (∀ v ∈ visits root, CarryValues {} (constants v.subject.node) ∧
        ∀ i n, Assigned {} (constants v.subject.node) i n → Signed64.holds n = true) ∧
      blocks (.single "out") {} root = .error .increment := by
  intro root
  have carry : ∀ v ∈ visits root, CarryValues {} (constants v.subject.node) := by decide +kernel
  have fit : ∀ v ∈ visits root,
      ∀ n ∈ numbers 0 ((constants v.subject.node).map (given? {})), Signed64.holds n = true := by
    decide +kernel
  refine ⟨fun v hv => ⟨carry v hv, fun i n assigned => ?_⟩, rfl⟩
  exact fit v hv n ((mem_numbers_iff (carry v hv)).2 ⟨i, assigned⟩)

end Ferric
