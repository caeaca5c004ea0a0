import Ferric.Text.Blank

/-!
# Lines of a text

A line ends at a line feed, and a carriage return right before that line feed belongs to the end
and not to the line.  A final line feed opens no further line.

## Main definitions

* `Chars.lines`: the lines of a text.
* `Chars.indented`: every line that is not blank, moved right by a number of levels.
* `Chars.raised`: a text that is indented already, moved right.
-/

namespace Ferric

namespace Chars

/-- The lines of a text, without their ends. -/
def lines : List Char → List (List Char)
  | [] => []
  | '\n' :: cs => [] :: lines cs
  | '\r' :: '\n' :: cs => [] :: lines cs
  | c :: cs =>
    match lines cs with
    | [] => [[c]]
    | line :: rest => (c :: line) :: rest

/-- The four spaces of one level. -/
def level : List Char :=
  [' ', ' ', ' ', ' ']

/-- One line at a given depth, with its line feed; a blank line is only the line feed. -/
def indentLine (depth : Nat) (line : List Char) : List Char :=
  if isBlankText line then ['\n']
  else (List.replicate depth level).flatten ++ line ++ ['\n']

/-- **Indentation**: the lines of a text, each moved right by `depth` levels. -/
def indented (depth : Nat) (cs : List Char) : List Char :=
  (lines cs).flatMap (indentLine depth)

/-- **A text moved right** by `depth` levels, except for its empty lines; `start` says whether it
begins at the start of a line. -/
def raised (depth : Nat) (start : Bool) : List Char → List Char
  | [] => []
  | c :: cs =>
    (if start && c != '\n' then (List.replicate depth level).flatten else []) ++
      c :: raised depth (c == '\n') cs

@[simp] theorem raised_zero (start : Bool) (cs : List Char) : raised 0 start cs = cs := by
  induction cs generalizing start with
  | nil => rfl
  | cons c cs ih => simp [raised, ih]

/-- The characters of a line are in the text, and none is a line feed. -/
theorem mem_of_mem_lines {cs line : List Char} {d : Char} (h : line ∈ lines cs) (hd : d ∈ line) :
    d ∈ cs ∧ d ≠ '\n' := by
  fun_induction lines cs generalizing line with
  | case1 => cases h
  | case2 cs ih | case3 cs ih =>
    rcases List.mem_cons.1 h with rfl | h
    · cases hd
    · simp [ih h hd]
  | case4 c cs feed _ none ih =>
    obtain rfl := List.mem_singleton.1 h
    obtain rfl := List.mem_singleton.1 hd
    exact ⟨List.mem_cons_self, feed⟩
  | case5 c cs feed _ first rest shape ih =>
    rw [shape] at ih
    rcases List.mem_cons.1 h with rfl | h
    · rcases List.mem_cons.1 hd with rfl | hd
      · exact ⟨List.mem_cons_self, feed⟩
      · simp [ih List.mem_cons_self hd]
    · simp [ih (List.mem_cons_of_mem _ h) hd]

variable (depth : Nat) {line : List Char} (rest : List Char)

theorem raised_append_feed (single : '\n' ∉ line) :
    raised depth false (line ++ '\n' :: rest) = line ++ '\n' :: raised depth true rest := by
  induction line with
  | nil => simp [raised]
  | cons c line ih =>
    rw [List.mem_cons, not_or] at single
    have other : (c == '\n') = false := beq_false_of_ne (Ne.symm single.1)
    simp [raised, other, ih single.2]

theorem raised_indentLine (d : Nat) (single : '\n' ∉ line) :
    raised depth true (indentLine d line ++ rest) =
      indentLine (depth + d) line ++ raised depth true rest := by
  unfold indentLine
  split
  · simp [raised]
  · rename_i visible
    -- the margin goes in front of the first character, which is no line feed
    have feedless : '\n' ∉ (List.replicate d level).flatten ++ line := by
      simpa [level] using single
    cases shape : (List.replicate d level).flatten ++ line with
    | nil =>
      obtain rfl := (List.append_eq_nil_iff.1 shape).2
      exact absurd rfl visible
    | cons c cs =>
      rw [shape, List.mem_cons, not_or] at feedless
      rw [← List.replicate_append_replicate, List.flatten_append, List.append_assoc _ _ line, shape]
      have other : (c == '\n') = false := beq_false_of_ne (Ne.symm feedless.1)
      simp [raised, other, bne, raised_append_feed depth rest feedless.2]

/-- **An indented text that is moved right is indented further.** -/
theorem raised_indented (d : Nat) (cs : List Char) :
    raised depth true (indented d cs ++ rest) =
      indented (depth + d) cs ++ raised depth true rest := by
  have single : ∀ line ∈ lines cs, '\n' ∉ line := fun line h feed =>
    (mem_of_mem_lines h feed).2 rfl
  unfold indented
  generalize lines cs = ls at single
  induction ls with
  | nil => rfl
  | cons line ls ih =>
    rw [List.flatMap_cons, List.append_assoc,
      raised_indentLine _ _ _ (single line List.mem_cons_self),
      ih fun l hl => single l (List.mem_cons_of_mem _ hl), List.flatMap_cons, List.append_assoc]

end Chars

namespace Text

/-- The lines of a text, without their ends. -/
def lines (s : String) : List String :=
  (Chars.lines s.toList).map String.ofList

/-- The lines of a text, each moved right by `depth` levels. -/
def indented (depth : Nat) (s : String) : String :=
  onChars (Chars.indented depth) s

@[simp] theorem toList_indented (depth : Nat) (s : String) :
    (indented depth s).toList = Chars.indented depth s.toList := by
  simp [indented]

/-- A text that is indented already, moved right by `depth` levels. -/
def raised (depth : Nat) (s : String) : String :=
  onChars (Chars.raised depth true) s

@[simp] theorem toList_raised (depth : Nat) (s : String) :
    (raised depth s).toList = Chars.raised depth true s.toList := by
  simp [raised]

@[simp] theorem raised_feed (depth : Nat) : raised depth "\n" = "\n" := by
  simp [raised, onChars, Chars.raised]

/-- **Indented texts that are moved right are indented further.** -/
theorem raised_join_indented (depth d : Nat) (ls : List String) (rest : String) :
    raised depth (String.join (ls.map (indented d)) ++ rest) =
      String.join (ls.map (indented (depth + d))) ++ raised depth rest := by
  induction ls with
  | nil => simp
  | cons l ls ih =>
    apply String.toList_inj.1
    simpa [Chars.raised_indented] using congrArg String.toList ih

end Text

end Ferric
