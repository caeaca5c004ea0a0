import Mathlib.Data.List.Basic
import Ferric.Proofs.Records.Lookup

/-!
# Histories and indentation of a writer

All buffers of a writer share one level of indentation, so what an operation writes depends on every
operation before it, whichever buffer that was addressed to.  A buffer holds the preamble and, in
order, what the operations addressed to it have written; the buffers stand in the order of their
first use.

Lines are moved right in two ways: a block moves the lines of its statements by one level, and a
writer moves what it writes by the level it stands at.  A block that is written at some level looks
as if its braces were written at that level and its statements one level further in.

## Main definitions

* `Action.buffer?`, `Action.fragment`: what an operation is addressed to, and what it writes.
* `Action.withPast`: the operations of a run, each with those before it.
* `BlockTree`, `BlockTree.placed`: statements in nested blocks, and their lines with their levels.

## Main results

* `buffers_hold_history`: the buffers after a run of any length.
* `block_levels_agree`: blocks and writers move lines alike, in nested blocks as well.
-/

namespace Ferric

open List

/-! ## The order of the buffers -/

/-- Which keys are known counts, and not their order. -/
theorem firstByFrom_congr {α κ : Type} [DecidableEq κ] {key : α → κ} {met met' : List κ}
    (same : ∀ k, k ∈ met ↔ k ∈ met') (as : List α) :
    firstByFrom key met as = firstByFrom key met' as := by
  induction as generalizing met met' with
  | nil => rfl
  | cons a as ih =>
    have next : ∀ k, k ∈ key a :: met ↔ k ∈ key a :: met' := by simp [same]
    rw [firstByFrom, firstByFrom, ih same, ih next]
    simp only [same]

namespace Output

theorem ids_append (o : Output) (buffer text : String) :
    (o.append buffer text).ids = if buffer ∈ o.ids then o.ids else o.ids ++ [buffer] := by
  unfold append ids
  induction o.buffers with
  | nil => rfl
  | cons b bs ih =>
    rw [appendTo]
    by_cases same : b.1 = buffer
    · simp [same]
    · have other : buffer ≠ b.1 := fun h => same h.symm
      simp only [beq_iff_eq, same, if_false, map_cons, ih, mem_cons, other, false_or]
      split <;> rfl

/-- **The buffers stand in the order of their first use.** -/
theorem ids_writeBlocks (o : Output) (bs : List Block) :
    (o.writeBlocks bs).ids = o.ids ++ firstByFrom id o.ids (bs.map (·.buffer)) := by
  induction bs generalizing o with
  | nil => exact (append_nil _).symm
  | cons b bs ih =>
    have rest := ih (o.append b.buffer b.text)
    rw [ids_append] at rest
    rw [map_cons, firstByFrom]
    by_cases known : b.buffer ∈ o.ids
    · rw [if_pos known] at rest
      rw [if_pos (by exact known)]
      exact rest
    · rw [if_neg known, append_assoc] at rest
      rw [if_neg (by exact known)]
      refine rest.trans (congrArg (o.ids ++ b.buffer :: ·) (firstByFrom_congr ?_ _))
      simp [or_comm]

end Output

/-! ## Operations and their past -/

namespace Action

/-- The buffer that an operation is addressed to. -/
def buffer? : Action → Option String
  | .indent | .outdent => none
  | .use buffer | .line buffer _ | .blank buffer | .raw buffer _ => some buffer

/-- **What an operation writes at a level**: lines that are not blank after four spaces for each
level. -/
def fragment (level : Nat) : Action → List Char
  | .indent | .outdent | .use _ => []
  | .line _ text => (Chars.lines text.toList).flatMap fun line =>
    if Chars.isBlankText line then ['\n'] else replicate (4 * level) ' ' ++ line ++ ['\n']
  | .blank _ => ['\n']
  | .raw _ text => text.toList

/-- **The operations of a run**, each with those before it. -/
def withPast (past : List Action) : List Action → List (List Action × Action)
  | [] => []
  | a :: as => (past, a) :: withPast (past ++ [a]) as

/-- **What a run writes to a buffer**: the fragments of the operations addressed to it, each at the
level that the operations before it have left. -/
def fragmentsFor (buffer : String) (as : List Action) : List Char :=
  ((withPast [] as).filter fun step => step.2.buffer? = some buffer).flatMap fun step =>
    step.2.fragment (levelAfterAll 0 step.1)

variable {level : Nat} {a : Action} {as : List Action} {buffer : String}

theorem indentLine_eq_spaces (level : Nat) (line : List Char) :
    Chars.indentLine level line =
      if Chars.isBlankText line then ['\n'] else replicate (4 * level) ' ' ++ line ++ ['\n'] := by
  have spaces : (replicate level Chars.level).flatten = replicate (4 * level) ' ' := by
    rw [show Chars.level = replicate 4 ' ' from rfl, flatten_replicate_replicate, Nat.mul_comm]
  rw [Chars.indentLine, spaces]

/-- An operation that is addressed to a buffer writes its fragment there. -/
theorem toList_block? (level : Nat) (a : Action) :
    (a.block? level).map (fun b => (b.buffer, b.text.toList)) =
      a.buffer?.map fun buffer => (buffer, a.fragment level) := by
  cases a with
  | line buffer text =>
    simp [block?, buffer?, fragment, Chars.indented, funext (indentLine_eq_spaces level)]
  | _ => simp [block?, buffer?, fragment]

theorem map_buffer_written (level : Nat) (as : List Action) :
    (written level as).map (·.buffer) = as.filterMap buffer? := by
  induction as generalizing level with
  | nil => rfl
  | cons a as ih =>
    have first : (a.block? level).toList.map (·.buffer) = a.buffer?.toList := by cases a <;> rfl
    rw [written, map_append, first, ih]
    cases addressed : a.buffer? <;> simp [addressed]

/-- What is written to a buffer after some operations, by induction on the operations that
follow. -/
theorem toList_join_textsFor_written (buffer : String) (past as : List Action) :
    (String.join (Block.textsFor buffer (written (levelAfterAll 0 past) as))).toList =
      ((withPast past as).filter fun step => step.2.buffer? = some buffer).flatMap fun step =>
        step.2.fragment (levelAfterAll 0 step.1) := by
  induction as generalizing past with
  | nil => rfl
  | cons a as ih =>
    have next : levelAfterAll 0 (past ++ [a]) = a.levelAfter (levelAfterAll 0 past) :=
      levelAfterAll_append 0 past [a]
    have rest := ih (past ++ [a])
    rw [next] at rest
    have here := toList_block? (levelAfterAll 0 past) a
    rw [withPast, written]
    cases block : a.block? (levelAfterAll 0 past) with
    | none =>
      rw [block, Option.map_none] at here
      have nowhere : a.buffer? = none := Option.map_eq_none_iff.1 here.symm
      rw [Option.toList_none, nil_append, filter_cons_of_neg (by simp [nowhere]), rest]
    | some b =>
      rw [block, Option.map_some] at here
      obtain ⟨id, addressed, same⟩ := Option.map_eq_some_iff.1 here.symm
      obtain ⟨rfl, text⟩ := Prod.mk.inj same
      by_cases this : b.buffer = buffer
      · rw [filter_cons_of_pos (by simp [addressed, this]), flatMap_cons, ← rest, text]
        simp [Block.textsFor, this]
      · rw [filter_cons_of_neg (by simp [addressed, this]), ← rest]
        simp [Block.textsFor, this]

end Action

open Ferric.Action

/-! ## Runs -/

/-- An operation leaves the buffers alone that it is not addressed to. -/
theorem Output.get?_act_of_ne (o : Output) {a : Action} {other : String}
    (elsewhere : a.buffer? ≠ some other) : (o.act a).get? other = o.get? other := by
  cases a with
  | indent | outdent => rfl
  | _ => exact o.get?_append_of_ne _ fun same => elsewhere (congrArg some same.symm)

/-- **A writer holds its history.**  After every run of operations on any buffers, in any order,
that starts without buffers:

* a buffer that operations were addressed to holds the preamble once and then, in order, what these
  operations have written, each at the level that all operations before it have left;
* that level counts the indentations less the opposite, as far as there are some to take back;
* other buffers are not there, and no operation changes a buffer that it is not addressed to;
* the buffers stand in the order of their first use, each once. -/
theorem buffers_hold_history (preamble : Option Preamble) (time : Timestamp) (as : List Action) :
    let run := (Output.fresh preamble time).acts
    (∀ buffer, (run as).get? buffer =
      if buffer ∈ as.filterMap Action.buffer? then
        some ((preamble.map (·.render time)).getD "" ++
          String.ofList (Action.fragmentsFor buffer as))
      else none) ∧
    (run as).level = Action.levelAfterAll 0 as ∧
    (∀ before a after other, as = before ++ a :: after → a.buffer? ≠ some other →
      (run (before ++ [a])).get? other = (run before).get? other) ∧
    (run as).ids = firstBy id (as.filterMap Action.buffer?) := by
  intro run
  have blocks : run as = { (Output.fresh preamble time).writeBlocks (Action.written 0 as) with
      level := Action.levelAfterAll 0 as } := Output.acts_eq _ as
  refine ⟨fun buffer => ?_, by rw [blocks], ?_, ?_⟩
  · have texts : (String.join (Block.textsFor buffer (Action.written 0 as))).toList =
        Action.fragmentsFor buffer as := Action.toList_join_textsFor_written buffer [] as
    have addressed : Block.textsFor buffer (Action.written 0 as) = [] ↔
        buffer ∉ as.filterMap Action.buffer? := by
      rw [← Action.map_buffer_written 0]
      simp [Block.textsFor, filter_eq_nil_iff]
    rw [blocks]
    show ((Output.fresh preamble time).writeBlocks (Action.written 0 as)).get? buffer = _
    rw [Output.get?_writeBlocks, ← texts, String.ofList_toList]
    by_cases used : buffer ∈ as.filterMap Action.buffer?
    · rw [if_pos used, if_neg fun none => addressed.1 none used]
      rfl
    · rw [if_neg used, if_pos (addressed.2 used)]
      rfl
  · rintro before a after other - elsewhere
    have last : run (before ++ [a]) = (run before).act a := Output.acts_append _ before [a]
    rw [last, Output.get?_act_of_ne _ elsewhere]
  · rw [blocks, ← Action.map_buffer_written 0]
    exact (Output.ids_writeBlocks _ _).trans (nil_append _)

/-- A run on two buffers that takes back more than it has indented. -/
def mixedRun : List Action :=
  [.use "b", .indent, .line "a" "x\n \ny", .outdent, .outdent, .indent, .line "b" "z"]

theorem buffers_hold_history_mixedRun :
    let run := (Output.fresh none ⟨0⟩).acts
    (run mixedRun).get? "a" = some "    x\n\n    y\n" ∧
      (run mixedRun).get? "b" = some "    z\n" ∧ (run mixedRun).get? "c" = none ∧
      (run (mixedRun.take 3)).get? "b" = (run (mixedRun.take 2)).get? "b" ∧
      (run mixedRun).ids = ["b", "a"] := by
  obtain ⟨contents, -, others, ids⟩ := buffers_hold_history none ⟨0⟩ mixedRun
  refine ⟨(contents "a").trans (by decide), (contents "b").trans (by decide),
    (contents "c").trans (by decide), ?_, ids.trans (by decide)⟩
  exact others (mixedRun.take 2) (.line "a" "x\n \ny") (mixedRun.drop 3) "b" rfl (by decide)

namespace Chars

variable {cs l : List Char}

/-! ## Lines without carriage returns -/

/-- The lines of a text without carriage returns hold no ends of lines. -/
theorem not_mem_of_mem_lines (plain : '\r' ∉ cs) (hl : l ∈ lines cs) : '\n' ∉ l ∧ '\r' ∉ l :=
  ⟨fun feed => (mem_of_mem_lines hl feed).2 rfl, fun mark => plain (mem_of_mem_lines hl mark).1⟩

def shifted (depth : Nat) (line : List Char) : List Char :=
  if isBlankText line then [] else (replicate depth level).flatten ++ line

theorem indentLine_eq (depth : Nat) (line : List Char) :
    indentLine depth line = shifted depth line ++ ['\n'] := by
  unfold indentLine shifted
  split <;> rfl

theorem mem_shifted {c : Char} {depth : Nat} (h : c ∈ shifted depth l) : c ∈ l ∨ c = ' ' := by
  unfold shifted at h
  split at h
  · simp at h
  · simp only [mem_append, mem_flatten, mem_replicate, level] at h
    rcases h with ⟨spaces, ⟨-, rfl⟩, hc⟩ | hc
    · simp at hc
      exact .inr hc
    · exact .inl hc

/-- **A line that is shifted and then indented is indented one level further.** -/
theorem indentLine_shifted (k : Nat) (line : List Char) :
    indentLine k (shifted 1 line) = indentLine (k + 1) line := by
  unfold shifted indentLine
  by_cases blank : isBlankText line = true
  · rw [if_pos blank, if_pos blank]
    rfl
  · have visible : isBlankText ((replicate 1 level).flatten ++ line) = false := by
      simp only [isBlankText, all_append]
      simp [isBlankText] at blank
      simp [blank]
    rw [if_neg blank, visible, if_neg blank, if_neg (by simp)]
    simp [replicate_succ']

theorem lines_indented_append (plain : '\r' ∉ cs) (depth : Nat) (rest : List Char) :
    lines (indented depth cs ++ rest) = (lines cs).map (shifted depth) ++ lines rest := by
  have single : ∀ l ∈ lines cs, '\n' ∉ shifted depth l ∧ '\r' ∉ shifted depth l := by
    intro l hl
    have none := not_mem_of_mem_lines plain hl
    exact ⟨fun h => (mem_shifted h).elim none.1 (by decide),
      fun h => (mem_shifted h).elim none.2 (by decide)⟩
  unfold indented
  generalize lines cs = ls at single
  induction ls with
  | nil => rfl
  | cons l ls ih =>
    have first := single l mem_cons_self
    rw [flatMap_cons, indentLine_eq, append_assoc, append_assoc, singleton_append,
      lines_append_feed first.1 fun last => first.2 (mem_of_getLast? last),
      ih fun k hk => single k (mem_cons_of_mem _ hk), map_cons, cons_append]

/-! ## Blocks at a level -/

/-- **The lines of a block at a level**: its braces at that level, with what stands in front of the
first, and the statements one level further in. -/
theorem indented_block {head : List Char} (single : '\n' ∉ head) {statements : List (List Char)}
    (plain : ∀ s ∈ statements, '\r' ∉ s) (k : Nat) :
    indented k (head ++ block statements) =
      indentLine k (head ++ ['\x7b']) ++ statements.flatMap (indented (k + 1)) ++
        indentLine k ['\x7d'] := by
  have inside : lines (statements.flatMap (indented 1) ++ ['\x7d']) =
      (statements.flatMap lines).map (shifted 1) ++ [['\x7d']] := by
    induction statements with
    | nil => rfl
    | cons s rest ih =>
      rw [flatMap_cons, append_assoc, lines_indented_append (plain s mem_cons_self),
        ih fun t ht => plain t (mem_cons_of_mem _ ht), flatMap_cons, map_append, append_assoc]
  have opening : head ++ block statements =
      (head ++ ['\x7b']) ++ '\n' :: (statements.flatMap (indented 1) ++ ['\x7d']) := by
    simp [block]
  have levels : ((statements.flatMap lines).map (shifted 1)).flatMap (indentLine k) =
      statements.flatMap (indented (k + 1)) := by
    simp only [flatMap_map, flatMap_assoc, indentLine_shifted]
    rfl
  rw [opening, indented, lines_append_feed (by simpa using single) (by simp), inside,
    flatMap_cons, flatMap_append, levels, flatMap_singleton, append_assoc]

/-- Indentation brings no carriage returns. -/
theorem not_mem_indented (plain : '\r' ∉ cs) (depth : Nat) : '\r' ∉ indented depth cs := by
  rw [indented, mem_flatMap]
  rintro ⟨l, hl, mem⟩
  rw [indentLine_eq, mem_append] at mem
  rcases mem with mem | mem
  · exact (mem_shifted mem).elim (not_mem_of_mem_lines plain hl).2 (by decide)
  · simp at mem

end Chars

open Chars

/-! ## Nested blocks -/

/-- **Statements in nested blocks**, each with what stands in front of its brace. -/
inductive BlockTree where
  | leaf (text : String)
  | block (head : String) (items : List BlockTree)

namespace BlockTree

mutual

def text : BlockTree → String
  | .leaf text => text
  | .block head items => head ++ Fragment.block (texts items)

def texts : List BlockTree → List String
  | [] => []
  | t :: ts => t.text :: texts ts

end

mutual

/-- **The lines of a tree**, each with its level: one more for each brace around it. -/
def placed (level : Nat) : BlockTree → List (Nat × List Char)
  | .leaf text => (lines text.toList).map (level, ·)
  | .block head items =>
    (level, head.toList ++ ['\x7b']) :: placedAll (level + 1) items ++ [(level, ['\x7d'])]

/-- The lines of several trees. -/
def placedAll (level : Nat) : List BlockTree → List (Nat × List Char)
  | [] => []
  | t :: ts => t.placed level ++ placedAll level ts

end

/-- There are no carriage returns in the tree, and what stands in front of a brace is one line. -/
inductive IsPlain : BlockTree → Prop where
  | leaf {text : String} : '\r' ∉ text.toList → IsPlain (.leaf text)
  | block {head : String} {items : List BlockTree} : '\r' ∉ head.toList → '\n' ∉ head.toList →
      (∀ t ∈ items, IsPlain t) → IsPlain (.block head items)

variable {t : BlockTree} {items : List BlockTree}

theorem texts_eq_map (items : List BlockTree) : texts items = items.map text := by
  induction items with
  | nil => rfl
  | cons t ts ih => rw [texts, ih, map_cons]

theorem placedAll_eq_flatMap (level : Nat) (items : List BlockTree) :
    placedAll level items = items.flatMap (placed level) := by
  induction items with
  | nil => rfl
  | cons t ts ih => rw [placedAll, ih, flatMap_cons]

theorem toList_text_block (head : String) (items : List BlockTree) :
    (block head items).text.toList =
      head.toList ++ Chars.block (items.map fun t => t.text.toList) := by
  rw [text, texts_eq_map, Fragment.block, String.toList_append, String.toList_ofList, map_map]
  rfl

theorem IsPlain.not_mem_text (h : t.IsPlain) : '\r' ∉ t.text.toList := by
  induction h with
  | leaf plain => exact plain
  | block plain single _ ih =>
    rw [toList_text_block, Chars.block]
    simp only [mem_append, mem_cons, mem_flatMap, mem_map, not_mem_nil, or_false, not_or]
    refine ⟨plain, ⟨by decide, by decide, ?_⟩, by decide⟩
    rintro ⟨_, ⟨t, ht, rfl⟩, mem⟩
    exact not_mem_indented (ih t ht) 1 mem

/-- **Every line of a tree is indented by its level**, by induction on the tree. -/
theorem IsPlain.indented_text (h : t.IsPlain) (k : Nat) :
    indented k t.text.toList =
      (t.placed k).flatMap fun line => indentLine line.1 line.2 := by
  induction h generalizing k with
  | leaf plain => rw [placed, flatMap_map, text, indented]
  | @block head items _ single each ih =>
    have plain : ∀ s ∈ items.map fun t => t.text.toList, '\r' ∉ s := by
      intro s hs
      obtain ⟨t, ht, rfl⟩ := mem_map.1 hs
      exact (each t ht).not_mem_text
    rw [toList_text_block, indented_block single plain, placed, placedAll_eq_flatMap,
      cons_append, flatMap_cons, flatMap_append, flatMap_assoc, flatMap_map, flatMap_singleton,
      append_assoc]
    congr 2
    exact flatMap_congr fun t ht => ih t ht (k + 1)

end BlockTree

/-! ## Blocks and writers -/

/-- The operations for a block: its braces, and its statements one level further in. -/
def Action.bracedLines (buffer : String) (statements : List String) : List Action :=
  [.line buffer "\x7b", .indent] ++ statements.map (.line buffer) ++
    [.outdent, .line buffer "\x7d"]

theorem Output.acts_bracedLines (o : Output) (buffer : String) {statements : List String}
    (plain : ∀ s ∈ statements, '\r' ∉ s.toList) :
    o.acts (bracedLines buffer statements) =
      o.writeLine buffer (Fragment.block statements) := by
  have written : written o.level (bracedLines buffer statements) =
      (Text.indented o.level "\x7b" :: (statements.map (Text.indented (o.level + 1)) ++
        [Text.indented o.level "\x7d"])).map (Block.mk buffer) := by
    simp only [bracedLines, written_append, levelAfterAll_append]
    rw [levelAfterAll_lines]
    have inside := written_lines (o.level + 1) buffer statements
    simp only [map_cons, map_append, map_map]
    exact congrArg (_ :: · ++ _) inside
  have level : levelAfterAll o.level (bracedLines buffer statements) = o.level := by
    rw [bracedLines, levelAfterAll_append, levelAfterAll_append,
      levelAfterAll_lines]
    rfl
  have text : String.join (Text.indented o.level "\x7b" ::
      (statements.map (Text.indented (o.level + 1)) ++ [Text.indented o.level "\x7d"])) =
        Text.indented o.level (Fragment.block statements) := by
    have block : indented o.level ([] ++ block (statements.map String.toList)) = _ :=
      indented_block (by simp) (by simpa using plain) o.level
    apply String.toList_inj.1
    rw [Text.toList_indented, Fragment.block, String.toList_ofList, ← nil_append (Chars.block _),
      block]
    have opening : lines ['\x7b'] = [['\x7b']] := rfl
    have closing : lines ['\x7d'] = [['\x7d']] := rfl
    simp [flatMap_map, indented, opening, closing]
  rw [acts_eq, written, writeBlocks_map, text, level]
  rfl

/-- **Blocks and writers move lines alike.**

* For statements without carriage returns, at every level and for every buffer, writing their block
  does the same as writing an opening brace, each statement one level further in, and a closing
  brace.
* In blocks nested in any way, with anything in front of the braces, each line is indented by four
  spaces for each brace around it, besides the level of the writer. -/
theorem block_levels_agree :
    (∀ (statements : List String), (∀ s ∈ statements, '\r' ∉ s.toList) →
      ∀ (o : Output) (buffer : String),
        o.writeLine buffer (Fragment.block statements) =
          o.acts (Action.bracedLines buffer statements)) ∧
    ∀ t : BlockTree, t.IsPlain → ∀ k,
      (Text.indented k t.text).toList =
        (t.placed k).flatMap fun line => Chars.indentLine line.1 line.2 := by
  refine ⟨fun statements plain o buffer => (o.acts_bracedLines buffer plain).symm, ?_⟩
  intro t plain k
  rw [Text.toList_indented]
  exact plain.indented_text k

/-- A block in a loop, after a blank line. -/
def nestedTree : BlockTree :=
  .block "loop " [.leaf "a;\n \nb;", .block "" [.leaf "c;"]]

theorem block_levels_agree_nested :
    nestedTree.IsPlain ∧
      (Text.indented 1 nestedTree.text).toList =
        "    loop \x7b\n        a;\n\n        b;\n        \x7b\n            c;\n".toList ++
          "        \x7d\n    \x7d\n".toList ∧
      (Output.fresh none ⟨0⟩).writeLine "out" (Fragment.block ["a;", "b;\n \n"]) =
        (Output.fresh none ⟨0⟩).acts [.line "out" "\x7b", .indent, .line "out" "a;",
          .line "out" "b;\n \n", .outdent, .line "out" "\x7d"] := by
  have plain : nestedTree.IsPlain := by
    refine .block (by decide) (by decide) (forall_mem_cons.2 ⟨.leaf (by decide), ?_⟩)
    refine forall_mem_cons.2 ⟨.block (by decide) (by decide) ?_, by simp⟩
    exact forall_mem_cons.2 ⟨.leaf (by decide), by simp⟩
  refine ⟨plain, ?_, block_levels_agree.1 _ (by decide) _ "out"⟩
  rw [block_levels_agree.2 _ plain 1]
  decide

end Ferric
