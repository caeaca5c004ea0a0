import Ferric.Workspace

/-!
# Files in a directory

A plain file name makes one step, down from where a directory leads.  So a path that is made of a
directory and a plain file name leads to a place in this directory, whatever the directory is
called.  Writing there changes one file, and making directories changes none.

## Main definitions

* `IsFileName`: names that make one step down.
* `Workspace.placeOf`: where a directory leads.

## Main results

* `Path.segments_join`: a file name is the last segment.
* `Workspace.locate_join`: a file name leads down from its directory.
* `Workspace.file?_put`, `Workspace.files_makeDirectories`: what is changed.
-/

namespace Ferric

/-- **A plain file name**: no separator, and no name that stands for a directory. -/
structure IsFileName (name : String) : Prop where
  slashless : '/' ∉ name.toList
  ne_empty : name ≠ ""
  ne_here : name ≠ "."
  ne_up : name ≠ ".."

instance (name : String) : Decidable (IsFileName name) :=
  decidable_of_iff ('/' ∉ name.toList ∧ name ≠ "" ∧ name ≠ "." ∧ name ≠ "..")
    ⟨fun h => ⟨h.1, h.2.1, h.2.2.1, h.2.2.2⟩,
      fun h => ⟨h.slashless, h.ne_empty, h.ne_here, h.ne_up⟩⟩

/-! ## Segments -/

namespace Chars

/-- A text without separators is one piece. -/
theorem split_of_not_mem {separator : Char} {cs : List Char} (h : separator ∉ cs) :
    split separator cs = [cs] := by
  induction cs with
  | nil => rfl
  | cons c cs ih =>
    rw [List.mem_cons, not_or] at h
    rw [split, if_neg (Ne.symm h.1), ih h.2]

/-- At a separator the pieces fall apart. -/
theorem split_append_separator (separator : Char) (as bs : List Char) :
    split separator (as ++ separator :: bs) = split separator as ++ split separator bs := by
  induction as with
  | nil => simp [split]
  | cons a as ih =>
    rw [List.cons_append, split, split, ih]
    split
    · rfl
    · cases pieces : split separator as with
      | nil => exact absurd pieces (split_ne_nil separator as)
      | cons piece pieces => rfl

end Chars

namespace Path

variable {base : Path} {name : String}

theorem isAbsolute_eq (p : Path) : p.isAbsolute = (p.text.toList.head? == some '/') := by
  rw [isAbsolute, Text.startsWith]
  cases p.text.toList with
  | nil => rfl
  | cons c cs => simp [List.isPrefixOf, Bool.beq_comm]

theorem not_isAbsolute_of_slashless (h : '/' ∉ name.toList) :
    (Path.mk name).isAbsolute = false := by
  rw [isAbsolute_eq, beq_eq_false_iff_ne]
  exact fun first => h (List.mem_of_mem_head? first)

/-- The text of a file in a directory: there is a slash between the two, unless the directory is
empty. -/
theorem toList_text_join (h : '/' ∉ name.toList) :
    ((base.join ⟨name⟩).text.toList = name.toList ∧ base.text.toList = []) ∨
      ∃ start, (base.join ⟨name⟩).text.toList = start ++ '/' :: name.toList ∧
        (base.text.toList = start ∧ start ≠ [] ∨ base.text.toList = start ++ ['/']) := by
  rw [join, if_neg (by simp [not_isAbsolute_of_slashless h])]
  by_cases empty : base.text = ""
  · exact .inl (by simp [empty])
  · refine .inr ?_
    by_cases closed : Text.endsWith base.text "/" = true
    · obtain ⟨start, ends⟩ := List.isSuffixOf_iff_suffix.1 closed
      have ends : base.text.toList = start ++ ['/'] := ends.symm
      exact ⟨start, by simp [closed, ends], .inr ends⟩
    · exact ⟨base.text.toList, by simp [empty, closed], .inl ⟨rfl, by simpa using empty⟩⟩

/-- **A file name is the last segment** of its path; those before it are the ones of the directory,
up to an empty one at the end. -/
theorem segments_join (base : Path) (h : '/' ∉ name.toList) :
    (base.join ⟨name⟩).isAbsolute = base.isAbsolute ∧
      ∃ start, (base.join ⟨name⟩).segments = start ++ [name] ∧
        (base.segments = start ∨ base.segments = start ++ [""]) := by
  have piece : Chars.split '/' name.toList = [name.toList] := Chars.split_of_not_mem h
  rw [isAbsolute_eq, isAbsolute_eq, segments, segments]
  rcases toList_text_join h with ⟨text, empty⟩ | ⟨start, text, ⟨dir, some⟩ | dir⟩
  · rw [text, empty, piece]
    refine ⟨?_, [], by simp, .inr (by simp [Chars.split])⟩
    simpa [isAbsolute_eq] using not_isAbsolute_of_slashless h
  · rw [text, dir, Chars.split_append_separator, piece]
    refine ⟨?_, _, by simp, .inl rfl⟩
    cases start with
    | nil => exact absurd rfl some
    | cons c cs => rfl
  · rw [text, dir, Chars.split_append_separator, Chars.split_append_separator, piece]
    refine ⟨?_, (Chars.split '/' start).map String.ofList, by simp, .inr (by simp [Chars.split])⟩
    cases start <;> rfl

end Path

/-! ## Places -/

namespace Workspace

variable {w : Workspace} {base : Path} {name : String} {place other : Place}

/-- Where a directory leads; the empty path is the current directory. -/
def placeOf (w : Workspace) (directory : Path) : Except FileFault Place :=
  w.follow directory.isAbsolute directory.segments

theorem step_eq_ok_of_isFileName {start : Place} (h : IsFileName name)
    (stepped : w.step start name = .ok place) :
    w.isDirectory start = true ∧ place = start.down name := by
  unfold step at stepped
  split at stepped
  · cases stepped
  · rename_i isDir
    refine ⟨by simpa using isDir, ?_⟩
    rw [if_neg (by simp [Path.isIdle, h.ne_empty, h.ne_here]),
      if_neg (by simp [h.ne_up])] at stepped
    split at stepped
    · cases stepped
    · exact (Except.ok.inj stepped).symm

/-- **A file name leads down from its directory.** -/
theorem locate_join (h : IsFileName name) (located : w.locate (base.join ⟨name⟩) = .ok place) :
    ∃ directory, w.placeOf base = .ok directory ∧ place = directory.down name := by
  obtain ⟨absolute, start, segments, dir⟩ := Path.segments_join base h.slashless
  unfold locate at located
  iterate 3
    split at located
    · cases located
  -- the steps of the directory come first, and then the one of the name
  rw [absolute, segments, follow, List.foldlM_append] at located
  cases followed : start.foldlM w.step (if base.isAbsolute then { anchor := .root } else {}) with
  | error fault =>
    rw [followed] at located
    cases located
  | ok directory =>
    rw [followed] at located
    have stepped : (w.step directory name >>= pure) = .ok place := located
    rw [bind_pure] at stepped
    obtain ⟨isDir, rfl⟩ := step_eq_ok_of_isFileName h stepped
    refine ⟨directory, ?_, rfl⟩
    rw [placeOf, follow]
    rcases dir with dir | dir
    · rw [dir, followed]
    · -- a slash at the end makes no step, but asks for a directory
      rw [dir, List.foldlM_append, followed]
      show (w.step directory "" >>= pure) = _
      rw [bind_pure, step, if_neg (by simp [isDir]), if_pos (by decide)]

/-! ## Changes -/

theorem lookup_filter_ne {files : List (Place × List Nat)} :
    (files.filter (·.1 != place)).lookup other =
      if other = place then none else files.lookup other := by
  induction files with
  | nil => simp
  | cons file files ih =>
    by_cases here : file.1 = place
    · rw [List.filter_cons_of_neg (by simpa using here), ih, List.lookup_cons]
      by_cases same : other = place
      · simp [same]
      · have ne : (other == file.1) = false := by simpa [here] using same
        simp [same, ne]
    · rw [List.filter_cons_of_pos (by simpa using here), List.lookup_cons, List.lookup_cons, ih]
      by_cases same : other = place
      · have ne : (place == file.1) = false := by simpa using Ne.symm here
        simp [same, ne]
      · simp [same]

/-- **Writing a file changes this file alone.** -/
theorem file?_put (w : Workspace) (h : place ≠ emptyFile) (content : List Nat) :
    (w.put place content).file? other = if other = place then some content else w.file? other := by
  rw [file?, file?, put, List.lookup_append, lookup_filter_ne]
  by_cases same : other = place
  · simp [same, h]
  · have ne : (other == place) = false := by simpa using same
    simp [same, ne, List.lookup_cons]

variable {w' : Workspace} {p : Path}

theorem isDirectory_congr (h : w'.directories = w.directories) (p : Place) :
    w'.isDirectory p = w.isDirectory p := by
  rw [isDirectory, isDirectory, h]

theorem step_congr (h : w'.directories = w.directories) {start : Place} {segment : String}
    (stepped : w.step start segment = .ok place) : w'.step start segment = .ok place := by
  unfold step at stepped ⊢
  rw [isDirectory_congr h]
  split at stepped
  · cases stepped
  · rename_i isDir
    rw [if_neg isDir]
    exact stepped

/-- Where paths lead is a matter of the directories alone. -/
theorem placeOf_congr (h : w'.directories = w.directories) (leads : w.placeOf base = .ok place) :
    w'.placeOf base = .ok place := by
  have followed : ∀ (segments : List String) (start : Place),
      segments.foldlM w.step start = .ok place → segments.foldlM w'.step start = .ok place := by
    intro segments
    induction segments with
    | nil => exact fun _ h => h
    | cons segment segments ih =>
      intro start leads
      rw [List.foldlM_cons] at leads ⊢
      cases stepped : w.step start segment with
      | error fault =>
        rw [stepped] at leads
        cases leads
      | ok next =>
        rw [stepped] at leads
        rw [step_congr h stepped]
        exact ih next leads
  exact followed _ _ leads

theorem files_makeDirectory (h : w.makeDirectory p = .ok w') : w'.files = w.files := by
  simp only [makeDirectory, bind, Except.bind] at h
  split at h
  · cases h
  · split at h
    · cases h
    · cases h
      rfl

theorem eq_of_settle {fault : FileFault} (h : w.settle p fault = .ok w') : w' = w := by
  unfold settle at h
  split at h
  · exact (Except.ok.inj h).symm
  · cases h

/-- **Making directories changes no file.** -/
theorem files_makeDirectories (h : w.makeDirectories p = .ok w') : w'.files = w.files := by
  have upTo : ∀ (bound : Nat) {w w' : Workspace} {p : Path},
      makeUpTo bound w p = .ok w' → w'.files = w.files := by
    intro bound
    induction bound with
    | zero => exact fun h => nomatch h
    | succ bound ih =>
      -- a directory is made after the one above it, and neither is a file
      intro w w' p (h : (if p.text == "" then Except.ok w else _) = _)
      split at h
      · cases h
        rfl
      · split at h
        · cases h
          exact files_makeDirectory ‹_›
        · split at h
          · cases h
          · split at h
            · cases h
            · rename_i above _ _ made
              split at h
              · cases h
                exact (files_makeDirectory ‹_›).trans (ih made)
              · rw [eq_of_settle h]
                exact ih made
        · rw [eq_of_settle h]
  exact upTo _ h

end Workspace

end Ferric
