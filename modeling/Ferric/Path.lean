import Ferric.Text.Blank
import Ferric.Text.Quoted

/-!
# Paths

Names of files and directories, written with slashes.  A path is kept as it is written: joining and
cutting work on the text, and only the comparison looks through it.

## Main definitions

* `Path.join`: a path as seen from a directory.
* `Path.parent?`: the path without its last name.
* `Path.parts`: what a path says, step by step.
* `Path.fileStem?`: the last name without its extension.
-/

namespace Ferric

namespace Chars

/-- The pieces between the occurrences of a separator; there is always one more than there are
separators. -/
def split (separator : Char) : List Char → List (List Char)
  | [] => [[]]
  | c :: cs =>
    if c = separator then [] :: split separator cs
    else match split separator cs with
      | [] => [[c]]
      | piece :: pieces => (c :: piece) :: pieces

theorem split_ne_nil (separator : Char) (cs : List Char) : split separator cs ≠ [] := by
  cases cs with
  | nil => simp [split]
  | cons c cs =>
    rw [split]
    split
    · simp
    · split <;> simp

end Chars

/-- **A path**, as it is written. -/
structure Path where
  text : String
deriving DecidableEq, Repr, Inhabited

inductive Path.Part where
  | root
  /-- The current directory, named at the start. -/
  | here
  | up
  | name (s : String)
deriving DecidableEq, Repr

namespace Path

/-- Whether the path starts at the root. -/
def isAbsolute (p : Path) : Bool :=
  Text.startsWith p.text "/"

/-- A path as seen from a directory: a slash goes between the two unless one is there already or
the directory is empty, and an absolute path stands for itself. -/
def join (base p : Path) : Path :=
  if p.isAbsolute then p
  else if base.text == "" || Text.endsWith base.text "/" then ⟨base.text ++ p.text⟩
  else ⟨base.text ++ "/" ++ p.text⟩

/-- The texts between the slashes. -/
def segments (p : Path) : List String :=
  (Chars.split '/' p.text.toList).map String.ofList

/-- Whether a segment makes no step. -/
def isIdle (segment : String) : Bool :=
  segment == "" || segment == "."

/-- The step of a segment that is not idle. -/
def Part.ofSegment (segment : String) : Part :=
  if segment == ".." then .up else .name segment

/-- **What a path says**, step by step.  A repeated or final slash and a dot inside say nothing; a
dot at the start is kept. -/
def parts (p : Path) : List Part :=
  let start : List Part :=
    if p.isAbsolute then [.root]
    else if p.segments.head? == some "." then [.here] else []
  start ++ (p.segments.filter (!isIdle ·)).map Part.ofSegment

def sameAs (p q : Path) : Bool :=
  p.parts == q.parts

/-- The segments without the idle ones at the end. -/
def trimmed (segments : List String) : List String :=
  (segments.reverse.dropWhile isIdle).reverse

/-- The path without its last step; the root and the empty path have none. -/
def parent? (p : Path) : Option Path :=
  match p.segments with
  | [] => none
  | first :: rest =>
    if isIdle first then
      match trimmed rest with
      | [] => if first == "." then some ⟨""⟩ else none
      | steps =>
        match trimmed steps.dropLast with
        | [] => some ⟨if first == "" then "/" else first⟩
        | kept => some ⟨Text.joined "/" (first :: kept)⟩
    else some ⟨Text.joined "/" (trimmed (trimmed (first :: rest)).dropLast)⟩

/-- The last step, if it is a name. -/
def fileName? (p : Path) : Option String :=
  match p.parts.getLast? with
  | some (.name s) => some s
  | _ => none

/-- The name without what follows its last dot; a dot at the start of a name is part of it. -/
def stem (name : String) : String :=
  match (Chars.split '.' name.toList).reverse with
  | _ :: before =>
    let kept := String.ofList (['.'].intercalate before.reverse)
    if kept == "" then name else kept
  | [] => name

/-- The last name of the path without its extension. -/
def fileStem? (p : Path) : Option String :=
  p.fileName?.map stem

/-- The path as messages show it. -/
def inspect (p : Path) : String :=
  Text.quoted p.text

example : (parent? ⟨"a/./b.toml"⟩, parent? ⟨"b.toml"⟩, parent? ⟨"./b.toml"⟩, parent? ⟨"/b.toml"⟩,
    parent? ⟨"/"⟩) = (some ⟨"a"⟩, some ⟨""⟩, some ⟨"."⟩, some ⟨"/"⟩, none) := by decide

example : (["x.tar.c", ".hidden", "name", "a.", ".."].map fun s => fileStem? ⟨s⟩) =
    [some "x.tar", some ".hidden", some "name", some "a", none] := by decide

end Path

end Ferric
