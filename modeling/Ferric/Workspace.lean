import Ferric.Path
import Ferric.Report
import Ferric.Text.Utf8

/-!
# Workspaces

A directory with everything below it, as a value: what a run finds there and what it leaves there.
Paths are followed step by step, and every step but the last has to lead into a directory.

A path may lead out of the workspace.  The directories above it are there, as are the root and the
directories that every system has at its root; nothing else is known of them, so that all the rest
is missing until it is made.

## Main definitions

* `Workspace.Place`: where a file or a directory may stand.
* `Workspace`: files and directories by their place.
* `Workspace.locate`: where a path leads.
* `Workspace.read`, `Workspace.write`, `Workspace.makeDirectories`: what can be done there.
* `Workspace.changes`: what is new or changed.
-/

namespace Ferric

/-- A directory from which places are counted. -/
inductive Workspace.Anchor where
  /-- The directory some levels above the workspace; at no level it is the workspace itself. -/
  | above (levels : Nat)
  | root
deriving DecidableEq, Repr

/-- **Where a file or a directory may stand**: the names that lead to it from an anchor. -/
structure Workspace.Place where
  anchor : Anchor := .above 0
  names : List String := []
deriving DecidableEq, Repr

namespace Workspace.Place

/-- The directory that holds a place.  The root holds itself. -/
def up (p : Place) : Place :=
  match p.names, p.anchor with
  | [], .above levels => { anchor := .above (levels + 1) }
  | [], .root => p
  | names, _ => { p with names := names.dropLast }

def down (p : Place) (name : String) : Place :=
  { p with names := p.names ++ [name] }

end Workspace.Place

/-- **A directory with everything below it**, and what was made around it. -/
structure Workspace where
  files : List (Workspace.Place × List Nat) := []
  /-- The directories besides those that are always there. -/
  directories : List Workspace.Place := []

namespace Workspace

/-- The names that every system has at its root. -/
def systemDirectories : List String :=
  ["bin", "boot", "dev", "etc", "home", "lib", "media", "mnt", "opt", "proc", "root", "run", "sbin",
    "srv", "sys", "tmp", "usr", "var"]

/-- The file that is always there, and always empty. -/
def emptyFile : Place :=
  { anchor := .root, names := ["dev", "null"] }

/-- Whether there is a directory at a place in every file system. -/
def isStanding (p : Place) : Bool :=
  match p.anchor, p.names with
  | _, [] => true
  | .root, [name] => systemDirectories.contains name
  | _, _ => false

def file? (w : Workspace) (p : Place) : Option (List Nat) :=
  if p = emptyFile then some [] else w.files.lookup p

def isDirectory (w : Workspace) (p : Place) : Bool :=
  isStanding p || w.directories.contains p

/-- Whether there is anything at a place. -/
def holds (w : Workspace) (p : Place) : Bool :=
  w.isDirectory p || (w.file? p).isSome

/-- How many bytes a name has at most. -/
def nameLimit : Nat := 255

/-- How many bytes a path has at most. -/
def pathLimit : Nat := 4095

def step (w : Workspace) (p : Place) (segment : String) : Except FileFault Place :=
  if !w.isDirectory p then .error (if (w.file? p).isSome then .blocked else .missing)
  else if Path.isIdle segment then .ok p
  else if segment == ".." then .ok p.up
  else if nameLimit < segment.utf8ByteSize then .error .tooLong
  else .ok (p.down segment)

/-- Follow a path from its start. -/
def follow (w : Workspace) (isAbsolute : Bool) (segments : List String) :
    Except FileFault Place :=
  segments.foldlM w.step (if isAbsolute then { anchor := .root } else {})

/-- **Where a path leads.** -/
def locate (w : Workspace) (p : Path) : Except FileFault Place :=
  if p.text.toList.any fun c => c.toNat == 0 then .error .unnameable
  else if p.text == "" then .error .missing
  else if pathLimit < p.text.utf8ByteSize then .error .tooLong
  else w.follow p.isAbsolute p.segments

/-- Whether there is anything at a path. -/
def pathExists (w : Workspace) (p : Path) : Bool :=
  match w.locate p with
  | .ok place => w.holds place
  | .error _ => false

def isDirectoryPath (w : Workspace) (p : Path) : Bool :=
  match w.locate p with
  | .ok place => w.isDirectory place
  | .error _ => false

def read (w : Workspace) (p : Path) : Except FileFault String := do
  let place ← w.locate p
  if w.isDirectory place then .error .directory
  else match w.file? place with
    | none => .error .missing
    | some content =>
      match Text.ofBytes? content with
      | some s => .ok s
      | none => .error .notText

def put (w : Workspace) (place : Place) (content : List Nat) : Workspace :=
  { w with files := w.files.filter (·.1 != place) ++ [(place, content)] }

def write (w : Workspace) (p : Path) (s : String) : Except FileFault Workspace := do
  let place ← w.locate p
  if w.isDirectory place then .error .directory
  else .ok (w.put place (Text.bytes s))

/-- Make one directory; slashes at the end of the path do not count. -/
def makeDirectory (w : Workspace) (p : Path) : Except FileFault Workspace := do
  let named : Path := ⟨Text.joined "/" (p.segments.reverse.dropWhile (· == "")).reverse⟩
  let place ← w.locate (if named.text == "" then p else named)
  if w.holds place then .error .present
  else .ok { w with directories := w.directories ++ [place] }

/-- Take a directory that is there for one that was made. -/
def settle (w : Workspace) (p : Path) (fault : FileFault) : Except FileFault Workspace :=
  if w.isDirectoryPath p then .ok w else .error fault

/-- Make a directory and those above it, at most `bound` of them. -/
def makeUpTo : Nat → Workspace → Path → Except FileFault Workspace
  | 0, _, _ => .error .missing
  | bound + 1, w, p =>
    if p.text == "" then .ok w
    else match w.makeDirectory p with
      | .ok w => .ok w
      | .error .missing =>
        match p.parent? with
        | none => .error .missing
        | some above =>
          match makeUpTo bound w above with
          | .error fault => .error fault
          | .ok w =>
            match w.makeDirectory p with
            | .ok w => .ok w
            | .error fault => w.settle p fault
      | .error fault => w.settle p fault

/-- **Make a directory** and those above it that are missing. -/
def makeDirectories (w : Workspace) (p : Path) : Except FileFault Workspace :=
  makeUpTo (p.text.length + 1) w p

def place (p : Path) : Place :=
  { names := p.segments.filter (!Path.isIdle ·) }

/-- Add a file, with the directories that lead to it. -/
def add (w : Workspace) (p : Path) (content : List Nat) : Workspace :=
  let place := place p
  let above : List Place :=
    (List.range place.names.length).map fun n => { names := place.names.take n }
  let fresh := above.filter fun d => !w.isDirectory d
  { w.put place content with directories := w.directories ++ fresh }

def ofFiles (files : List (Path × List Nat)) : Workspace :=
  files.foldl (fun w f => w.add f.1 f.2) {}

/-- **What is new or changed** inside the workspace since an earlier state, by path. -/
def changes (before after : Workspace) : List (String × String) :=
  let changed := after.files.filter fun f =>
    f.1.anchor == .above 0 && before.file? f.1 != some f.2
  let named := changed.map fun f => (Text.joined "/" f.1.names, Text.ofBytesLossy f.2)
  named.mergeSort fun a b => !(b.1 < a.1)

end Workspace

end Ferric
