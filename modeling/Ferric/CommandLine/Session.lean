import Ferric.CommandLine.Run
import Ferric.FrontEnd.Recording
import Ferric.Workspace

/-!
# Runs in a workspace

The surroundings of a run as a value: a workspace whose sources are recordings of a front end, with
what was printed and what was remarked so far.

## Main definitions

* `Session`: the state of a run.
* `Session.host`: the host that works on it.
-/

namespace Ferric

/-- **The state of a run** in a workspace. -/
structure Session where
  workspace : Workspace
  printed : String := ""
  remarks : List String := []
  notes : List Note := []
  time : Timestamp := ⟨0⟩

namespace Session

/-- Change the workspace, if nothing is wrong. -/
def attempt (change : Workspace → Except FileFault Workspace) :
    StateM Session (Except FileFault Unit) :=
  fun s => match change s.workspace with
    | .ok workspace => (.ok (), { s with workspace })
    | .error fault => (.error fault, s)

/-- **The host of a session.** -/
def host : Host (StateM Session) where
  read p := fun s => (s.workspace.read p, s)
  pathExists p := fun s => (s.workspace.pathExists p, s)
  write p text := attempt (·.write p text)
  makeDirectories p := attempt (·.makeDirectories p)
  frontEnd p arguments := fun s =>
    (FrontEnd.Recording.replay (s.workspace.read p) arguments, s)
  print text := fun s => ((), { s with printed := s.printed ++ text })
  remark text := fun s => ((), { s with remarks := s.remarks ++ [text] })
  keep note := fun s => ((), { s with notes := s.notes ++ [note] })
  now := fun s => (s.time, s)

def run (workspace : Workspace) (arguments : List String) : CommandLine.Ending × Session :=
  CommandLine.run host arguments { workspace }

end Session

end Ferric
