import Ferric.CommandLine.Run
import Ferric.FrontEnd.Recording
import Std.Time.DateTime.Timestamp

/-!
# The program

The command line over the real file system.  Sources are recordings of a front end.
-/

namespace Ferric

/-- What an error of the system says about a file. -/
def FileFault.ofError : IO.Error → FileFault
  | .noFileOrDirectory .. => .missing
  | .alreadyExists .. => .present
  | .inappropriateType .. => .directory
  | e => .other (toString e)

/-- Do something with files, and keep what is wrong. -/
def tryFiles {α : Type} (action : IO α) : IO (Except FileFault α) := do
  try
    return .ok (← action)
  catch e => return .error (.ofError e)

def readRealFile (p : Path) : IO (Except FileFault String) := do
  match ← tryFiles (IO.FS.readBinFile p.text) with
  | .error fault => return .error fault
  | .ok content =>
    match String.fromUTF8? content with
    | some text => return .ok text
    | none => return .error .notText

/-- The real surroundings of a run. -/
def realHost : Host IO where
  read := readRealFile
  pathExists p := do
    match ← tryFiles (IO.FS.realPath p.text) with
    | .ok _ => return p.text != ""
    | .error _ => return false
  write p text := tryFiles (IO.FS.writeFile p.text text)
  makeDirectories p := if p.text == "" then return .ok () else
    tryFiles (IO.FS.createDirAll p.text)
  frontEnd p arguments := do
    return FrontEnd.Recording.replay (← readRealFile p) arguments
  print text := IO.print text
  remark text := IO.eprintln text
  keep note := IO.eprintln note.render
  now := return ⟨(← Std.Time.Timestamp.now).toSecondsSinceUnixEpoch.val.toNat⟩

end Ferric

open Ferric in
/-- Run the program on the real file system. -/
def main (arguments : List String) : IO UInt32 := do
  let ending ← CommandLine.run realHost arguments
  match ending with
  | .done => pure ()
  | .failed report => IO.eprintln ("Error: " ++ report.text)
  | .misused text => IO.eprintln ("error: " ++ text)
  | .aborted overflow => IO.eprintln overflow.message
  return ending.exitCode.toUInt32
