import Ferric.CommandLine.Help
import Ferric.Conversion.Request
import Ferric.Outline
import Ferric.Settings.Load

/-!
# Running a command

The program as a function of its surroundings: all that it reads, writes and prints goes through a
host, so that it can be run on a real directory as well as on a value that stands for one.

## Main definitions

* `Host`: what a run asks of its surroundings.
* `Ending`: how a run ends, with its exit code.
* `loadSettings`: the settings of a run.
* `run`: the program.
-/

namespace Ferric

/-- **What a run asks of its surroundings.** -/
structure Host (m : Type → Type) where
  read : Path → m (Except FileFault String)
  pathExists : Path → m Bool
  write : Path → String → m (Except FileFault Unit)
  makeDirectories : Path → m (Except FileFault Unit)
  /-- What the front end answers to a file and a command line. -/
  frontEnd : Path → List String → m FrontEnd.Outcome
  print : String → m Unit
  /-- Tell the user something besides the output. -/
  remark : String → m Unit
  keep : Note → m Unit
  now : m Timestamp

namespace CommandLine

/-- **How a run ends.** -/
inductive Ending where
  | done
  | failed (report : Report)
  | misused (text : String)
  | aborted (overflow : Overflow)

def Ending.exitCode : Ending → Nat
  | .done => 0
  | .failed _ => 1
  | .misused _ => 2
  | .aborted _ => 101

/-- The settings file that is read when none is named. -/
def defaultSettings : Path := ⟨"ur.toml"⟩

variable {m : Type → Type} [Monad m]

/-- **The settings of a run**: those of the named file, else those of the default file if it is
there, else the defaults. -/
def loadSettings (host : Host m) (config : Option Path) :
    m (Except SettingsError (Logged Settings)) := do
  match config with
  | some path => return Settings.ofFile path (← host.read path)
  | none =>
    if ← host.pathExists defaultSettings then
      return Settings.ofFile defaultSettings (← host.read defaultSettings)
    else return .ok (pure {})

/-- The level up to which notes are kept. -/
def levelOf : Nat → Level
  | 0 => .warn
  | 1 => .info
  | 2 => .debug
  | _ => .trace

/-- The value, when its notes have been kept. -/
def keepNotes (host : Host m) (level : Level) {α : Type} (x : Logged α) : m α := do
  (Note.upTo level x.notes).forM host.keep
  return x.value

/-- The buffer that everything goes to when nothing is said about placement. -/
def impliedBuffer (input : Path) : String :=
  input.fileStem?.getD "out"

/-- The settings with a buffer for everything when they say nothing about placement. -/
def withImpliedBuffer (s : Settings) (input : Path) : Logged Settings :=
  if s.placement.fallback.isNone && s.placement.rules.isEmpty then do
    let buffer := impliedBuffer input
    Logged.info ("no [placement] configured, writing everything to " ++ buffer)
    pure { s with placement := { s.placement with fallback := some buffer } }
  else pure s

/-- The settings with what the command line adds to them. -/
def override (s : Settings) (output : Option Path) (defines includes : List String) : Settings :=
  { s with
    input := { s.input with
      defines := s.input.defines ++ defines
      includePaths := s.input.includePaths ++ includes }
    output := { s.output with directory := output.getD s.output.directory } }

def nothingToWrite : String :=
  "Nothing to write: no declaration was placed"

def printBuffers (host : Host m) (buffers : List (String × String)) : m Ending := do
  for (buffer, text) in buffers do
    host.print ("// ---- " ++ buffer ++ " ----\n")
    host.print text
  return .done

/-- An error of the file system. -/
def fileFailure (doing : String) (path : Path) (fault : FileFault) : Ending :=
  .failed { text := "Failed to " ++ doing ++ " " ++ path.text ++ ": " ++ fault.message, code := "" }

/-- Write every buffer to its file, up to the first that cannot be written. -/
def writeBuffers (host : Host m) (s : Settings) : List (String × String) → m Ending
  | [] => return .done
  | (buffer, text) :: rest => do
    let path := s.outputPath buffer
    match ← host.write path text with
    | .error fault => return fileFailure "write" path fault
    | .ok () =>
      host.print ("Wrote " ++ path.text ++ "\n")
      writeBuffers host s rest

/-- Hand out the buffers of a conversion. -/
def deliver (host : Host m) (s : Settings) (toStdout : Bool) (output : Output) : m Ending := do
  if output.isEmpty then host.remark nothingToWrite
  if toStdout then printBuffers host output.buffers
  else match ← host.makeDirectories s.output.directory with
    | .error fault => return fileFailure "create" s.output.directory fault
    | .ok () => writeBuffers host s output.buffers

def convert (host : Host m) (level : Level) (s : Settings) (file : Option Path)
    (toStdout : Bool) : m Ending := do
  match s.request file with
  | .error e => return .failed e.report
  | .ok request =>
    let s ← keepNotes host level (withImpliedBuffer s request.input)
    let request := { request with policy := s.policy }
    let isThere ← host.pathExists request.input
    let outcome ← host.frontEnd request.input request.options.arguments
    match ← keepNotes host level (request.convert (← host.now) isThere outcome) with
    | .error (.aborted overflow) => return .aborted overflow
    | .error fault => return .failed fault.report
    | .ok output => deliver host s toStdout output

/-- The syntax tree of a file. -/
def parseFile (host : Host m) (level : Level) (s : Settings) (file : Path) :
    m (Except FrontEnd.Fault Node) := do
  let outcome ← host.frontEnd file s.options.arguments
  keepNotes host level (FrontEnd.parse file.text none s.options outcome)

/-- Check files, up to the first that cannot be parsed. -/
def check (host : Host m) (level : Level) (s : Settings) : List Path → m Ending
  | [] => return .done
  | file :: rest => do
    match ← parseFile host level s file with
    | .error fault =>
      host.remark (file.text ++ ": Error")
      return .failed fault.report
    | .ok _ =>
      host.print (file.text ++ ": OK\n")
      check host level s rest

/-- Print the syntax tree of a file. -/
def dump (host : Host m) (level : Level) (s : Settings) (file : Path) : m Ending := do
  match ← parseFile host level s file with
  | .error fault => return .failed fault.report
  | .ok root =>
    (root.outline 0).forM fun line => host.print (line ++ "\n")
    return .done

def runCommand (host : Host m) (level : Level) (s : Settings) : Command → m Ending
  | .convert file output defines includes toStdout =>
    convert host level (override s output defines includes) file toStdout
  | .check files => check host level s files
  | .dump file => dump host level s file

/-- **The program**: read the command line, load the settings, run the command. -/
def run (host : Host m) (arguments : List String) : m Ending := do
  match Invocation.read arguments with
  | .error .version =>
    host.print versionText
    return .done
  | .error (.help scope) =>
    host.print scope.help
    return .done
  | .error (.misuse text) => return .misused text
  | .ok invocation =>
    let level := levelOf invocation.verbosity
    match ← loadSettings host invocation.config with
    | .error e => return .failed e.report
    | .ok settings =>
      let s ← keepNotes host level settings
      runCommand host level s invocation.command

end CommandLine

end Ferric
