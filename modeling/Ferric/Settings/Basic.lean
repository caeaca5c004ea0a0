import Ferric.Output.Preamble
import Ferric.Path
import Ferric.Placement.Rules
import Ferric.Report

/-!
# Settings

What a run is told by its settings file: the source and how to read it, where and how the buffers
are written, and where declarations go.

## Main definitions

* `Settings`: the three sections, with their defaults.
* `Settings.policy`, `Settings.preamble`, `Settings.outputPath`: what a run takes from them.
* `SettingsError`: why settings cannot be used.
-/

namespace Ferric

/-- The source and how to read it. -/
structure InputSettings where
  path : Option Path := none
  /-- Definitions, in order. -/
  defines : List String := []
  /-- Where system headers are looked for. -/
  includePaths : List String := []
deriving DecidableEq, Repr, Inhabited

/-- Where and how the buffers are written. -/
structure OutputSettings where
  directory : Path := ⟨"."⟩
  extension : String := "rs"
  /-- Start each buffer with the line that says when it was generated. -/
  generatedHeader : Bool := true
  /-- The lines after it. -/
  prelude : List String := ({} : Preamble).prelude
deriving DecidableEq, Repr, Inhabited

/-- Where declarations go. -/
structure PlacementSettings where
  /-- The buffer of declarations that no rule matches. -/
  fallback : Option String := none
  rules : List Rule := []
deriving DecidableEq, Repr, Inhabited

/-- **The settings of a run.** -/
structure Settings where
  input : InputSettings := {}
  output : OutputSettings := {}
  placement : PlacementSettings := {}
deriving DecidableEq, Repr, Inhabited

namespace Settings

/-- The preamble of each buffer; none when it would be empty. -/
def preamble (s : Settings) : Option Preamble :=
  if !s.output.generatedHeader && s.output.prelude.isEmpty then none
  else some ⟨s.output.generatedHeader, s.output.prelude⟩

def table (s : Settings) : RuleTable :=
  RuleTable.make s.placement.fallback s.placement.rules

def policy (s : Settings) : Policy :=
  s.table.policy

def fileName (s : Settings) (buffer : String) : String :=
  buffer ++ "." ++ s.output.extension

/-- **The file of a buffer**, in the output directory. -/
def outputPath (s : Settings) (buffer : String) : Path :=
  s.output.directory.join ⟨s.fileName buffer⟩

/-- Whether these are the default settings; the directory is compared by what it says. -/
def isDefault (s : Settings) : Bool :=
  let standard : Settings := {}
  s.output.directory.sameAs standard.output.directory &&
    { s with output := { s.output with directory := standard.output.directory } } == standard

/-- Paths that are not absolute, as seen from a directory. -/
def relativeTo (base : Path) (s : Settings) : Settings :=
  { s with
    input := { s.input with path := s.input.path.map base.join }
    output := { s.output with directory := base.join s.output.directory } }

/-- The settings as messages show them. -/
def inspect (s : Settings) : String :=
  Text.inspectRecord "UrConfig"
    [("input", Text.inspectRecord "InputConfig"
      [("path", Text.inspectOption Path.inspect s.input.path),
        ("defines", Text.inspectList Text.quoted s.input.defines),
        ("include_paths", Text.inspectList Text.quoted s.input.includePaths)]),
      ("output", Text.inspectRecord "OutputConfig"
        [("directory", s.output.directory.inspect),
          ("extension", Text.quoted s.output.extension),
          ("generated_header", Text.inspectBool s.output.generatedHeader),
          ("prelude", Text.inspectList Text.quoted s.output.prelude)]),
      ("placement", Text.inspectRecord "PlacementConfig"
        [("default_buffer", Text.inspectOption Text.quoted s.placement.fallback),
          ("rules", Text.inspectList Rule.inspect s.placement.rules)])]

end Settings

/-- **Why settings cannot be used.** -/
inductive SettingsError where
  | unreadable (fault : FileFault)
  /-- The file is no document of the right form. -/
  | malformed
  /-- The settings contradict each other. -/
  | invalid (reason : String)
  | noInput
deriving DecidableEq, Repr, Inhabited

def SettingsError.report : SettingsError → Report
  | .unreadable fault =>
    { text := "Failed to read config file: " ++ fault.message, code := "ur::config::read" }
  | .malformed => { text := "Failed to parse TOML config", code := "ur::config::toml" }
  | .invalid reason =>
    { text := "Config validation error: " ++ reason
      code := "ur::config::invalid"
      help := some "see the [[placement.rule]] section of ur.toml" }
  | .noInput =>
    { text := "No input file: set [input] path in ur.toml or pass one on the command line"
      code := "ur::config::input" }

end Ferric
