import Ferric.Conversion.Run
import Ferric.FrontEnd.Parse
import Ferric.Settings.Basic

/-!
# Requests for a conversion

A request names a source and says how to read it, what stands at the top of each buffer, and where
declarations go.

## Main definitions

* `Request`: what is to be converted, and how.
* `Settings.request`: the request that settings make.
* `Request.convert`: the buffers of a request.
-/

namespace Ferric

/-- **A request for a conversion.** -/
structure Request where
  input : Path
  /-- Definitions, in order. -/
  defines : List String := []
  /-- Where system headers are looked for. -/
  includePaths : List String := []
  preamble : Option Preamble := some {}
  policy : Policy := Policy.unconfigured

/-- A preamble as messages show it. -/
def Preamble.inspect (p : Preamble) : String :=
  Text.inspectRecord "Preamble"
    [("generated_header", Text.inspectBool p.generatedHeader),
      ("prelude", Text.inspectList Text.quoted p.prelude)]

/-- Why a request has no buffers. -/
inductive ConversionFault where
  | inputMissing (path : Path)
  /-- The source has no syntax tree. -/
  | frontEnd (fault : FrontEnd.Fault)
  /-- An enumerator leaves the range of 64 bits. -/
  | aborted (overflow : Overflow)
deriving DecidableEq, Repr

namespace Request

def options (r : Request) : FrontEnd.Options :=
  { defines := r.defines, includePaths := r.includePaths }

/-- The request as messages show it; the policy is not shown. -/
def inspect (r : Request) : String :=
  "ConversionParameters \x7b " ++ Text.joined ", "
    ["input_path: " ++ r.input.inspect,
      "defines: " ++ Text.inspectList Text.quoted r.defines,
      "include_paths: " ++ Text.inspectList Text.quoted r.includePaths,
      "preamble: " ++ Text.inspectOption Preamble.inspect r.preamble, ".."] ++ " \x7d"

/-- The buffers of a syntax tree. -/
def convertTree (r : Request) (time : Timestamp) (root : Node) :
    Logged (Except ConversionFault Output) :=
  match Conversion.run r.policy Hooks.none (Output.fresh r.preamble time) root () with
  | .error overflow => pure (.error (.aborted overflow))
  | .ok result => (fun r => .ok r.output) <$> result

/-- **The buffers of a request**, when `isThere` tells whether the source exists and `outcome` is
what the front end answers to it. -/
def convert (r : Request) (time : Timestamp) (isThere : Bool) (outcome : FrontEnd.Outcome) :
    Logged (Except ConversionFault Output) :=
  if isThere then do
    Logged.info ("Parsing " ++ r.input.text)
    match ← FrontEnd.parse r.input.text none r.options outcome with
    | .error fault => pure (.error (.frontEnd fault))
    | .ok root => r.convertTree time root
  else pure (.error (.inputMissing r.input))

end Request

/-- How the failure of a request is presented. -/
def ConversionFault.report : ConversionFault → Report
  | .inputMissing path =>
    { text := "input file not found: " ++ path.text, code := "ur::convert::input" }
  | .frontEnd fault => fault.report
  | .aborted overflow => { text := overflow.message, code := "" }

namespace Settings

def options (s : Settings) : FrontEnd.Options :=
  { defines := s.input.defines, includePaths := s.input.includePaths }

/-- **The request that settings make**, for a given source or the one they name. -/
def request (s : Settings) (input : Option Path) : Except SettingsError Request :=
  match input.or s.input.path with
  | none => .error .noInput
  | some path =>
    .ok { input := path
          defines := s.input.defines
          includePaths := s.input.includePaths
          preamble := s.preamble
          policy := s.policy }

end Settings

end Ferric
