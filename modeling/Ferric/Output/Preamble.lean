import Ferric.Text.Blank
import Ferric.Time

/-!
# Preambles

The text at the top of every buffer: a line that says when it was generated, and fixed lines after
it.
-/

namespace Ferric

/-- What stands at the top of every buffer. -/
structure Preamble where
  /-- Start with the line that says when the text was generated. -/
  generatedHeader : Bool := true
  /-- The lines after it. -/
  prelude : List String := ["use std;", "use c_runtime;"]
deriving DecidableEq, Repr, Inhabited

/-- The text of a preamble for a point in time; one blank line follows it unless it is empty. -/
def Preamble.render (p : Preamble) (time : Timestamp) : String :=
  let header := if p.generatedHeader then "// Generated by Ur at " ++ time.render ++ "\n\n" else ""
  let text := header ++ String.join (p.prelude.map (· ++ "\n"))
  if text == "" then "" else text ++ "\n"

end Ferric
