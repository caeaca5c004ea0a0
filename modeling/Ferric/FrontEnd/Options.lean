import Ferric.Text.Blank

/-!
# Options of the front end

What is defined and where headers are looked for, and the command line that says so.
-/

namespace Ferric.FrontEnd

/-- What a front end is told besides the file to read. -/
structure Options where
  /-- Definitions, `NAME` or `NAME=VALUE`, in order. -/
  defines : List String := []
  /-- Where system headers are looked for. -/
  includePaths : List String := []
  /-- Arguments that are passed on as they are. -/
  extra : List String := []
deriving DecidableEq, Repr, Inhabited

/-- The command line of the front end: the language, the definitions, the search path, and the
extra arguments, each group in its own order. -/
def Options.arguments (o : Options) : List String :=
  ["-x", "c"] ++ o.defines.map ("-D" ++ ·) ++ o.includePaths.map ("-I" ++ ·) ++ o.extra

end Ferric.FrontEnd
