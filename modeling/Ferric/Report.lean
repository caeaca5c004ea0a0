import Ferric.Text.Blank

/-!
# Reports

How an error is presented to the user: a text, a code by which it can be looked up, sometimes a word
of advice, and the diagnostics that came with it.
-/

namespace Ferric

/-- **An error as it is presented.** -/
structure Report where
  text : String
  code : String
  help : Option String := none
  diagnostics : List String := []
deriving DecidableEq, Repr, Inhabited

/-- Why a file or directory cannot be used. -/
inductive FileFault where
  | missing
  | present
  /-- A directory stands in the place of a file. -/
  | directory
  /-- A file stands in the place of a directory. -/
  | blocked
  | unnameable
  | tooLong
  | notText
  /-- Anything else, in the words of the system. -/
  | other (text : String)
deriving DecidableEq, Repr, Inhabited

/-- What is said about it. -/
def FileFault.message : FileFault → String
  | .missing => "No such file or directory (os error 2)"
  | .present => "File exists (os error 17)"
  | .directory => "Is a directory (os error 21)"
  | .blocked => "Not a directory (os error 20)"
  | .unnameable => "file name contained an unexpected NUL byte"
  | .tooLong => "File name too long (os error 36)"
  | .notText => "stream did not contain valid UTF-8"
  | .other text => text

end Ferric
