import Ferric.FrontEnd.Cursor
import Ferric.FrontEnd.Options
import Ferric.Log
import Ferric.Report

/-!
# Parsing with a front end

A front end is given a file name and a command line, and answers with a code and, unless it gave up,
with a tree and diagnostics.

## Main definitions

* `Outcome`: the answer of a front end.
* `Fault`: why there is no syntax tree.
* `parse`: the syntax tree of an answer.
-/

namespace Ferric.FrontEnd

/-- A tree and the diagnostics that came with it. -/
structure Delivery where
  diagnostics : List String := []
  root : Cursor

/-- **The answer of a front end.** -/
structure Outcome where
  /-- Zero for success. -/
  code : Int := 0
  delivery : Option Delivery := none

/-- The answer of a front end that cannot use its input. -/
def Outcome.failure : Outcome :=
  { code := 1 }

def codeName : Int → String
  | 0 => "success"
  | 1 => "failure"
  | 2 => "crashed"
  | 3 => "invalid arguments"
  | 4 => "AST read error"
  | _ => "unknown error"

/-- **Why there is no syntax tree.** -/
inductive Fault where
  | load (text : String)
  /-- The front end cannot be set up. -/
  | index
  /-- A text cannot be handed over to the front end. -/
  | argument (text : String)
  /-- The front end gave up. -/
  | failed (path code : String) (diagnostics : List String)
deriving DecidableEq, Repr, Inhabited

namespace Fault

/-- The diagnostics that came with the failure. -/
def diagnostics : Fault → List String
  | .failed _ _ diagnostics => diagnostics
  | _ => []

/-- How the failure is presented. -/
def report : Fault → Report
  | .load text =>
    { text := "failed to load libclang: " ++ text
      code := "ur::clang::load"
      help := some "install libclang or point LIBCLANG_PATH at the directory containing it" }
  | .index => { text := "failed to create clang index", code := "ur::clang::index" }
  | .argument text =>
    { text := "invalid argument for clang: " ++ Text.quoted text, code := "ur::clang::argument" }
  | .failed path code diagnostics =>
    { text := "failed to parse " ++ path ++ " (" ++ code ++ ")" ++
        (if diagnostics.isEmpty then "" else ":\n" ++ Text.stacked diagnostics)
      code := "ur::clang::parse"
      diagnostics }

end Fault

/-- Whether a text can be handed over: the front end takes a zero for the end of a text. -/
def canPass (text : String) : Bool :=
  text.toList.all fun c => c.toNat != 0

def warnAll (diagnostics : List String) : Logged Unit :=
  ⟨(), diagnostics.map fun d => ⟨.warn, d⟩⟩

/-- The syntax tree of an answer. -/
def conclude (name : String) (outcome : Outcome) : Logged (Except Fault Node) := do
  let diagnostics := (outcome.delivery.map Delivery.diagnostics).getD []
  warnAll diagnostics
  match outcome.code, outcome.delivery with
  | 0, some delivery => pure (.ok delivery.root.lower)
  | code, _ => pure (.error (.failed name (codeName code) diagnostics))

/-- **The syntax tree of a file**, or of a text that stands for it, when `outcome` is what the front
end answers to it. -/
def parse (name : String) (source : Option String) (options : Options) (outcome : Outcome) :
    Logged (Except Fault Node) :=
  match (name :: options.arguments ++ source.toList).find? (!canPass ·) with
  | some text => pure (.error (.argument text))
  | none => do
    Logged.debug ("parsing " ++ name ++ " with " ++
      Text.inspectList Text.quoted options.arguments)
    conclude name outcome

end Ferric.FrontEnd
