import Ferric.FrontEnd.Parse
import Ferric.Json.Reader
import Ferric.Number.Signed64
import Ferric.Text.Utf8

/-!
# Recorded answers of a front end

A recording is a header line and a JSON document with the answer of a front end: its code, its
diagnostics and its tree.  What is missing has a default, and a name that is not known stands for
itself.

A text in a recording is a string or a list of bytes, and ends at the first zero.

## Main definitions

* `Recording.outcome`: the answer in a document.
* `Recording.replay`: the answer in a file.
-/

namespace Ferric.FrontEnd

namespace Recording

def text : Json → String
  | .string s => Text.onChars (·.takeWhile fun c => c.toNat != 0) s
  | .array bytes => Text.ofTerminated (bytes.filterMap Json.nat?)
  | _ => ""

/-- The types without parts, by name. -/
def basicTypes : List (String × CType) :=
  [("Void", .void), ("Bool", .bool), ("Char_S", .char true), ("SChar", .char true),
    ("Char_U", .char false), ("UChar", .char false), ("Short", .short true),
    ("UShort", .short false), ("Int", .int true), ("UInt", .int false), ("Long", .long true),
    ("ULong", .long false), ("LongLong", .longLong true), ("ULongLong", .longLong false),
    ("WChar", .int true), ("Float", .float), ("Double", .double), ("LongDouble", .longDouble)]

/-- The parameters of a function type: as many as it says it has, the missing ones unknown. -/
def parameters (count : Option Int) (listed : List RawType) : List RawType :=
  let count := (count.map Int.toNat).getD listed.length
  (List.range count).map fun i => (listed[i]?).getD (.other "")

/-- A type, at most `depth` types deep. -/
def type : Nat → Json → RawType
  | 0, _ => .other ""
  | depth + 1, j =>
    let name := match j with
      | .string s => s
      | _ => text (j.field "kind")
    let spelling := text (j.field "spelling")
    let part (field : String) : RawType := type depth (j.field field)
    match basicTypes.lookup name with
    | some t => .basic t
    | none =>
      match name with
      | "Pointer" => .pointer (part "pointee")
      | "ConstantArray" => .array (part "element") (some ((j.field "size").int?.getD 0))
      | "IncompleteArray" | "VariableArray" => .array (part "element") none
      | "Record" => .record spelling
      | "Enum" => .enum spelling
      | "Elaborated" => .elaborated (part "named")
      | "Typedef" => .alias spelling (part "canonical")
      | "FunctionProto" | "FunctionNoProto" =>
        .function (part "result")
          (parameters (j.field "nargs").int? ((j.field "args").items.map (type depth)))
          (j.field "variadic").isTrue
      | _ => .other spelling

/-- A place. -/
def location (j : Json) : Location :=
  match j.items with
  | file :: line :: column :: _ =>
    { file := if file.isNull then none else some (text file)
      line := line.nat?.getD 0
      column := column.nat?.getD 0 }
  | _ => {}

/-- A computed value. -/
def evaluation : Json → Option Evaluation
  | .number d => some ⟨Signed64.clamp d.truncate, d.toBinary⟩
  | _ => none

/-- What a cursor is spelled when it is to show the command line of the front end. -/
def argumentsMark : String := "@args"

def spelling (arguments : List String) (j : Json) : String :=
  let s := text j
  if s == argumentsMark then Text.joined " " arguments else s

/-- A cursor, at most `depth` cursors deep. -/
def cursor (arguments : List String) : Nat → Json → Cursor
  | 0, _ => { kind := "" }
  | depth + 1, j =>
    { kind := text (j.field "kind")
      spelling := spelling arguments (j.field "spelling")
      type := type (depth + 1) (j.field "type")
      isConst := ((j.field "type").field "const").isTrue
      underlying := type (depth + 1) (j.field "underlying")
      isExtern := text (j.field "storage") == "extern"
      binaryOp := text (j.field "binop")
      unaryOp := text (j.field "unop")
      tokens := (j.field "tokens").items.map text
      evaluation := evaluation (j.field "eval")
      value := Signed64.clamp ((j.field "value").int?.getD 0)
      usr := text (j.field "usr")
      inSystemHeader := (j.field "system").isTrue
      location := location (j.field "loc")
      children := ((j.field "children").items.filter (!Json.isNull ·)).map
        (cursor arguments depth) }

/-- The answer in a document, at most `depth` values deep. -/
def outcome (arguments : List String) (depth : Nat) (j : Json) : Outcome :=
  { code := (j.field "code").int?.getD 0
    delivery :=
      if (j.field "tree").isNull then none
      else some ⟨(j.field "diagnostics").items.map text, cursor arguments depth (j.field "tree")⟩ }

/-- The line that a recording starts with. -/
def header : String := "ferric recording\n"

def document? (source : String) : Option Json :=
  (Text.after? header source).bind Json.parse?

/-- **The answer in a file** to a command line; a file that cannot be read or is no recording makes
the front end fail. -/
def replay (content : Except FileFault String) (arguments : List String) : Outcome :=
  match content with
  | .error _ => .failure
  | .ok source =>
    match document? source with
    | some j => outcome arguments source.length j
    | none => .failure

end Recording

end Ferric.FrontEnd
