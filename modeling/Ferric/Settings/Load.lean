import Ferric.Log
import Ferric.Settings.Check
import Ferric.Toml.Document

/-!
# Reading settings

Settings are a TOML document.  A section is a table; unknown keys are passed over, and a missing key
has its default.  A section may also be a list that gives its fields in order.

## Main definitions

* `Settings.parse`: the settings of a text.
* `Settings.ofFile`: the settings of a file, with paths as seen from its directory.
-/

namespace Ferric

namespace Toml

inductive Section where
  | named (entries : List (String × Toml))
  | listed (items : List Toml)

/-- The fields of a value that is read as a section.  A point in time has no field of a known
name. -/
def section? : Toml → Option Section
  | .table entries => some (.named entries)
  | .array items => some (.listed items)
  | .moment _ => some (.named [])
  | _ => none

def Section.field? (s : Section) (position : Nat) (name : String) : Option Toml :=
  match s with
  | .named entries => entries.lookup name
  | .listed items => items[position]?

/-- The field as `read` understands it, or a default when it is missing. -/
def Section.get? {α : Type} (s : Section) (position : Nat) (name : String) (standard : α)
    (read : Toml → Option α) : Option α :=
  match s.field? position name with
  | none => some standard
  | some v => read v

end Toml

open Toml (Section)

def Rule.categoryOfWord? : String → Option (Option Category)
  | "struct" => some (some .record)
  | "enum" => some (some .enum)
  | "global" => some (some .global)
  | "function" => some (some .function)
  | "any" => some none
  | _ => none

/-- Whether a value is an empty list or table. -/
def Toml.isEmptyGroup : Toml → Bool
  | .array [] | .table [] => true
  | _ => false

/-- A category: its word, or a table with this one key and nothing in it. -/
def Rule.readCategory? : Toml → Option (Option Category)
  | .string word => categoryOfWord? word
  | .table [(word, v)] => if v.isEmptyGroup then categoryOfWord? word else none
  | _ => none

/-- A value that is there. -/
def Toml.present? {α : Type} (read : Toml → Option α) (v : Toml) : Option (Option α) :=
  (read v).map some

def Rule.read? (v : Toml) : Option Rule := do
  let s ← v.section?
  let category ← s.get? 0 "kind" none readCategory?
  let name ← s.get? 1 "name" none (Toml.present? Toml.string?)
  let leading ← s.get? 2 "prefix" none (Toml.present? Toml.string?)
  let buffer ← s.get? 3 "buffer" none (Toml.present? Toml.string?)
  let rename ← s.get? 4 "rename" none (Toml.present? Toml.string?)
  let skip ← s.get? 5 "skip" false Toml.boolean?
  let minParams ← s.get? 6 "min_params" none (Toml.present? Toml.natural?)
  let maxParams ← s.get? 7 "max_params" none (Toml.present? Toml.natural?)
  some { category, name, leading, buffer, rename, skip, minParams, maxParams }

def Path.read? (v : Toml) : Option Path :=
  v.string?.map fun text => ⟨text⟩

def Toml.strings? : Toml → Option (List String) :=
  Toml.list? Toml.string?

/-- The section on the source. -/
def InputSettings.read? (v : Toml) : Option InputSettings := do
  let s ← v.section?
  let path ← s.get? 0 "path" none (Toml.present? Path.read?)
  let defines ← s.get? 1 "defines" [] Toml.strings?
  let includePaths ← s.get? 2 "include_paths" [] Toml.strings?
  some { path, defines, includePaths }

/-- The section on the buffers. -/
def OutputSettings.read? (v : Toml) : Option OutputSettings := do
  let standard : OutputSettings := {}
  let s ← v.section?
  let directory ← s.get? 0 "directory" standard.directory Path.read?
  let extension ← s.get? 1 "extension" standard.extension Toml.string?
  let generatedHeader ← s.get? 2 "generated_header" standard.generatedHeader Toml.boolean?
  let prelude ← s.get? 3 "prelude" standard.prelude Toml.strings?
  some { directory, extension, generatedHeader, prelude }

def PlacementSettings.read? (v : Toml) : Option PlacementSettings := do
  let s ← v.section?
  let fallback ← s.get? 0 "default_buffer" none (Toml.present? Toml.string?)
  let rules ← s.get? 1 "rule" [] (Toml.list? Rule.read?)
  some { fallback, rules }

namespace Settings

def read? (v : Toml) : Option Settings := do
  let s ← v.section?
  let input ← s.get? 0 "input" {} InputSettings.read?
  let output ← s.get? 1 "output" {} OutputSettings.read?
  let placement ← s.get? 2 "placement" {} PlacementSettings.read?
  some { input, output, placement }

/-- **The settings of a text**, read and checked. -/
def parse (text : String) : Except SettingsError Settings :=
  match (Toml.parse? text).bind read? with
  | none => .error .malformed
  | some s => s.checked

/-- **The settings of a file** with a given content: its paths are seen from its directory. -/
def ofFile (path : Path) (content : Except FileFault String) :
    Except SettingsError (Logged Settings) :=
  match content with
  | .error fault => .error (.unreadable fault)
  | .ok text =>
    (parse text).map fun s =>
      let resolved := match path.parent? with
        | some base => s.relativeTo base
        | none => s
      ⟨resolved, [⟨.debug, "loaded " ++ path.text ++ ": " ++ resolved.inspect⟩]⟩

end Settings

end Ferric
