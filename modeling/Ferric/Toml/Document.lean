import Ferric.Toml.Value

/-!
# TOML documents

A document is a sequence of lines: headers that open tables, and keys with their values, which
belong to the table opened last.

## Main definitions

* `Toml.parse?`: the table of a document.
-/

namespace Ferric

namespace Toml

/-- What has been read of a document: its table, and the path of the table opened last. -/
structure Reading where
  entries : Entries := []
  path : List String := []

namespace Reading

/-- Set a key in the table opened last. -/
def set (r : Reading) (key : List String) (v : Toml) : Option Reading :=
  (Entries.changeAt .implied (Entries.set key v) r.path .header r.entries).map fun entries =>
    { r with entries }

/-- Open a table with its header; each table has one header at most. -/
def openTable (r : Reading) (path : List String) : Option Reading :=
  path.getLast?.bind fun key =>
    (Entries.changeAt .implied (fun _ entries =>
      match entries.lookup key with
      | none => some (entries ++ [(key, .table .header [])])
      | some (.table .implied inner) => some (Entries.replace key (.table .header inner) entries)
      | some _ => none) path.dropLast .header r.entries).map fun entries => ⟨entries, path⟩

/-- Open one more table under a header that may be repeated. -/
def openElement (r : Reading) (path : List String) : Option Reading :=
  path.getLast?.bind fun key =>
    (Entries.changeAt .implied (fun _ entries =>
      match entries.lookup key with
      | none => some (entries ++ [(key, .tables [[]])])
      | some (.tables elements) =>
        some (Entries.replace key (.tables (elements ++ [[]])) entries)
      | some _ => none) path.dropLast .header r.entries).map fun entries => ⟨entries, path⟩

end Reading

/-- A header after its first bracket, with the rest of its line. -/
def readHeader? (r : Reading) (cs : List Char) : Option (Reading × List Char) :=
  match cs with
  | '[' :: cs =>
    (readKey? cs).bind fun (path, rest) =>
      match rest with
      | ']' :: ']' :: rest =>
        (r.openElement path).bind fun r => (lineEnd? rest).map fun rest => (r, rest)
      | _ => none
  | cs =>
    (readKey? cs).bind fun (path, rest) =>
      match rest with
      | ']' :: rest => (r.openTable path).bind fun r => (lineEnd? rest).map fun rest => (r, rest)
      | _ => none

/-- A key with its value, and the rest of its line. -/
def readSetting? (r : Reading) (cs : List Char) : Option (Reading × List Char) :=
  (readPair? (readValue? depthLimit) cs).bind fun ((key, v), rest) =>
    (r.set key v).bind fun r => (lineEnd? rest).map fun rest => (r, rest)

def readLines? : Nat → Reading → List Char → Option Reading
  | 0, _, _ => none
  | fuel + 1, r, cs =>
    match skipSpace cs with
    | [] => some r
    | '[' :: rest => (readHeader? r rest).bind fun (r, rest) => readLines? fuel r rest
    | c :: rest =>
      if c = '#' || c = '\n' || c = '\r' then
        (lineEnd? (c :: rest)).bind fun rest => readLines? fuel r rest
      else (readSetting? r (c :: rest)).bind fun (r, rest) => readLines? fuel r rest

/-- The text without the mark that may open it. -/
def withoutMark : List Char → List Char
  | c :: cs => if c.toNat = 0xFEFF then cs else c :: cs
  | [] => []

/-- **The table of a document.** -/
def parse? (text : String) : Option Toml :=
  let cs := withoutMark text.toList
  (readLines? (cs.length + 1) {} cs).map fun r => .table (Entry.finishAll r.entries)

end Toml

end Ferric
