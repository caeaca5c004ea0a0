import Ferric.Toml.Number
import Ferric.Toml.Text

/-!
# Values of TOML

Lists, tables within a line, and everything that may stand behind an equals sign.

Tables grow while a document is read, so an entry remembers how its table came to be: what a header
has opened may not be extended by a key with dots, and what stands on one line is closed.

## Main definitions

* `Toml.Entry`: a value of a document that is still being read.
* `Toml.Entry.changeAt`: a change of the table at a path.
* `Toml.readValue?`: a value.
-/

namespace Ferric

namespace Toml

/-- How a table came to be. -/
inductive Origin where
  /-- By a header of its own, or as the whole document. -/
  | header
  /-- By a header of a table inside it. -/
  | implied
  /-- By a key with dots. -/
  | dotted
deriving DecidableEq, Repr

/-- A value of a document that is still being read. -/
inductive Entry where
  | value (v : Toml)
  | table (origin : Origin) (entries : List (String × Entry))
  /-- Tables opened one after the other by the same header, the latest last. -/
  | tables (elements : List (List (String × Entry)))

/-- The entries of a table that is still being read. -/
abbrev Entries := List (String × Entry)

namespace Entry

mutual

/-- The value that was read. -/
def finish : Entry → Toml
  | .value v => v
  | .table _ entries => .table (finishAll entries)
  | .tables elements => .array (finishEach elements)

/-- The entries of a table that was read. -/
def finishAll : List (String × Entry) → List (String × Toml)
  | [] => []
  | (key, entry) :: rest => (key, finish entry) :: finishAll rest

/-- Each of several tables that were read. -/
def finishEach : List (List (String × Entry)) → List Toml
  | [] => []
  | entries :: rest => .table (finishAll entries) :: finishEach rest

end

end Entry

namespace Entries

/-- Put an entry in the place of the one with the same key. -/
def replace (key : String) (entry : Entry) (entries : Entries) : Entries :=
  entries.map fun e => if e.1 == key then (key, entry) else e

/-- **Change the table at a path.**  Tables on the way that are missing are made, and remember
`origin`.  The way leads into the latest of several tables; it never leads into a finished value,
nor, by a key with dots, into a table that has its own header. -/
def changeAt (origin : Origin) (change : Origin → Entries → Option Entries) :
    List String → Origin → Entries → Option Entries
  | [], here, entries => change here entries
  | key :: path, _, entries =>
    match entries.lookup key with
    | none =>
      (changeAt origin change path origin []).map fun inner =>
        entries ++ [(key, .table origin inner)]
    | some (.value _) => none
    | some (.table there inner) =>
      if origin = .dotted && there = .header then none
      else (changeAt origin change path there inner).map fun inner =>
        replace key (.table there inner) entries
    | some (.tables elements) =>
      elements.getLast?.bind fun latest =>
        (changeAt origin change path .header latest).map fun inner =>
          replace key (.tables (elements.dropLast ++ [inner])) entries

/-- Set a key with dots.  The last key must be new, and a key with dots must not end in a table
that was not made by such keys. -/
def set (path : List String) (v : Toml) (here : Origin) (entries : Entries) : Option Entries :=
  path.getLast?.bind fun key =>
    let way := path.dropLast
    changeAt .dotted (fun origin entries =>
      if (origin == .dotted) == way.isEmpty then none
      else if (entries.lookup key).isSome then none
      else some (entries ++ [(key, .value v)])) way here entries

/-- Set one key after the other. -/
def setAll : List (List String × Toml) → Entries → Option Entries
  | [], entries => some entries
  | (path, v) :: rest, entries => (set path v .header entries).bind (setAll rest)

end Entries

/-! ## Reading -/

/-- The items of a list up to its closing bracket, with those read so far in reverse; a comma may
follow the last one. -/
def readItems? (item : List Char → Option (Toml × List Char)) :
    Nat → List Toml → List Char → Option (List Toml × List Char)
  | 0, _, _ => none
  | fuel + 1, done, cs =>
    match skipFiller cs with
    | ']' :: rest => some (done.reverse, rest)
    | start =>
      (item start).bind fun (v, rest) =>
        match skipFiller rest with
        | ',' :: rest => readItems? item fuel (v :: done) rest
        | ']' :: rest => some ((v :: done).reverse, rest)
        | _ => none

/-- A key, an equals sign and a value. -/
def readPair? (item : List Char → Option (Toml × List Char)) (cs : List Char) :
    Option ((List String × Toml) × List Char) :=
  (readKey? cs).bind fun (key, rest) =>
    match rest with
    | '=' :: rest => (item (skipSpace rest)).map fun (v, rest) => ((key, v), rest)
    | _ => none

/-- The pairs of a table within a line up to its closing brace, with those read so far in reverse;
no comma follows the last one. -/
def readPairs? (item : List Char → Option (Toml × List Char)) :
    Nat → List (List String × Toml) → List Char → Option (List (List String × Toml) × List Char)
  | 0, _, _ => none
  | fuel + 1, done, cs =>
    (readPair? item cs).bind fun (pair, rest) =>
      match skipSpace rest with
      | ',' :: rest => readPairs? item fuel (pair :: done) rest
      | '\x7d' :: rest => some ((pair :: done).reverse, rest)
      | _ => none

/-- A table within a line, after its opening brace. -/
def readInline? (item : List Char → Option (Toml × List Char)) (cs : List Char) :
    Option (Toml × List Char) :=
  match skipSpace cs with
  | '\x7d' :: rest => some (.table [], rest)
  | start =>
    (readPairs? item (start.length + 1) [] start).bind fun (pairs, rest) =>
      (Entries.setAll pairs []).map fun entries => (.table (Entry.finishAll entries), rest)

/-- **A value** that holds at most `depth` lists and tables inside each other. -/
def readValue? : Nat → List Char → Option (Toml × List Char)
  | depth, cs =>
    match cs with
    | '[' :: rest =>
      match depth with
      | 0 => none
      | depth + 1 =>
        (readItems? (readValue? depth) (rest.length + 1) [] rest).map fun (items, rest) =>
          (.array items, rest)
    | '\x7b' :: rest =>
      match depth with
      | 0 => none
      | depth + 1 => readInline? (readValue? depth) rest
    | 't' :: 'r' :: 'u' :: 'e' :: rest => some (.boolean true, rest)
    | 'f' :: 'a' :: 'l' :: 's' :: 'e' :: rest => some (.boolean false, rest)
    | c :: _ =>
      if c = '"' || c = '\'' then (readString? cs).map fun (s, rest) => (.string s, rest)
      else readNumber? cs
    | [] => none

end Toml

end Ferric
