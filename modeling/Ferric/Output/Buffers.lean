import Ferric.Output.Preamble
import Ferric.Text.Lines

/-!
# Output buffers

The texts of a run, each under the name of its buffer.  A buffer comes into being when it is first
used, with the preamble as its first text, and buffers keep the order of their first use.  The
level of indentation belongs to the whole set and not to a single buffer.

## Main definitions

* `Output`: the buffers with the level of indentation.
* `Output.append`: the one operation that changes a buffer.
* `Output.writeLine`, `Output.blankLine`, `Output.openBuffer`: what is written with it.
* `Block`, `Output.writeBlocks`: whole declarations.
-/

namespace Ferric

/-- **The buffers of a run**, in the order of their first use. -/
structure Output where
  /-- The text each buffer starts with. -/
  preamble : String := ""
  buffers : List (String × String) := []
  level : Nat := 0

namespace Output

/-- No buffers yet; each is going to start with a preamble. -/
def fresh (preamble : Option Preamble) (time : Timestamp) : Output :=
  { preamble := (preamble.map (·.render time)).getD "" }

@[simp] theorem level_fresh (preamble : Option Preamble) (time : Timestamp) :
    (fresh preamble time).level = 0 := rfl

/-- One level further in. -/
def indent (o : Output) : Output :=
  { o with level := o.level + 1 }

/-- One level back, down to none. -/
def outdent (o : Output) : Output :=
  { o with level := o.level - 1 }

def get? (o : Output) (buffer : String) : Option String :=
  o.buffers.lookup buffer

def contains (o : Output) (buffer : String) : Bool :=
  (o.get? buffer).isSome

/-- The names of the buffers. -/
def ids (o : Output) : List String :=
  o.buffers.map (·.1)

/-- Whether no buffer is in use. -/
def isEmpty (o : Output) : Bool :=
  o.buffers.isEmpty

/-- Append a text to the first buffer of that name, or open one with a preamble at the end. -/
def appendTo (preamble buffer text : String) : List (String × String) → List (String × String)
  | [] => [(buffer, preamble ++ text)]
  | (id, old) :: rest =>
    if id == buffer then (id, old ++ text) :: rest
    else (id, old) :: appendTo preamble buffer text rest

/-- **Append a text to a buffer**, which is opened if need be. -/
def append (o : Output) (buffer text : String) : Output :=
  { o with buffers := appendTo o.preamble buffer text o.buffers }

/-- Use a buffer without writing to it. -/
def openBuffer (o : Output) (buffer : String) : Output :=
  o.append buffer ""

def writeLine (o : Output) (buffer text : String) : Output :=
  o.append buffer (Text.indented o.level text)

/-- Write an empty line. -/
def blankLine (o : Output) (buffer : String) : Output :=
  o.append buffer "\n"

/-! ### Views -/

theorem lookup_appendTo_self (preamble buffer text : String) (bs : List (String × String)) :
    (appendTo preamble buffer text bs).lookup buffer =
      some ((bs.lookup buffer).getD preamble ++ text) := by
  induction bs with
  | nil => simp [appendTo]
  | cons b bs ih =>
    obtain ⟨id, old⟩ := b
    by_cases h : id = buffer
    · simp [appendTo, h]
    · have h' : (buffer == id) = false := by simpa using Ne.symm h
      simp [appendTo, h, List.lookup_cons, h', ih]

theorem lookup_appendTo_of_ne (preamble text : String) {buffer other : String}
    (ne : other ≠ buffer) (bs : List (String × String)) :
    (appendTo preamble buffer text bs).lookup other = bs.lookup other := by
  induction bs with
  | nil =>
    have h' : (other == buffer) = false := by simpa using ne
    simp [appendTo, List.lookup_cons, h']
  | cons b bs ih =>
    obtain ⟨id, old⟩ := b
    by_cases h : id = buffer
    · subst h
      have h' : (other == id) = false := by simpa using ne
      simp [appendTo, List.lookup_cons, h']
    · cases h' : other == id <;> simp [appendTo, h, List.lookup_cons, h', ih]

/-- Appending to a buffer puts the text after what it held, or after the preamble. -/
@[simp] theorem get?_append_self (o : Output) (buffer text : String) :
    (o.append buffer text).get? buffer = some ((o.get? buffer).getD o.preamble ++ text) :=
  lookup_appendTo_self ..

theorem get?_append_of_ne (o : Output) (text : String) {buffer other : String}
    (ne : other ≠ buffer) : (o.append buffer text).get? other = o.get? other :=
  lookup_appendTo_of_ne _ _ ne _

@[simp] theorem level_append (o : Output) (buffer text : String) :
    (o.append buffer text).level = o.level := rfl

@[simp] theorem preamble_append (o : Output) (buffer text : String) :
    (o.append buffer text).preamble = o.preamble := rfl

end Output

/-- The text of one declaration, with the buffer it goes to. -/
structure Block where
  buffer : String
  text : String
deriving DecidableEq, Repr

/-- A declaration at some level of indentation. -/
def Block.raised (depth : Nat) (b : Block) : Block :=
  { b with text := Text.raised depth b.text }

@[simp] theorem Block.raised_zero (b : Block) : b.raised 0 = b := by
  simp [raised, Text.raised, Text.onChars]

def Output.writeBlocks (o : Output) (blocks : List Block) : Output :=
  blocks.foldl (fun o b => o.append b.buffer b.text) o

end Ferric
