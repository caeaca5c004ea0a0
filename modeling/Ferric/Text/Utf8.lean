/-!
# Reading bytes as text

Bytes that are no UTF-8 are read as the replacement character, one for each maximal part that
starts a character and breaks off.

A lead byte fixes how many bytes follow it and the range of the first of them; the later ones are
plain continuation bytes.
-/

namespace Ferric.Text

/-- What a lead byte announces: the bits it contributes, the range of the next byte, and how many
bytes follow in all. -/
structure Lead where
  bits : Nat
  low : Nat
  high : Nat
  owed : Nat

/-- What a byte announces as the first of a character of several bytes. -/
def lead? (b : Nat) : Option Lead :=
  if 0xC2 ≤ b && b ≤ 0xDF then some ⟨b - 0xC0, 0x80, 0xBF, 1⟩
  else if b == 0xE0 then some ⟨0, 0xA0, 0xBF, 2⟩
  else if b == 0xED then some ⟨0xD, 0x80, 0x9F, 2⟩
  else if 0xE1 ≤ b && b ≤ 0xEF then some ⟨b - 0xE0, 0x80, 0xBF, 2⟩
  else if b == 0xF0 then some ⟨0, 0x90, 0xBF, 3⟩
  else if 0xF1 ≤ b && b ≤ 0xF3 then some ⟨b - 0xF0, 0x80, 0xBF, 3⟩
  else if b == 0xF4 then some ⟨4, 0x80, 0x8F, 3⟩
  else none

/-- The character that stands for bytes that cannot be read. -/
def replacement : Char := Char.ofNat 0xFFFD

/-- Where a reader stands between two bytes: between characters, or inside one. -/
inductive Utf8State where
  | between
  | inside (lead : Lead)

/-- Read the bytes from a state, with the characters read so far in reverse. -/
def readFrom : Utf8State → List Char → List Nat → List Char
  | .between, done, [] => done.reverse
  | .inside _, done, [] => (replacement :: done).reverse
  | .between, done, b :: bs =>
    if b < 0x80 then readFrom .between (Char.ofNat b :: done) bs
    else match lead? b with
      | some lead => readFrom (.inside lead) done bs
      | none => readFrom .between (replacement :: done) bs
  | .inside lead, done, b :: bs =>
    if lead.low ≤ b && b ≤ lead.high then
      let bits := lead.bits * 64 + (b - 0x80)
      match lead.owed with
      | 0 | 1 => readFrom .between (Char.ofNat bits :: done) bs
      | owed + 1 => readFrom (.inside ⟨bits, 0x80, 0xBF, owed⟩) done bs
    else if b < 0x80 then readFrom .between (Char.ofNat b :: replacement :: done) bs
    else match lead? b with
      | some next => readFrom (.inside next) (replacement :: done) bs
      | none => readFrom .between (replacement :: replacement :: done) bs

/-- **Reading with replacement**: the text that the bytes spell, where each maximal part that is no
character is one replacement character. -/
def ofBytesLossy (bytes : List Nat) : String :=
  String.ofList (readFrom .between [] bytes)

def bytes (s : String) : List Nat :=
  s.toUTF8.toList.map UInt8.toNat

/-- The text that the bytes spell, if every part of them is a character.  A part that is none would
be replaced, and its replacement has other bytes. -/
def ofBytes? (bs : List Nat) : Option String :=
  let s := ofBytesLossy bs
  if bytes s == bs then some s else none

/-- The text of a string that ends at its first zero byte. -/
def ofTerminated (bytes : List Nat) : String :=
  ofBytesLossy (bytes.takeWhile (· != 0))

end Ferric.Text
