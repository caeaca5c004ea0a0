import Ferric.Text.Unprintable

/-!
# Quoted text

How a text is shown between double quotes in messages: quotes and backslashes are escaped, the
common controls have their letters, and every other character without a visible form is given by
its number.
-/

namespace Ferric.Text

/-- The digits of a number in base sixteen, lower case, without padding. -/
def hexadecimal (n : Nat) : String :=
  String.ofList (Nat.toDigits 16 n)

/-- How one character stands inside quotes. -/
def quotedChar (c : Char) : String :=
  if c = '"' then "\\\""
  else if c = '\\' then "\\\\"
  else if c = '\n' then "\\n"
  else if c = '\r' then "\\r"
  else if c = '\t' then "\\t"
  else if c.toNat = 0 then "\\0"
  else if Chars.isUnprintable c then "\\u\x7b" ++ hexadecimal c.toNat ++ "\x7d"
  else String.singleton c

/-- The text between double quotes, with escapes. -/
def quoted (s : String) : String :=
  "\"" ++ String.join (s.toList.map quotedChar) ++ "\""

end Ferric.Text
