/-!
# Blank characters

White space as every reader of this library understands it, and the trimming and splitting that
rest on it.  The work is done on lists of characters; the functions of `Ferric.Text` lift it to
strings.

## Main definitions

* `Chars.isBlank`: the white space characters.
* `Chars.trimStart`, `Chars.trimEnd`, `Chars.trim`: drop them from the ends.
* `Chars.words`: the maximal runs of other characters.
-/

namespace Ferric

namespace Chars

/-- White space: the controls from tab to carriage return, next line, and the space separators of
every width, with the line and paragraph separators. -/
def isBlank (c : Char) : Bool :=
  let n := c.toNat
  n == 0x20 || (0x09 ≤ n && n ≤ 0x0D) || n == 0x85 || n == 0xA0 || n == 0x1680 ||
    (0x2000 ≤ n && n ≤ 0x200A) || n == 0x2028 || n == 0x2029 || n == 0x202F || n == 0x205F ||
    n == 0x3000

/-- Drop the last characters as long as they satisfy `p`. -/
def dropEndWhile (p : Char → Bool) (cs : List Char) : List Char :=
  (cs.reverse.dropWhile p).reverse

/-- Drop the blanks in front. -/
def trimStart (cs : List Char) : List Char :=
  cs.dropWhile isBlank

/-- Drop the blanks at the end. -/
def trimEnd (cs : List Char) : List Char :=
  dropEndWhile isBlank cs

/-- Drop the blanks at both ends. -/
def trim (cs : List Char) : List Char :=
  trimEnd (trimStart cs)

/-- Whether nothing but blanks is left. -/
def isBlankText (cs : List Char) : Bool :=
  cs.all isBlank

/-- The words of a text, given the word being read in reverse. -/
def wordsFrom : List Char → List Char → List (List Char)
  | [], [] => []
  | word, [] => [word.reverse]
  | word, c :: cs =>
    if isBlank c then
      match word with
      | [] => wordsFrom [] cs
      | _ => word.reverse :: wordsFrom [] cs
    else wordsFrom (c :: word) cs

/-- The maximal runs of characters that are not blank, in order. -/
def words (cs : List Char) : List (List Char) :=
  wordsFrom [] cs

@[simp] theorem trim_nil : trim [] = [] := rfl

theorem length_dropEndWhile_le (p : Char → Bool) (cs : List Char) :
    (dropEndWhile p cs).length ≤ cs.length := by
  have shorter : (cs.reverse.dropWhile p).length ≤ cs.reverse.length :=
    (List.dropWhile_sublist p).length_le
  simpa [dropEndWhile] using shorter

theorem length_trim_le (cs : List Char) : (trim cs).length ≤ cs.length :=
  Nat.le_trans (length_dropEndWhile_le _ _) (List.dropWhile_sublist _).length_le

end Chars

namespace Text

/-- Apply a function on characters to a string. -/
def onChars (f : List Char → List Char) (s : String) : String :=
  String.ofList (f s.toList)

@[simp] theorem toList_onChars (f : List Char → List Char) (s : String) :
    (onChars f s).toList = f s.toList := by
  simp [onChars]

/-- Drop the blanks in front. -/
def trimStart : String → String :=
  onChars Chars.trimStart

/-- Drop the blanks at the end. -/
def trimEnd : String → String :=
  onChars Chars.trimEnd

/-- Drop the blanks at both ends. -/
def trim : String → String :=
  onChars Chars.trim

/-- Whether the text holds nothing but blanks. -/
def isBlankText (s : String) : Bool :=
  Chars.isBlankText s.toList

def startsWith (s start : String) : Bool :=
  start.toList.isPrefixOf s.toList

def endsWith (s ending : String) : Bool :=
  ending.toList.isSuffixOf s.toList

def after? (start s : String) : Option String :=
  (start.toList.isPrefixOf? s.toList).map String.ofList

/-- The texts with `separator` between each two of them. -/
def joined (separator : String) (parts : List String) : String :=
  separator.intercalate parts

/-- The texts on lines of their own. -/
def stacked (parts : List String) : String :=
  joined "\n" parts

end Text

end Ferric
