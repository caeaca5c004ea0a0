/-!
# Replacing a text inside a text

Occurrences are found from the left and do not overlap.  The empty pattern occurs before every
character and at the end.
-/

namespace Ferric

namespace Chars

/-- Replace occurrences of a non-empty pattern; `skip` characters of the last one found are still
to be passed over. -/
def replaceFrom (pattern substitute : List Char) : Nat → List Char → List Char
  | _, [] => []
  | skip + 1, _ :: cs => replaceFrom pattern substitute skip cs
  | 0, c :: cs =>
    if pattern.isPrefixOf (c :: cs) then
      substitute ++ replaceFrom pattern substitute (pattern.length - 1) cs
    else c :: replaceFrom pattern substitute 0 cs

def replace (pattern substitute cs : List Char) : List Char :=
  if pattern.isEmpty then cs.foldr (fun c rest => substitute ++ c :: rest) substitute
  else replaceFrom pattern substitute 0 cs

end Chars

namespace Text

def replace (pattern substitute s : String) : String :=
  String.ofList (Chars.replace pattern.toList substitute.toList s.toList)

example : replace "aa" "b" "aaaa-a" = "bb-a" ∧ replace "" "-" "xy" = "-x-y-" := by decide

end Text

end Ferric
