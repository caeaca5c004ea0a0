/-!
# Sets of code points by their boundaries

A set of code points is written as the ascending list of the places where membership changes,
starting outside: `[a, b, c]` is everything from `a` up to `b`, and from `c` on.
-/

namespace Ferric.Chars

/-- Whether `n` lies inside, where `inside` says how things stand before the first boundary. -/
def insideFrom (inside : Bool) : List Nat → Nat → Bool
  | [], _ => inside
  | b :: bs, n => if n < b then inside else insideFrom (!inside) bs n

/-- Membership in the set with the given boundaries. -/
def within (boundaries : List Nat) (n : Nat) : Bool :=
  insideFrom false boundaries n

example : within [3, 5, 9] 2 = false ∧ within [3, 5, 9] 4 = true ∧ within [3, 5, 9] 5 = false ∧
    within [3, 5, 9] 70 = true := by decide

end Ferric.Chars
