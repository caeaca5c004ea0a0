/-!
# Points in time

Seconds since the start of 1970, shown as a date and a time of day in universal time.
-/

namespace Ferric

/-- Seconds since the first of January 1970, universal time. -/
structure Timestamp where
  seconds : Nat
deriving DecidableEq, Repr

namespace Timestamp

/-- A day of the Gregorian calendar. -/
structure Date where
  year : Nat
  month : Nat
  day : Nat
deriving DecidableEq, Repr

/-- The date a number of days after the first of January 1970.  Days are counted from the first of
March of year zero, in eras of four hundred years, so that leap days come last. -/
def date (days : Nat) : Date :=
  let shifted := days + 719468
  let era := shifted / 146097
  let dayOfEra := shifted % 146097
  let yearOfEra :=
    (dayOfEra - dayOfEra / 1460 + dayOfEra / 36524 - dayOfEra / 146096) / 365
  let dayOfYear := dayOfEra - (365 * yearOfEra + yearOfEra / 4 - yearOfEra / 100)
  let fromMarch := (5 * dayOfYear + 2) / 153
  let month := if fromMarch < 10 then fromMarch + 3 else fromMarch - 9
  { year := yearOfEra + era * 400 + (if month ≤ 2 then 1 else 0)
    month
    day := dayOfYear - (153 * fromMarch + 2) / 5 + 1 }

/-- The decimal digits of a number, with zeros in front up to a width. -/
def padded (width n : Nat) : String :=
  let digits := Nat.toDigits 10 n
  String.ofList (List.replicate (width - digits.length) '0' ++ digits)

/-- The point in time as `YYYY-MM-DDTHH:MM:SSZ`. -/
def render (t : Timestamp) : String :=
  let d := date (t.seconds / 86400)
  let s := t.seconds % 86400
  padded 4 d.year ++ "-" ++ padded 2 d.month ++ "-" ++ padded 2 d.day ++ "T" ++
    padded 2 (s / 3600) ++ ":" ++ padded 2 (s / 60 % 60) ++ ":" ++ padded 2 (s % 60) ++ "Z"

example : render ⟨1700000000⟩ = "2023-11-14T22:13:20Z" ∧ render ⟨0⟩ = "1970-01-01T00:00:00Z" ∧
    render ⟨951782400⟩ = "2000-02-29T00:00:00Z" := by decide +kernel

end Timestamp

end Ferric
