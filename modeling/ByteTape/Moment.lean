import ByteTape.Text.Hex

/-! # Moments

A date and a time of day, and how they are written.
-/

namespace ByteTape

/-- A moment in universal time. -/
structure Moment where
  year : Nat
  month : Nat
  day : Nat
  hour : Nat
  minute : Nat
  second : Nat
  microsecond : Nat
deriving DecidableEq

namespace Moment

/-- A number with leading zeros. -/
def padded (width n : Nat) : String := String.ofList (Text.padLeft width '0' (Nat.toDigits 10 n))

/-- The date and the time; a fraction is written only if there is one. -/
def stamp (m : Moment) : String :=
  let date := "-".intercalate [padded 4 m.year, padded 2 m.month, padded 2 m.day]
  let time := ":".intercalate [padded 2 m.hour, padded 2 m.minute, padded 2 m.second]
  let fraction := if m.microsecond = 0 then "" else "." ++ padded 6 m.microsecond
  s!"{date}T{time}{fraction}Z"

/-- The moment some seconds and microseconds after the beginning of 1970. Years are
counted from March, so that a leap day is the last day of its year. -/
def ofUnix (seconds microseconds : Nat) : Moment :=
  let days := seconds / 86400 + 719468
  let inEra := days % 146097
  let yearOfEra := (inEra - inEra / 1460 + inEra / 36524 - inEra / 146096) / 365
  let inYear := inEra - (365 * yearOfEra + yearOfEra / 4 - yearOfEra / 100)
  let fromMarch := (5 * inYear + 2) / 153
  let month := if fromMarch < 10 then fromMarch + 3 else fromMarch - 9
  let year := yearOfEra + days / 146097 * 400 + if month ≤ 2 then 1 else 0
  let rest := seconds % 86400
  ⟨year, month, inYear - (153 * fromMarch + 2) / 5 + 1, rest / 3600, rest / 60 % 60, rest % 60,
    microseconds⟩

end Moment

end ByteTape
