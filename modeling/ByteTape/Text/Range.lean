/-! # Sets of code points

A set of numbers given by the points where membership changes: the first number
in it, the first one after that run, the first of the next run, and so on.
-/

namespace ByteTape.Text

/-- Whether a number lies in one of the runs that these bounds delimit. -/
def within : List Nat → Nat → Bool
  | first :: stop :: rest, n => if n < first then false else n < stop || within rest n
  | _, _ => false

end ByteTape.Text
