import ByteTape.Report
import ByteTape.Text.Numeral

/-! # Numbered history

The last things of a session under their numbers, oldest first, and how one of
them is named.
-/

namespace ByteTape

/-- Things under their numbers, oldest first. -/
abbrev History (α : Type) := List (Int × α)

/-- Why a name leads to nothing. -/
inductive PickError where
  /-- There is nothing yet. -/
  | nothing
  | notNumber (token : String)
  | notKept (number : Int) (kept : List Int)
  /-- Digits that do not make a number. -/
  | numeral (e : Text.NumeralError)
deriving DecidableEq

namespace PickError

def report : PickError → Report
  | nothing => .bare .key "nothing compiled yet"
  | notNumber token => .bare .key s!"'{token}' is not a program number"
  | notKept number kept =>
    let known := ", ".intercalate (kept.map fun n => s!"#{n}")
    .bare .key s!"program #{number} is not kept (have {known})"
  | numeral e => e.report

end PickError

namespace History

variable {α : Type}

/-- The number a name stands for. It may be written behind number signs. -/
def numberOf (token : String) : Except PickError Int :=
  let digits := token.toList.dropWhile (· == '#')
  if digits.isEmpty || !digits.all Text.isDigit then .error (.notNumber token)
  else (Text.integer 10 (String.ofList digits)).mapError .numeral

/-- The thing with a name, or the latest if none is named. -/
def pick (h : History α) (token : Option String) : Except PickError (Int × α) :=
  match h.getLast?, token with
  | none, _ => .error .nothing
  | some latest, none => .ok latest
  | some _, some token =>
    match numberOf token with
    | .error e => .error e
    | .ok number =>
      match h.lookup number with
      | some value => .ok (number, value)
      | none => .error (.notKept number (h.map Prod.fst))

/-- Add the newest and keep no more than `limit`. -/
def keep (h : History α) (limit : Nat) (number : Int) (value : α) : History α :=
  let all := h ++ [(number, value)]
  all.drop (all.length - limit)

end History

end ByteTape
