import ByteTape.Text.Numeral

/-! # Repetition counts

A count is kept as it is written: as hexadecimal digits or as a character that
stands for its code. What it is worth is found only when it is used.
-/

namespace ByteTape

/-- A repetition count as written. -/
inductive Count where
  /-- Hexadecimal digits. -/
  | hex (digits : String)
  /-- A character after a quote mark. -/
  | char (text : String)
  /-- A notation that nothing gives a value to. -/
  | other (kind text : String)
deriving DecidableEq

/-- Why a count has no value. -/
inductive CountError where
  | numeral (e : Text.NumeralError)
  /-- A character count that is not one character. -/
  | notOneChar
  | unknownKind (kind : String)
deriving DecidableEq

def CountError.report : CountError → Report
  | numeral e => e.report
  | notOneChar => .bare .type "a character count needs exactly one character"
  | unknownKind kind => .bare .value s!"Unknown count kind '{kind}'"

namespace Count

def ofKind (kind text : String) : Count :=
  if kind = "hex" then .hex text else if kind = "char" then .char text else .other kind text

def kind : Count → String
  | hex _ => "hex"
  | char _ => "char"
  | other kind _ => kind

def text : Count → String
  | hex digits => digits
  | char text => text
  | other _ text => text

/-- How often a count repeats; a negative value repeats nothing. -/
def value : Count → Except CountError Int
  | hex digits =>
    match Text.integer 16 digits with
    | .ok n => .ok n
    | .error e => .error (.numeral e)
  | char text =>
    match text.toList with
    | [c] => .ok c.toNat
    | _ => .error .notOneChar
  | other kind _ => .error (.unknownKind kind)

end Count

end ByteTape
