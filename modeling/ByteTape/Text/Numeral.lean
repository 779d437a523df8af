import ByteTape.Text.Blank
import ByteTape.Text.Digit
import ByteTape.Text.Quoted
import ByteTape.Report

/-! # Whole numbers in text

A numeral is a sign and digits, with blanks around it. Digits may be those of
any script, and one underscore may stand between two of them. In base sixteen
a numeral may begin with `0x`.
-/

namespace ByteTape.Text

/-- Every script's digits as ASCII digits and every blank beyond ASCII as a space. -/
def asciiDigit (c : Char) : Char :=
  if c.toNat < 0x7f then c
  else if isBlank c then ' '
  else
    match decimalValue? c with
    | some value => Nat.digitChar value
    | none => '?'

/-- The value of a digit of this base. -/
def digitValue? (base : Nat) (c : Char) : Option Nat :=
  (hexValue? c).filter (· < base)

/-- The digits from the front of a text on, `value` being what stands before
them: every digit counts, and an underscore only between two digits. -/
def digitsFrom (base value : Nat) : List Char → Option Nat
  | [] => some value
  | '_' :: c :: rest => (digitValue? base c).bind fun d => digitsFrom base (value * base + d) rest
  | c :: rest => (digitValue? base c).bind fun d => digitsFrom base (value * base + d) rest

/-- Digits that begin with a digit. -/
def digits? (base : Nat) : List Char → Option Nat
  | [] => none
  | c :: rest => (digitValue? base c).bind fun d => digitsFrom base d rest

/-- Digits that may begin with `0x` and one underscore in base sixteen. -/
def unsigned? (base : Nat) (text : List Char) : Option Nat :=
  match base, text with
  | 16, '0' :: x :: rest =>
    if x = 'x' || x = 'X' then
      match rest with
      | '_' :: rest => digits? 16 rest
      | rest => digits? 16 rest
    else digits? 16 text
  | _, _ => digits? base text

/-- A text without the ASCII blanks at its two ends. -/
def trim (text : List Char) : List Char :=
  ((text.dropWhile isAsciiBlank).reverse.dropWhile isAsciiBlank).reverse

/-- A whole number with an optional sign. -/
def integer? (base : Nat) (text : List Char) : Option Int :=
  match trim (text.map asciiDigit) with
  | '-' :: rest => (unsigned? base rest).map fun n => -(n : Int)
  | '+' :: rest => (unsigned? base rest).map fun n => (n : Int)
  | rest => (unsigned? base rest).map fun n => (n : Int)

/-- The most digits a decimal numeral may have. -/
def mostDigits : Nat := 4300

/-- Why a text is no whole number. -/
inductive NumeralError where
  | malformed (base : Nat) (text : String)
  | tooLong (digits : Nat)
deriving DecidableEq

def NumeralError.report : NumeralError → Report
  | malformed base text =>
    let shown := String.ofList ((quoted text).toList.take 200)
    .bare .value s!"invalid literal for int() with base {base}: {shown}"
  | tooLong digits =>
    .bare .value <|
      s!"Exceeds the limit ({mostDigits} digits) for integer string conversion: value has {digits} " ++
      "digits; use sys.set_int_max_str_digits() to increase the limit"

/-- The number a text stands for. Base sixteen knows no limit of length. -/
def integer (base : Nat) (text : String) : Except NumeralError Int :=
  match integer? base text.toList with
  | none => .error (.malformed base text)
  | some n =>
    let count := (text.toList.filter fun c => (decimalValue? c).isSome).length
    if base = 10 && mostDigits < count then .error (.tooLong count) else .ok n

end ByteTape.Text
