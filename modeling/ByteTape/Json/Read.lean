import ByteTape.Json.Value
import ByteTape.Report
import ByteTape.Text.Numeral

/-! # Reading JSON

One value, with blanks around it. Every reader takes what is left of the text
and returns what it leaves.
-/

namespace ByteTape

/-- Why a text is no value. -/
inductive JsonError where
  | malformed
  /-- A whole number with too many digits. -/
  | tooLong (digits : Nat)
deriving DecidableEq

def JsonError.report : JsonError → Report
  | malformed => .bare .json ""
  | tooLong digits => (Text.NumeralError.tooLong digits).report

namespace JsonValue

/-- The blanks between the parts of a value. -/
def isGap (c : Char) : Bool := c == ' ' || c == '\t' || c == '\n' || c == '\r'

def skipGap (text : List Char) : List Char := text.dropWhile isGap

/-- What is left behind a word. -/
def after? (word : String) (text : List Char) : Option (List Char) :=
  if word.toList.isPrefixOf text then some (text.drop word.length) else none

/-- The number of four digits. -/
def unit? (a b c d : Char) : Option Nat := do
  return (← Text.hexValue? a) * 0x1000 + (← Text.hexValue? b) * 0x100 + (← Text.hexValue? c) * 0x10 +
    (← Text.hexValue? d)

/-- The character of an escape of one letter. -/
def unescape? : Char → Option Char
  | '\x22' => some '\x22'
  | '\\' => some '\\'
  | '/' => some '/'
  | 'b' => some '\x08'
  | 'f' => some '\x0c'
  | 'n' => some '\n'
  | 'r' => some '\r'
  | 't' => some '\t'
  | _ => none

/-- The characters and escapes up to the closing quote. -/
def readPoints : List Char → Option (JsonText × List Char)
  | [] => none
  | '\x22' :: rest => some ([], rest)
  | '\\' :: 'u' :: a :: b :: c :: d :: rest =>
    match unit? a b c d, readPoints rest with
    | some n, some (points, rest) => some (.ofUnit n :: points, rest)
    | _, _ => none
  | '\\' :: c :: rest =>
    match unescape? c, readPoints rest with
    | some c, some (points, rest) => some (.char c :: points, rest)
    | _, _ => none
  | c :: rest =>
    if c.toNat < 0x20 then none
    else
      match readPoints rest with
      | some (points, rest) => some (.char c :: points, rest)
      | none => none

/-- Join the halves that stand for one character. -/
def join : JsonText → JsonText
  | .high first :: .low second :: rest => .ofPair first second :: join rest
  | point :: rest => point :: join rest
  | [] => []

/-- A text behind its opening quote. -/
def readText (text : List Char) : Except JsonError (JsonText × List Char) :=
  match readPoints text with
  | some (points, rest) => .ok (join points, rest)
  | none => .error .malformed

/-- The digits at the front. -/
def digits (text : List Char) : List Char := text.takeWhile Char.isDigit

/-- A fraction, or nothing. -/
def fraction : List Char → List Char
  | '.' :: rest => if (digits rest).isEmpty then [] else '.' :: digits rest
  | _ => []

/-- An exponent, or nothing. -/
def exponent : List Char → List Char
  | e :: rest =>
    if e = 'e' || e = 'E' then
      let sign := rest.take 1 |>.filter fun c => c == '+' || c == '-'
      let power := digits (rest.drop sign.length)
      if power.isEmpty then [] else e :: sign ++ power
    else []
  | [] => []

/-- The digits of a whole number: zero stands alone. -/
def whole (text : List Char) : List Char :=
  if text.head? = some '0' then ['0'] else digits text

/-- A number. -/
def readNumber (text : List Char) : Except JsonError (JsonValue × List Char) :=
  let sign := text.take 1 |>.filter (· == '-')
  let unsigned := text.drop sign.length
  let count := whole unsigned
  let rest := unsigned.drop count.length
  let part := fraction rest
  let power := exponent (rest.drop part.length)
  let left := rest.drop (part.length + power.length)
  if count.isEmpty then .error .malformed
  else if !part.isEmpty || !power.isEmpty then
    .ok (.real (String.ofList (sign ++ count ++ part ++ power)), left)
  else
    match Text.integer 10 (String.ofList (sign ++ count)) with
    | .ok n => .ok (.int n, left)
    | .error (.tooLong size) => .error (.tooLong size)
    | .error _ => .error .malformed

/-- Values that are words. -/
def wordsOf : List (String × JsonValue) :=
  [("null", null), ("true", bool true), ("false", bool false), ("NaN", real "nan"),
    ("Infinity", real "inf"), ("-Infinity", real "-inf")]

/-- A word or a number. -/
def readSimple (text : List Char) : Except JsonError (JsonValue × List Char) :=
  match wordsOf.findSome? fun (word, value) => (after? word text).map fun rest => (value, rest) with
  | some found => .ok found
  | none => readNumber text

mutual

/-- A value at the front. The number bounds the readers inside one another. -/
def readValue : Nat → List Char → Except JsonError (JsonValue × List Char)
  | 0, _ => .error .malformed
  | fuel + 1, text =>
    match text with
    | '\x22' :: rest => do
      let (text, rest) ← readText rest
      return (.str text, rest)
    | '[' :: rest =>
      match skipGap rest with
      | ']' :: rest => .ok (.arr [], rest)
      | rest => do
        let (items, rest) ← readItems fuel rest
        return (.arr items, rest)
    | '\x7b' :: rest =>
      match skipGap rest with
      | '\x7d' :: rest => .ok (.obj [], rest)
      | rest => do
        let (fields, rest) ← readFields fuel rest
        return (.ofFields fields, rest)
    | text => readSimple text

/-- Values up to the end of a list. -/
def readItems : Nat → List Char → Except JsonError (List JsonValue × List Char)
  | 0, _ => .error .malformed
  | fuel + 1, text => do
    let (item, rest) ← readValue fuel text
    match skipGap rest with
    | ']' :: rest => return ([item], rest)
    | ',' :: rest =>
      let (items, rest) ← readItems fuel (skipGap rest)
      return (item :: items, rest)
    | _ => throw .malformed

/-- Fields up to the end of an object. -/
def readFields : Nat → List Char → Except JsonError (List (JsonText × JsonValue) × List Char)
  | 0, _ => .error .malformed
  | fuel + 1, '\x22' :: text => do
    let (name, rest) ← readText text
    match skipGap rest with
    | ':' :: rest =>
      let (value, rest) ← readValue fuel (skipGap rest)
      match skipGap rest with
      | '\x7d' :: rest => return ([(name, value)], rest)
      | ',' :: rest =>
        let (fields, rest) ← readFields fuel (skipGap rest)
        return ((name, value) :: fields, rest)
      | _ => throw .malformed
    | _ => throw .malformed
  | _, _ => .error .malformed

end

/-- The value of a text. Each reader inside another has taken a character, or is
the list of its values, so twice the length bounds them. -/
def read (text : String) : Except JsonError JsonValue := do
  let (value, rest) ← readValue (2 * text.length + 2) (skipGap text.toList)
  if (skipGap rest).isEmpty then return value else throw .malformed

end JsonValue

end ByteTape
