import ByteTape.Json.Value
import ByteTape.Text.Numeral

/-! # JSON text

Values written in ASCII on one line. A character beyond ASCII is written by the
number of its one or two units of sixteen bits, and a whole number only if it is short
enough to be read again.
-/

namespace ByteTape.JsonValue

/-- The two units of a character that does not fit into one. -/
def surrogates (n : Nat) : Nat × Nat :=
  (0xd800 + (n - 0x10000) / 0x400, 0xdc00 + (n - 0x10000) % 0x400)

/-- A unit by its number. -/
def escapeUnit (n : Nat) : List Char := '\\' :: 'u' :: Text.hexDigits 4 n

/-- A character inside a text. -/
def escapeChar (c : Char) : List Char :=
  let n := c.toNat
  if n = 0x22 || n = 0x5c then ['\\', c]
  else if n = 0x0a then ['\\', 'n']
  else if n = 0x0d then ['\\', 'r']
  else if n = 0x09 then ['\\', 't']
  else if n = 0x08 then ['\\', 'b']
  else if n = 0x0c then ['\\', 'f']
  else if 0x20 ≤ n && n < 0x7f then [c]
  else if n < 0x10000 then escapeUnit n
  else escapeUnit (surrogates n).1 ++ escapeUnit (surrogates n).2

/-- A code point inside a text. -/
def escape : Text.CodePoint → List Char
  | .char c => escapeChar c
  | half => escapeUnit half.number

/-- A text between its quotes. -/
def writeText (text : JsonText) : String :=
  String.ofList ('\x22' :: text.flatMap escape ++ ['\x22'])

mutual

/-- The text of a value. -/
def write : JsonValue → String
  | null => "null"
  | bool true => "true"
  | bool false => "false"
  | int n => toString n
  | real spelling => spelling
  | str text => writeText text
  | arr items => "[" ++ ", ".intercalate (writeItems items) ++ "]"
  | obj fields => "\x7b" ++ ", ".intercalate (writeFields fields) ++ "\x7d"

def writeItems : List JsonValue → List String
  | [] => []
  | item :: rest => item.write :: writeItems rest

def writeFields : List (JsonText × JsonValue) → List String
  | [] => []
  | (name, value) :: rest => (writeText name ++ ": " ++ value.write) :: writeFields rest

end

mutual

/-- No whole number in the value has too many digits. -/
def isShort : JsonValue → Bool
  | int n => (Nat.toDigits 10 n.natAbs).length ≤ Text.mostDigits
  | arr items => allShort items
  | obj fields => fieldsShort fields
  | null | bool _ | real _ | str _ => true

def allShort : List JsonValue → Bool
  | [] => true
  | item :: rest => item.isShort && allShort rest

def fieldsShort : List (JsonText × JsonValue) → Bool
  | [] => true
  | (_, value) :: rest => value.isShort && fieldsShort rest

end

/-- The complaint about a number that has too many digits. -/
def tooLong : Report :=
  .bare .value <| s!"Exceeds the limit ({Text.mostDigits} digits) for integer string conversion; " ++
    "use sys.set_int_max_str_digits() to increase the limit"

/-- The text of a value that can be written. -/
def dump (v : JsonValue) : Except Report String :=
  if v.isShort then .ok v.write else .error tooLong

end ByteTape.JsonValue
