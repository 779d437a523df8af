import ByteTape.Keyed
import ByteTape.Text.CodePoint

/-! # JSON values

Values with fields in the order in which they were given, and how a value is
shown to a reader.
-/

namespace ByteTape

/-- A text as a value holds it. -/
abbrev JsonText := List Text.CodePoint

inductive JsonValue where
  | null
  | bool (b : Bool)
  | int (n : Int)
  /-- A number with a fraction or an exponent, as it is spelled. -/
  | real (spelling : String)
  | str (text : JsonText)
  | arr (items : List JsonValue)
  | obj (fields : List (JsonText × JsonValue))

namespace JsonValue

/-- Fields by name; of two with one name the later value counts. -/
def ofFields (fields : List (JsonText × JsonValue)) : JsonValue :=
  .obj (fields.foldl (fun known field => put field.1 field.2 known) [])

/-- Whether there is something to show. -/
def isPresent : JsonValue → Bool
  | null => false
  | bool b => b
  | int n => n != 0
  | real _ => true
  | str text => !text.isEmpty
  | arr items => !items.isEmpty
  | obj fields => !fields.isEmpty

mutual

/-- A value with its texts between quotes. -/
def quoted : JsonValue → String
  | null => "None"
  | bool true => "True"
  | bool false => "False"
  | int n => toString n
  | real spelling => spelling
  | str text => Text.quotedPoints text
  | arr items => "[" ++ ", ".intercalate (quotedItems items) ++ "]"
  | obj fields => "\x7b" ++ ", ".intercalate (quotedFields fields) ++ "\x7d"

def quotedItems : List JsonValue → List String
  | [] => []
  | item :: rest => item.quoted :: quotedItems rest

def quotedFields : List (JsonText × JsonValue) → List String
  | [] => []
  | (name, value) :: rest => (Text.quotedPoints name ++ ": " ++ value.quoted) :: quotedFields rest

end

/-- A value as it is shown: a text by itself stands without quotes. -/
def shown : JsonValue → JsonText
  | str text => text
  | value => value.quoted

end JsonValue

end ByteTape
