import ByteTape.Count
import ByteTape.Op
import ByteTape.Path

/-! # Tokens

The smallest parts of a source text that have a meaning, each with the position
of its first character.
-/

namespace ByteTape

/-- What a token says. -/
inductive Token.Value where
  | op (op : Op)
  | debug
  /-- A string literal, as the bytes it stands for. -/
  | text (bytes : List UInt8)
  | ref (path : Path)
  | count (count : Count)
  /-- A colon and the name that is to be defined. -/
  | define (name : String)
  | openBody
  | closeBody
  | openGroup
  | closeGroup
  /-- The import keyword. -/
  | use
  /-- A token of some other type, which no text contains. -/
  | other (type : String)
deriving DecidableEq

structure Token where
  value : Token.Value
  loc : Location
deriving DecidableEq

namespace Token

/-- A count may stand directly behind these tokens. -/
def Value.isCountable : Value → Bool
  | op _ | debug | text _ | ref _ | closeGroup => true
  | _ => false

end Token

/-- Why a text cannot be cut into tokens. -/
inductive TokenError where
  /-- A count mark that follows no item. -/
  | looseCount (loc : Location)
  | stray (c : Char) (loc : Location)
  /-- A colon without a name. -/
  | nameless (loc : Location)
  /-- A count mark at the end of its line. -/
  | countEnds (loc : Location)
  /-- A counting character beyond 255. -/
  | wideCount (c : Char) (loc : Location)
  /-- A third digit in a count. -/
  | longCount (c : Char) (loc : Location)
  | badEscape (c : Char) (loc : Location)
  /-- A character beyond 255 in a string. -/
  | wideText (c : Char) (loc : Location)
  /-- A string that is never closed. -/
  | openText (loc : Location)
  /-- A slash without a name behind it. -/
  | stepMissing (loc : Location)
  /-- A reference mark with nothing behind it. -/
  | pathMissing (loc : Location)
deriving DecidableEq

namespace TokenError

def loc : TokenError → Location
  | looseCount loc | stray _ loc | nameless loc | countEnds loc | wideCount _ loc
  | longCount _ loc | badEscape _ loc | wideText _ loc | openText loc | stepMissing loc
  | pathMissing loc => loc

def message : TokenError → String
  | looseCount _ => "Repetition count must directly follow an item"
  | stray c _ => "Unexpected character " ++ Text.quotedChar c
  | nameless _ => "Expected a macro name after ':'"
  | countEnds _ =>
    "Invalid repetition count: expected a character after " ++ Text.quotedChar '\x27'
  | wideCount c _ =>
    "Invalid repetition count: " ++ Text.quotedChar c ++ " is not a byte value"
  | longCount c _ =>
    "Invalid repetition count digit " ++ Text.quotedChar c ++ ": counts are at most two hex digits"
  | badEscape c _ => "Invalid escape sequence '\\" ++ String.singleton c ++ "'"
  | wideText c _ => "String literal character " ++ Text.quotedChar c ++ " is not a byte value"
  | openText _ => "Unterminated string literal"
  | stepMissing _ => "Expected a macro name after '/'"
  | pathMissing _ => "Expected a macro path after '#'"

def report (e : TokenError) : Report := .located .lex e.message e.loc

end TokenError

end ByteTape
