import ByteTape.Text.Hex
import ByteTape.Text.Printable

/-! # Quoted text

Text and bytes between quotes, with everything that does not print escaped.
Single quotes are used, unless the text holds one and no double quote.
-/

namespace ByteTape.Text

/-- The quote that needs the fewest escapes. -/
def quoteFor (text : List Char) : Char :=
  if text.contains '\x27' && !text.contains '\x22' then '\x22' else '\x27'

/-- Exactly `width` lower-case digits. -/
def hexDigits (width n : Nat) : List Char := padLeft width '0' (Nat.toDigits 16 n)

/-- An escape by number, as short as the number allows. -/
def escapeByNumber (c : Char) : List Char :=
  let n := c.toNat
  if n < 0x100 then '\\' :: 'x' :: hexDigits 2 n
  else if n < 0x10000 then '\\' :: 'u' :: hexDigits 4 n
  else '\\' :: 'U' :: hexDigits 8 n

/-- One character between `quote`s, given which characters print. -/
def escapeIn (prints : Char → Bool) (quote c : Char) : List Char :=
  if c = quote || c = '\\' then ['\\', c]
  else if c = '\n' then ['\\', 'n']
  else if c = '\r' then ['\\', 'r']
  else if c = '\t' then ['\\', 't']
  else if prints c then [c]
  else escapeByNumber c

def quotedWith (prints : Char → Bool) (text : List Char) : List Char :=
  let quote := quoteFor text
  quote :: text.flatMap (escapeIn prints quote) ++ [quote]

/-- A text between quotes. -/
def quoted (text : String) : String := String.ofList (quotedWith isPrintable text.toList)

/-- A character between quotes. -/
def quotedChar (c : Char) : String := String.ofList (quotedWith isPrintable [c])

/-- Each byte as the character of that number. -/
def latin (bytes : List UInt8) : List Char := bytes.map fun b => Char.ofNat b.toNat

/-- Bytes between quotes after a `b`; only ASCII prints. -/
def quotedBytes (bytes : List UInt8) : String :=
  String.ofList ('b' :: quotedWith (fun c => 0x20 ≤ c.toNat && c.toNat < 0x7f) (latin bytes))

end ByteTape.Text
