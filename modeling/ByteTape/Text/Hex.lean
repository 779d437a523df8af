/-! # Hexadecimal text

Numbers and bytes written in base sixteen, and bytes read back.
-/

namespace ByteTape.Text

/-- The digits of a number, upper case. -/
def upperHex (n : Nat) : List Char :=
  (Nat.toDigits 16 n).map Char.toUpper

/-- Two upper-case digits. -/
def upperByte (b : UInt8) : List Char :=
  [(Nat.digitChar (b.toNat / 16)).toUpper, (Nat.digitChar (b.toNat % 16)).toUpper]

/-- Two lower-case digits. -/
def lowerByte (b : UInt8) : List Char :=
  [Nat.digitChar (b.toNat / 16), Nat.digitChar (b.toNat % 16)]

/-- A whole number in upper case, the sign before the digits. -/
def upperHexInt (n : Int) : List Char :=
  if n < 0 then '-' :: upperHex n.natAbs else upperHex n.natAbs

/-- Text widened on the left to at least `width` characters. -/
def padLeft (width : Nat) (fill : Char) (text : List Char) : List Char :=
  List.replicate (width - text.length) fill ++ text

/-- Bytes as lower-case text, two digits each. -/
def hexOfBytes (bytes : List UInt8) : String :=
  String.ofList (bytes.flatMap lowerByte)

def isHexDigit (c : Char) : Bool :=
  ('0' ≤ c && c ≤ '9') || ('a' ≤ c && c ≤ 'f') || ('A' ≤ c && c ≤ 'F')

/-- The value of one digit in either case. -/
def hexValue? (c : Char) : Option Nat :=
  if '0' ≤ c && c ≤ '9' then some (c.toNat - 48)
  else if 'a' ≤ c && c ≤ 'f' then some (c.toNat - 87)
  else if 'A' ≤ c && c ≤ 'F' then some (c.toNat - 55)
  else none

/-- The six blanks of ASCII text. -/
def isAsciiBlank (c : Char) : Bool :=
  c = ' ' || ('\t' ≤ c && c ≤ '\r')

/-- Read bytes of two digits each; blanks may stand between bytes, never inside one. -/
def bytesOfHex? : List Char → Option (List UInt8)
  | [] => some []
  | [c] => if isAsciiBlank c then some [] else none
  | c :: d :: rest =>
    if isAsciiBlank c then bytesOfHex? (d :: rest)
    else
      match hexValue? c, hexValue? d with
      | some high, some low => (bytesOfHex? rest).map (UInt8.ofNat (high * 16 + low) :: ·)
      | _, _ => none

end ByteTape.Text
