import ByteTape.Text.Blank

/-! # Bytes between two boundary lines

Bytes as text: characters of six bits each, between a line that names what
follows and one that ends it.
-/

namespace ByteTape.Armor

/-- The six bits of a character. -/
def value? (c : Char) : Option Nat :=
  if 'A' ≤ c && c ≤ 'Z' then some (c.toNat - 65)
  else if 'a' ≤ c && c ≤ 'z' then some (c.toNat - 71)
  else if '0' ≤ c && c ≤ '9' then some (c.toNat + 4)
  else if c = '+' then some 62
  else if c = '/' then some 63
  else none

/-- The bytes of values of six bits, three for each four; the bits behind the last
whole byte are dropped. -/
def bytesOf : List Nat → Option (List UInt8)
  | a :: b :: c :: d :: rest => do
    let n := ((a * 64 + b) * 64 + c) * 64 + d
    return UInt8.ofNat (n / 65536) :: UInt8.ofNat (n / 256) :: UInt8.ofNat n :: (← bytesOf rest)
  | [a, b, c] =>
    let n := (a * 64 + b) * 64 + c
    some [UInt8.ofNat (n / 1024), UInt8.ofNat (n / 4)]
  | [a, b] => some [UInt8.ofNat ((a * 64 + b) / 16)]
  | [_] => none
  | [] => some []

/-- The bytes of a block that is closed by its end line. -/
def block? (name : String) (text : String) : Option (List UInt8) := do
  let lines := (Text.pieces (· == '\n') text.toList).map fun line =>
    String.ofList (line.filter fun c => !Text.isBlank c || c == ' ')
  let body := (lines.dropWhile (· != s!"-----BEGIN {name}-----")).drop 1
  let inner := body.takeWhile (· != s!"-----END {name}-----")
  if inner.length = body.length then none
  let digits := (inner.flatMap String.toList).filter fun c => c != '=' && c != ' '
  bytesOf (← digits.mapM value?)

end ByteTape.Armor
