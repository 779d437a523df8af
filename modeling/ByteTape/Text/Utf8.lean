/-! # UTF-8

Text as bytes and back. Reading is strict: a sequence that is too long for its
character, a surrogate, a number beyond the last character and a sequence that
breaks off are all bad at their first byte.
-/

namespace ByteTape.Text

/-- The bytes of a character. -/
def utf8Char (c : Char) : List UInt8 :=
  let n := c.toNat
  if n < 0x80 then [UInt8.ofNat n]
  else if n < 0x800 then [UInt8.ofNat (0xc0 + n / 0x40), UInt8.ofNat (0x80 + n % 0x40)]
  else if n < 0x10000 then
    [UInt8.ofNat (0xe0 + n / 0x1000), UInt8.ofNat (0x80 + n / 0x40 % 0x40),
      UInt8.ofNat (0x80 + n % 0x40)]
  else
    [UInt8.ofNat (0xf0 + n / 0x40000), UInt8.ofNat (0x80 + n / 0x1000 % 0x40),
      UInt8.ofNat (0x80 + n / 0x40 % 0x40), UInt8.ofNat (0x80 + n % 0x40)]

/-- The bytes of a text. -/
def utf8 (text : String) : List UInt8 := text.toList.flatMap utf8Char

/-- The six bits that a following byte carries. -/
def tailBits? (b : UInt8) : Option Nat :=
  if 0x80 ≤ b.toNat && b.toNat < 0xc0 then some (b.toNat - 0x80) else none

/-- The character of a number that needs at least as many bytes as it has. -/
def charFrom? (least n : Nat) : Option Char :=
  if least ≤ n && n.isValidChar then some (Char.ofNat n) else none

/-- The character made of a leading byte and two bytes behind it. -/
def char3? (a b c : UInt8) : Option Char := do
  charFrom? 0x800 ((a.toNat - 0xe0) * 0x1000 + (← tailBits? b) * 0x40 + (← tailBits? c))

/-- The character made of a leading byte and three bytes behind it. -/
def char4? (a b c d : UInt8) : Option Char := do
  charFrom? 0x10000
    ((a.toNat - 0xf0) * 0x40000 + (← tailBits? b) * 0x1000 + (← tailBits? c) * 0x40 + (← tailBits? d))

/-- A character before a text that was read. -/
def andThen (c : Option Char) (offset : Nat) (rest : Except Nat (List Char)) :
    Except Nat (List Char) :=
  match c, rest with
  | none, _ => .error offset
  | some _, .error bad => .error bad
  | some c, .ok text => .ok (c :: text)

/-- The characters of bytes, the first of which stands at `offset`, or the offset
of the first sequence that stands for none. -/
def utf8CharsFrom (offset : Nat) : List UInt8 → Except Nat (List Char)
  | [] => .ok []
  | a :: rest =>
    if a.toNat < 0x80 then
      andThen (some (Char.ofNat a.toNat)) offset (utf8CharsFrom (offset + 1) rest)
    else if a.toNat < 0xc0 then .error offset
    else if a.toNat < 0xe0 then
      match rest with
      | b :: rest =>
        andThen ((tailBits? b).bind fun low => charFrom? 0x80 ((a.toNat - 0xc0) * 0x40 + low)) offset
          (utf8CharsFrom (offset + 2) rest)
      | _ => .error offset
    else if a.toNat < 0xf0 then
      match rest with
      | b :: c :: rest => andThen (char3? a b c) offset (utf8CharsFrom (offset + 3) rest)
      | _ => .error offset
    else
      match rest with
      | b :: c :: d :: rest => andThen (char4? a b c d) offset (utf8CharsFrom (offset + 4) rest)
      | _ => .error offset

/-- The text of bytes, or the offset of the first bad sequence. -/
def ofUtf8 (bytes : List UInt8) : Except Nat String :=
  match utf8CharsFrom 0 bytes with
  | .ok text => .ok (String.ofList text)
  | .error bad => .error bad

end ByteTape.Text
