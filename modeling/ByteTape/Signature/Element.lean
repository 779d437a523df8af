import ByteTape.Bytes

/-! # Tagged elements

Bytes as a sequence of elements, each with a tag, the length of its content and
its content. A content may hold elements in turn.
-/

namespace ByteTape

/-- A tag with its content. -/
structure Element where
  tag : UInt8
  content : List UInt8

namespace Element

/-- The tag of a whole number. -/
def wholeTag : UInt8 := 0x02

/-- The tag of a sequence of bits. -/
def bitsTag : UInt8 := 0x03

/-- The tag of a sequence of bytes. -/
def bytesTag : UInt8 := 0x04

/-- The tag of a sequence of elements. -/
def sequenceTag : UInt8 := 0x30

/-- A length, written in one byte or behind the number of its bytes. -/
def length? : List UInt8 → Option (Nat × List UInt8)
  | [] => none
  | first :: rest =>
    if first.toNat < 0x80 then some (first.toNat, rest)
    else
      let width := first.toNat - 0x80
      if rest.length < width then none
      else some (Bytes.ofBigEndian (rest.take width), rest.drop width)

/-- The first element, and what follows it. -/
def first? : List UInt8 → Option (Element × List UInt8)
  | [] => none
  | tag :: rest => do
    let (length, rest) ← length? rest
    if rest.length < length then none
    return (⟨tag, rest.take length⟩, rest.drop length)

/-- The elements of bytes; each takes at least two bytes, so their number is bounded. -/
def listWithin : Nat → List UInt8 → Option (List Element)
  | _, [] => some []
  | 0, _ => none
  | fuel + 1, bytes => do
    let (element, rest) ← first? bytes
    return element :: (← listWithin fuel rest)

def list? (bytes : List UInt8) : Option (List Element) := listWithin bytes.length bytes

/-- The elements of a sequence. -/
def inside? (e : Element) : Option (List Element) :=
  if e.tag = sequenceTag then list? e.content else none

/-- The whole number of an element. -/
def whole? (e : Element) : Option Nat :=
  if e.tag = wholeTag then some (Bytes.ofBigEndian e.content) else none

/-- The elements of the one sequence that bytes hold. -/
def sequence? (bytes : List UInt8) : Option (List Element) :=
  match list? bytes with
  | some [e] => e.inside?
  | _ => none

end Element

end ByteTape
