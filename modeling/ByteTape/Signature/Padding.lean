import ByteTape.Bytes
import ByteTape.Digest

/-! # Salted padding

A message is hashed together with a salt, and the salt is hidden behind a mask
that is drawn from the hash. Whoever checks the padding finds the salt again.
-/

namespace ByteTape.Padding

/-- The number of bytes of a hash. -/
def hashSize : Nat := 32

/-- A mask drawn from a seed. -/
def mask (size : Nat) (seed : List UInt8) : List UInt8 :=
  ((List.range ((size + hashSize - 1) / hashSize)).flatMap fun i : Nat =>
    Digest.sha256 (seed ++ Bytes.bigEndian 4 i)).take size

/-- The hash of a message with a salt. -/
def salted (message salt : List UInt8) : List UInt8 :=
  Digest.sha256 (List.replicate 8 0 ++ Digest.sha256 message ++ salt)

/-- The number of bytes that hold a number of bits. -/
def sizeOf (bits : Nat) : Nat := (bits + 7) / 8

/-- The largest first byte when only `bits` bits are used. -/
def topMask (bits : Nat) : UInt8 := UInt8.ofNat (1 <<< (8 - (8 * sizeOf bits - bits)) - 1)

/-- Clear the bits of the first byte that are not used. -/
def clearTop (bits : Nat) : List UInt8 → List UInt8
  | [] => []
  | first :: rest => (first &&& topMask bits) :: rest

/-- The padding of a message, `bits` bits long, or nothing if the salt is too long. -/
def encode? (bits : Nat) (message salt : List UInt8) : Option (List UInt8) :=
  let size := sizeOf bits
  if size < hashSize + salt.length + 2 then none
  else
    let hash := salted message salt
    let block := List.replicate (size - salt.length - hashSize - 2) 0 ++ 1 :: salt
    some (clearTop bits (Bytes.xor block (mask block.length hash)) ++ hash ++ [0xbc])

/-- Whether bytes are a padding of a message, whatever the salt. -/
def matchesMessage (bits : Nat) (message padded : List UInt8) : Bool :=
  let size := sizeOf bits
  if padded.length ≠ size || size < hashSize + 2 || padded.getLast? ≠ some 0xbc then false
  else
    let hidden := padded.take (size - hashSize - 1)
    let hash := (padded.drop (size - hashSize - 1)).take hashSize
    if clearTop bits hidden ≠ hidden then false
    else
      match (clearTop bits (Bytes.xor hidden (mask hidden.length hash))).dropWhile (· == 0) with
      | 1 :: salt => salted message salt == hash
      | _ => false

end ByteTape.Padding
