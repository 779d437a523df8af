import ByteTape.Signature.Key
import ByteTape.Signature.Padding
import ByteTape.Text.Hex
import ByteTape.Text.Utf8

/-! # Signatures

The signature of a digest in hexadecimal. Signing raises a salted padding of the
digest to the secret exponent; checking raises the signature to the public one
and looks for such a padding.
-/

namespace ByteTape.Signature

/-- The bits a padding may use: one less than the modulus has. -/
def paddingBits (modulus : Nat) : Nat := modulus.log2

/-- The length of the longest salt that a padding has room for. -/
def saltSize (modulus : Nat) : Nat :=
  Padding.sizeOf (paddingBits modulus) - Padding.hashSize - 2

/-- The signature of a digest, with a given salt. -/
def sign? (key : PrivateKey) (salt : List UInt8) (digest : String) : Option String := do
  let padded ← Padding.encode? (paddingBits key.modulus) (Text.utf8 digest) salt
  let value := powMod key.modulus (Bytes.ofBigEndian padded) key.exponent
  return Text.hexOfBytes (Bytes.bigEndian (modulusSize key.modulus) value)

/-- Whether bytes are a signature of a message. -/
def holds (key : PublicKey) (message signature : List UInt8) : Bool :=
  let value := Bytes.ofBigEndian signature
  if signature.length ≠ modulusSize key.modulus || key.modulus ≤ value then false
  else
    let bits := paddingBits key.modulus
    let size := Padding.sizeOf bits
    let opened := powMod key.modulus value key.exponent
    if 1 <<< (8 * size) ≤ opened then false
    else Padding.matchesMessage bits message (Bytes.bigEndian size opened)

/-- Whether a text is a signature of a digest. -/
def verify (key : PublicKey) (digest signature : String) : Bool :=
  match Text.bytesOfHex? signature.toList with
  | some bytes => holds key (Text.utf8 digest) bytes
  | none => false

end ByteTape.Signature
