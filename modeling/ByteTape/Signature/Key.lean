import ByteTape.Signature.Armor
import ByteTape.Signature.Element

/-! # Keys

The two halves of a key: a modulus with an exponent to check signatures, and an
exponent to make them.
-/

namespace ByteTape

/-- What a signature is checked with. -/
structure PublicKey where
  modulus : Nat
  exponent : Nat
deriving DecidableEq

/-- What a signature is made with. -/
structure PrivateKey where
  modulus : Nat
  exponent : Nat
deriving DecidableEq

/-- The number of bytes of a signature under a modulus. -/
def modulusSize (modulus : Nat) : Nat := (modulus.log2 + 8) / 8

/-- A power, reduced by a modulus. -/
def powMod (modulus base exponent : Nat) : Nat :=
  if exponent = 0 then 1 % modulus
  else
    let half := powMod modulus (base * base % modulus) (exponent / 2)
    if exponent % 2 = 1 then half * base % modulus else half
termination_by exponent

namespace PublicKey

/-- Read the key from its text: a sequence of the algorithm and the bits of a
sequence with the modulus and the exponent. -/
def ofText? (text : String) : Option PublicKey := do
  match ← Element.sequence? (← Armor.block? "PUBLIC KEY" text) with
  | [_, bits] =>
    if bits.tag ≠ Element.bitsTag then none
    match ← Element.sequence? (bits.content.drop 1) with
    | [modulus, exponent] => return ⟨← modulus.whole?, ← exponent.whole?⟩
    | _ => none
  | _ => none

end PublicKey

namespace PrivateKey

/-- Read the key from its text: a sequence of a version, the algorithm and the
bytes of a sequence with a version, the modulus and both exponents. -/
def ofText? (text : String) : Option PrivateKey := do
  match ← Element.sequence? (← Armor.block? "PRIVATE KEY" text) with
  | _ :: _ :: bytes :: _ =>
    if bytes.tag ≠ Element.bytesTag then none
    match ← Element.sequence? bytes.content with
    | _ :: modulus :: _ :: exponent :: _ => return ⟨← modulus.whole?, ← exponent.whole?⟩
    | _ => none
  | _ => none

end PrivateKey

end ByteTape
