import ByteTape.Bytes
import ByteTape.Digest
import ByteTape.Program
import ByteTape.Text.Hex

/-! # Artifacts

A program as bytes: four bytes that mark an artifact, the number of
instructions in four bytes with the low byte first, and a tag for each
instruction. Jump targets are found again when an artifact is read.
-/

namespace ByteTape

/-- Why bytes are no artifact. Each cause names the file and the offset that shows it. -/
inductive ArtifactError where
  /-- The first bytes are not the mark. -/
  | mark (file : String)
  | shortHeader (file : String) (size : Nat)
  /-- Fewer tags than the header says. -/
  | short (file : String) (count present : Nat)
  /-- More bytes than the header says. -/
  | trailing (file : String) (count extra : Nat)
  | unknownTag (file : String) (tag : UInt8) (offset : Nat)
  | brackets (e : BracketError)
deriving DecidableEq

namespace Artifact

/-- The bytes every artifact begins with. -/
def mark : List UInt8 := [0xbf, 0xff, 0xbb, 0xff]

/-- The mark and the count. -/
def headerSize : Nat := 8

/-- The bytes of a program. -/
def encode (p : Program) : List UInt8 :=
  mark ++ Bytes.littleEndian 4 p.size ++ p.ops.map Op.tag

/-- Whether bytes begin like an artifact. -/
def looksLike (bytes : List UInt8) : Bool := bytes.take 4 == mark

/-- The operations of tags, the first of which stands at `offset`. -/
def opsOf (file : String) (offset : Nat) : List UInt8 → Except ArtifactError (List Op)
  | [] => .ok []
  | tag :: tags =>
    match Op.ofTag? tag with
    | none => .error (.unknownTag file tag offset)
    | some op =>
      match opsOf file (offset + 1) tags with
      | .error e => .error e
      | .ok ops => .ok (op :: ops)

/-- Every instruction comes from its tag. -/
def origins (file : String) (count : Nat) : Array (Option Place) :=
  ((List.range count).map fun i => some (.artifact file (headerSize + i))).toArray

/-- The program that the bytes of a file hold. -/
def decode (file : String) (bytes : List UInt8) : Except ArtifactError Program :=
  if mark.length ≤ bytes.length && !looksLike bytes then .error (.mark file)
  else if bytes.length < headerSize then .error (.shortHeader file bytes.length)
  else
    let count := Bytes.ofLittleEndian ((bytes.drop 4).take 4)
    let tags := bytes.drop headerSize
    if tags.length < count then .error (.short file count tags.length)
    else if count < tags.length then .error (.trailing file count (tags.length - count))
    else
      match opsOf file headerSize tags with
      | .error e => .error e
      | .ok ops =>
        match Program.ofOps ops (some (origins file ops.length)) with
        | .error e => .error (.brackets e)
        | .ok program => .ok program

end Artifact

namespace ArtifactError

def report (e : ArtifactError) : Report :=
  let located (file : String) (offset : Nat) (message : String) : Report :=
    let place := Place.artifact file offset
    ⟨.artifact, s!"{message} at {place.render}", some place⟩
  match e with
  | mark file => located file 0 "Unrecognized artifact discriminator"
  | shortHeader file size =>
    located file size s!"Artifact header truncated ({size} of {Artifact.headerSize} bytes)"
  | short file count present =>
    located file (Artifact.headerSize + present)
      s!"Artifact truncated: header declares {count} instructions but only {present} follow"
  | trailing file count extra =>
    located file (Artifact.headerSize + count) s!"Artifact has {extra} trailing bytes"
  | unknownTag file tag offset =>
    located file offset ("Unknown instruction tag 0x" ++ String.ofList (Text.upperByte tag))
  | brackets e => e.report .artifact

end ArtifactError

/-- The digest of the artifact of a program, in hexadecimal. -/
def Program.digest (p : Program) : String :=
  Text.hexOfBytes (Digest.sha256 (Artifact.encode p))

end ByteTape
