import ByteTape.Artifact
import ByteTape.Build
import ByteTape.Disk
import ByteTape.Patch.Hunk
import ByteTape.Text.Utf8

/-! # Programs in files

Source files and artifacts are told apart by their first bytes. What is printed
along the way is part of each result.
-/

namespace ByteTape.Store

/-- Where a byte stands in a file: lines end with a line feed, and a column counts
bytes. -/
def byteLocation (file : String) (before : List UInt8) : Location :=
  let line := (before.reverse.takeWhile (· != 10)).length
  ⟨file, before.count 10 + 1, line + 1⟩

/-- The complaint about bytes that are no text from `offset` on. -/
def notText (file : String) (bytes : List UInt8) (offset : Nat) : Report :=
  let byte := String.ofList (Text.upperByte (bytes.getD offset 0))
  .located .lex s!"Source is not valid UTF-8 (byte 0x{byte})" (byteLocation file (bytes.take offset))

def disk {α : Type} (r : Except DiskError α) : Except Report α := r.mapError DiskError.report

/-- The text of a source file. -/
def readSource (d : Disk) (path : String) : Except Report String := do
  let bytes ← disk (d.read (Disk.normalise path))
  match Text.ofUtf8 bytes with
  | .ok text => return text
  | .error offset => throw (notText path bytes offset)

/-- Whether a file begins like an artifact. -/
def isArtifact (d : Disk) (path : String) : Except Report Bool := do
  return Artifact.looksLike (← disk (d.read path))

/-- The program of an artifact. -/
def readArtifact (d : Disk) (path : String) : Except Report Program := do
  let bytes ← disk (d.read (Disk.normalise path))
  (Artifact.decode path bytes).mapError ArtifactError.report

/-- What a file is to be loaded with. -/
structure Options where
  libraryPath : Option String
  root : String
  libraryRoot : String
  dialect : Dialect

/-- The root of a program and of a library unless others are named. -/
def Options.standard : Options := ⟨none, "src", "std", .extended⟩

/-- Load a file: read it as an artifact if it is one, and build it if not. -/
def load (d : Disk) (path : String) (o : Options) : Except Report (Program × Option Build) := do
  let path := Disk.normalise path
  if ← isArtifact d path then
    return (← readArtifact d path, none)
  let library ← match o.libraryPath with
    | none => pure none
    | some file => do pure (some ⟨file, ← readSource d file⟩)
  let source : Source := ⟨path, ← readSource d path⟩
  let build ← (Build.ofRecipe ⟨source, o.root, library, o.libraryRoot, o.dialect⟩).mapError
    BuildError.report
  return (build.program, some build)

/-- The line about an artifact that was written. -/
def exported (path : String) : String := s!"  ✓ Artifact exported → {path}\n"

/-- Write the artifact of a program. -/
def writeArtifact (d : Disk) (p : Program) (path : String) : Except Report Disk :=
  disk (d.write (Disk.normalise path) (Artifact.encode p))

/-- The line about the digest of something with a name. -/
def digestLine (name digest : String) : String := s!"SHA256({name}) = {digest}\n"

/-- A program to be compared: one at hand, or the artifact of a file. -/
inductive Subject where
  | program (p : Program)
  | file (path : String)

namespace Subject

def load (d : Disk) : Subject → Except Report Program
  | program p => .ok p
  | file path => readArtifact d path

def label : Subject → String
  | program _ => "program"
  | file path => path

end Subject

/-- Compare two programs: the patch, and the account that is printed. -/
def compare (d : Disk) (a b : Subject) : Except Report (List String × String) := do
  let p ← a.load d
  let q ← b.load d
  if p.digest = q.digest then
    return ([], s!"✓ Programs are identical ({p.digest})\n")
  let lines := Patch.lines p.ops q.ops a.label b.label
  let sizes :=
    if p.size = q.size then "" else s!"  • Instruction count differs: {p.size} vs {q.size}\n"
  let head := s!"✗ Programs differ\n  {a.label}: {p.digest}\n  {b.label}: {q.digest}\n"
  return (lines, head ++ sizes ++ String.join (lines.map (· ++ "\n")))

end ByteTape.Store
