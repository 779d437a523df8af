import ByteTape.Proofs.Artifact
import ByteTape.Proofs.Build.Copies
import ByteTape.Proofs.Build.SourceMap
import ByteTape.Proofs.Disk
import ByteTape.Proofs.Fallible
import ByteTape.Store

/-! # Programs that were stored

What is loaded from a source file is linked, and a file that holds the artifact of a linked
program is loaded as that program, with the offsets of the tags as its origins.
-/

namespace ByteTape

namespace Artifact

theorem decode_encode (file : String) {ops : List Op} {known : Option (Array (Option Place))} {p : Program}
    (linked : Program.ofOps ops known = .ok p) (counted : p.size < 2 ^ 32) :
    decode file (encode p) = .ok ⟨p.instrs, some (origins file p.size)⟩ := by
  obtain ⟨b, -, rfl⟩ := Block.exists_of_ofOps linked
  have size : Program.size ⟨(b.instrs 0).toArray, known⟩ = b.length := by simp [Program.size]
  have count : Bytes.ofLittleEndian (Bytes.littleEndian 4 b.length) = b.length := by
    rw [Bytes.ofLittleEndian_littleEndian, Nat.mod_eq_of_lt (size ▸ counted)]
  rw [size]
  exact decode_eq_ok_iff.mpr ⟨b, _, Bytes.length_littleEndian 4 _, count, encode_program b known, rfl⟩

theorem looksLike_encode (p : Program) : looksLike (encode p) = true := by
  simp [looksLike, encode, mark]

end Artifact

namespace Store

theorem linked_of_recipe {r : Recipe} {build : Build} (made : Build.ofRecipe r = .ok build) :
    ∃ ops known, Program.ofOps ops known = .ok build.program := by
  obtain ⟨-, program⟩ := Build.ofRecipe_eq_ok_iff.mp made
  obtain ⟨n, code, -, -, linked⟩ := ScopeTree.program_eq_ok_iff.mp program
  exact ⟨_, _, linked⟩

theorem linked_of_load {d : Disk} {path : String} {o : Options} {p : Program} {build : Build}
    (loaded : load d path o = .ok (p, some build)) :
    ∃ ops known, Program.ofOps ops known = .ok p := by
  obtain ⟨marked, -, loaded⟩ := bind_eq_ok loaded
  cases marked with
  | true =>
      obtain ⟨q, -, loaded⟩ := bind_eq_ok loaded
      cases loaded
  | false =>
      have built (library : Option Source) (loaded : (do
          let text ← readSource d (Disk.normalise path)
          let build ← (Build.ofRecipe ⟨⟨Disk.normalise path, text⟩, o.root, library, o.libraryRoot,
            o.dialect⟩).mapError BuildError.report
          return (build.program, some build)) = Except.ok (p, some build)) :
          ∃ ops known, Program.ofOps ops known = .ok p := by
        obtain ⟨text, -, loaded⟩ := bind_eq_ok loaded
        obtain ⟨made, result, loaded⟩ := bind_eq_ok loaded
        cases loaded
        cases recipe : Build.ofRecipe _ with
        | error e =>
            rw [recipe] at result
            cases result
        | ok made' =>
            rw [recipe] at result
            cases result
            exact linked_of_recipe recipe
      cases given : o.libraryPath with
      | none =>
          simp only [given, Bool.false_eq_true, if_false, pure_bind] at loaded
          exact built none loaded
      | some file =>
          simp only [given, Bool.false_eq_true, if_false, pure_bind] at loaded
          obtain ⟨text, -, loaded⟩ := bind_eq_ok loaded
          exact built _ loaded

theorem isArtifact_encode {d : Disk} {path : String} {p : Program}
    (held : d.read path = .ok (Artifact.encode p)) : isArtifact d path = .ok true := by
  rw [isArtifact, held, ← Artifact.looksLike_encode p]
  rfl

theorem load_artifact {d : Disk} {path : String} {p : Program} {ops : List Op} {known : Option (Array (Option Place))}
    (linked : Program.ofOps ops known = .ok p) (counted : p.size < 2 ^ 32)
    (held : d.read (Disk.normalise path) = .ok (Artifact.encode p)) (o : Options) :
    load d path o =
      .ok (⟨p.instrs, some (Artifact.origins (Disk.normalise path) p.size)⟩, none) := by
  have marked := isArtifact_encode held
  have decoded : readArtifact d (Disk.normalise path) =
      .ok ⟨p.instrs, some (Artifact.origins (Disk.normalise path) p.size)⟩ := by
    rw [readArtifact, Disk.normalise_normalise, held]
    change (Artifact.decode _ _).mapError _ = _
    rw [Artifact.decode_encode _ linked counted]
    rfl
  simp only [load, marked, decoded]
  rfl

end Store

end ByteTape
