import ByteTape.Proofs.Store
import ByteTape.Proofs.Text.Utf8

/-! # Texts and artifacts

The mark of artifacts begins with a byte that begins no text. So a file that holds a text is
built, and one that holds an artifact is loaded as it is, whatever else is asked for.
-/

namespace ByteTape

/-- No text looks like an artifact. -/
theorem Artifact.looksLike_utf8 (text : String) : looksLike (Text.utf8 text) = false := by
  cases bytes : Text.utf8 text with
  | nil => rfl
  | cons a rest =>
      have other : a ≠ 0xbf := by
        rintro rfl
        obtain low | high := Text.utf8_leads bytes
        · exact absurd low (by decide)
        · exact absurd high (by decide)
      simp [looksLike, mark, other]

namespace Store

variable {d : Disk} {path text : String}

theorem isArtifact_utf8 (held : d.read path = .ok (Text.utf8 text)) : isArtifact d path = .ok false := by
  rw [isArtifact, held, ← Artifact.looksLike_utf8 text]
  rfl

theorem readSource_utf8 (held : d.read path = .ok (Text.utf8 text)) : readSource d path = .ok text := by
  simp only [readSource, disk, Disk.read_normalise held, Except.mapError, bind, Except.bind,
    Text.ofUtf8_utf8]
  rfl

/-- The text of the library, if there is one. -/
def Options.library (o : Options) (d : Disk) : Except Report (Option Source) :=
  match o.libraryPath with
  | none => .ok none
  | some file => (readSource d file).map fun text => some ⟨file, text⟩

/-- What is to be built of a text, once the library is read. -/
def Options.recipe (o : Options) (source : Source) (library : Option Source) : Recipe :=
  ⟨source, o.root, library, o.libraryRoot, o.dialect⟩

theorem load_utf8 (held : d.read path = .ok (Text.utf8 text)) (o : Options) :
    load d path o = (o.library d).bind fun library =>
      ((Build.ofRecipe (o.recipe ⟨Disk.normalise path, text⟩ library)).mapError BuildError.report).map
        fun build => (build.program, some build) := by
  have held' := Disk.read_normalise held
  simp only [load, isArtifact_utf8 held', readSource_utf8 held', Options.library, Options.recipe, bind,
    Except.bind, pure, Except.pure, Except.map, Bool.false_eq_true, if_false]
  cases o.libraryPath with
  | none => rfl
  | some file =>
      dsimp only
      cases readSource d file with
      | error e => rfl
      | ok other => rfl

/-- A file that holds a text is read as this text and built as it stands, and a file that holds
the artifact of a linked program is loaded as this program. -/
theorem told_apart (d : Disk) (path : String) :
    (∀ text : String, d.read path = .ok text.toUTF8.data.toList →
      isArtifact d path = .ok false ∧ readSource d path = .ok text ∧
        ∀ o : Options, load d path o = (o.library d).bind fun library =>
          ((Build.ofRecipe (o.recipe ⟨Disk.normalise path, text⟩ library)).mapError
            BuildError.report).map fun build => (build.program, some build)) ∧
    ∀ ops known p, Program.ofOps ops known = .ok p → p.size < 2 ^ 32 →
      d.read path = .ok (Artifact.encode p) →
      isArtifact d path = .ok true ∧
        ∀ o, ∃ q, load d path o = .ok (q, none) ∧ q.instrs = p.instrs := by
  constructor
  · intro text held
    rw [← Text.utf8_eq] at held
    exact ⟨isArtifact_utf8 held, readSource_utf8 held, load_utf8 held⟩
  · intro ops known p linked counted held
    exact ⟨isArtifact_encode held, fun o =>
      ⟨_, load_artifact linked counted (Disk.read_normalise held) o, rfl⟩⟩

/-- A text with characters of two, three and four bytes, and an artifact in a directory. -/
def drawer : Disk :=
  ⟨[(["a"], Text.utf8 "+é€😀"), (["d", "b"], Artifact.encode ⟨#[⟨.increment, none⟩], none⟩)]⟩

theorem told_apart_drawer :
    drawer.read "./a" = .ok "+é€😀".toUTF8.data.toList ∧ isArtifact drawer "./a" = .ok false ∧
      readSource drawer "./a" = .ok "+é€😀" ∧
      load drawer "./a" .standard =
        ((Build.ofRecipe ⟨⟨"a", "+é€😀"⟩, "src", none, "std", .extended⟩).mapError BuildError.report).map
          (fun build => (build.program, some build)) ∧
      isArtifact drawer "d//b" = .ok true ∧
      ∃ q, load drawer "d//b" .standard = .ok (q, none) ∧ q.instrs = #[⟨.increment, none⟩] := by
  have text : drawer.read "./a" = .ok "+é€😀".toUTF8.data.toList := by
    have found : drawer.locate "./a" = .ok ["a"] := by decide +kernel
    rw [← Text.utf8_eq, Disk.read, found]
    rfl
  have artifact : drawer.read "d//b" = .ok (Artifact.encode ⟨#[⟨.increment, none⟩], none⟩) := by
    have found : drawer.locate "d//b" = .ok ["d", "b"] := by decide +kernel
    rw [Disk.read, found]
    rfl
  have short : Disk.normalise "./a" = "a" := by decide
  obtain ⟨plain, read, built⟩ := (told_apart drawer "./a").1 "+é€😀" text
  obtain ⟨marked, loaded⟩ := (told_apart drawer "d//b").2 [.increment] none _ rfl (by decide) artifact
  rw [short] at built
  exact ⟨text, plain, read, built .standard, marked, loaded .standard⟩

end Store

end ByteTape
