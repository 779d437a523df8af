import ByteTape.Proofs.Build.Failures
import ByteTape.Proofs.Session.History
import ByteTape.Proofs.Steps
import ByteTape.Session

/-! # What a line can bring about

A line is read as a request, and `Turn` lists what can become of each request: what is
printed, the session that is left and whether it goes on. Facts about whole sessions are
proved from this list, without opening the reply to a line again.
-/

namespace ByteTape.Session

/-- What a line asks for. -/
inductive Request where
  | nothing
  | quit
  | help
  | query (token : Option String) (q : Query)
  | compare (left right : String)
  /-- A comparison that does not name two programs. -/
  | misuse
  /-- To be built and run. -/
  | program
deriving DecidableEq

/-- The programs that are looked up; one without a name is the latest. -/
def Request.tokens : Request → List (Option String)
  | query token _ => [token]
  | compare left right => [some left, some right]
  | nothing | quit | help | misuse | program => []

/-- The request of a line, by its first word. -/
def request (line : String) : Request :=
  match (Text.words line.toList).map String.ofList with
  | [] => .nothing
  | command :: arguments =>
    if command = ":quit" || command = ":exit" then .quit
    else if command = ":help" then .help
    else if command = ":bin" then .query arguments[0]? .bin
    else if command = ":scopes" then .query arguments[0]? .scopes
    else if command = ":hash" then .query arguments[0]? .hash
    else if command = ":save" then .query arguments[0]? (.save arguments[1]?)
    else if command = ":diff" then
      match arguments with
      | [left, right] => .compare left right
      | _ => .misuse
    else .program

theorem respond_eq (fuel : Nat) (s : Session) (line : String) :
    s.respond fuel line =
      match request line with
      | .nothing => s.tells ""
      | .quit => ⟨"", "", s, some .quit⟩
      | .help => s.tells s.help
      | .query token q => s.ask token q
      | .compare left right => s.compare left right
      | .misuse => s.tells "  usage: :diff <n> <m>\n"
      | .program => s.runLine fuel line := by
  unfold respond request
  dsimp only
  cases (Text.words line.toList).map String.ofList with
  | nil => rfl
  | cons command arguments =>
      dsimp only
      split_ifs
      · rfl
      · rfl
      · rfl
      · rfl
      · rfl
      · rfl
      · obtain _ | ⟨left, _ | ⟨right, _ | ⟨third, rest⟩⟩⟩ := arguments <;> rfl
      · rfl

/-- The settings under which the program of a line runs. -/
def settings : Settings := ⟨.zero, false, none⟩

/-- The line is a program that can be built and that comes to its end. -/
structure Completes (line : String) (b : Build) (m : Machine) : Prop where
  asked : request line = .program
  built : Build.ofRecipe (recipe line) = .ok b
  ends : Machine.Ends b.program settings (.start []) m .halted

/-- The file that a program with this number is saved to. -/
def target (file : Option String) (n : Int) : String := file.getD s!"program_{n}.bin"

/-- What is printed about a program that is missing. -/
def notice (e : PickError) : String := s!"  ✗ {e.report.message}\n"

/-- What can become of a line. -/
inductive Turn (s : Session) (line : String) : Reply → Prop where
  | idle (asked : request line = .nothing) : Turn s line (s.tells "")
  | left (asked : request line = .quit) : Turn s line ⟨"", "", s, some .quit⟩
  | helped (asked : request line = .help) : Turn s line (s.tells s.help)
  | misused (asked : request line = .misuse) : Turn s line (s.tells "  usage: :diff <n> <m>\n")
  | answered {token : Option String} {q : Query} {found : Int × Build} {out : String}
    (asked : request line = .query token q) (kind : ∀ file, q ≠ .save file)
    (there : s.kept.pick token = .ok found) : Turn s line (s.tells out)
  | unlisted {token : Option String} {n : Int} {b : Build} {e : ScopeError}
    (asked : request line = .query token .scopes) (there : s.kept.pick token = .ok (n, b))
    (failed : b.tree.fullListing 0 = .error e) : Turn s line (s.escapes "" e.report)
  | saved {token file : Option String} {n : Int} {b : Build} {disk : Disk}
    (asked : request line = .query token (.save file)) (there : s.kept.pick token = .ok (n, b))
    (written : Store.writeArtifact s.disk b.program (target file n) = .ok disk) :
    Turn s line ⟨"", Store.exported (target file n), { s with disk }, none⟩
  | unsaved {token file : Option String} {n : Int} {b : Build} {r : Report}
    (asked : request line = .query token (.save file)) (there : s.kept.pick token = .ok (n, b))
    (failed : Store.writeArtifact s.disk b.program (target file n) = .error r) :
    Turn s line (s.escapes "" r)
  | compared {left right : String} {first second : Int × Build} {out : String}
    (asked : request line = .compare left right) (there : s.kept.pick (some left) = .ok first)
    (there' : s.kept.pick (some right) = .ok second) : Turn s line (s.tells out)
  | missed {token : Option String} {e : PickError} {out : String}
    (looked : token ∈ (request line).tokens) (missing : s.kept.pick token = .error e)
    (readable : ∀ token ∈ (request line).tokens, ∀ e, s.kept.pick token ≠ .error (.numeral e))
    (said : ∀ token ∈ (request line).tokens, ∀ e, s.kept.pick token = .error e →
      (notice e).toList <:+: out.toList) : Turn s line (s.tells out)
  | misread {token : Option String} {e : Text.NumeralError} {out : String}
    (looked : token ∈ (request line).tokens) (missing : s.kept.pick token = .error (.numeral e)) :
    Turn s line (s.escapes out e.report)
  | refused {e : BuildError} (asked : request line = .program)
    (failed : Build.ofRecipe (recipe line) = .error e) :
    Turn s line (s.complains "" (e.report.line ++ "\n"))
  | cut {b : Build} {m : Machine} (asked : request line = .program)
    (built : Build.ofRecipe (recipe line) = .ok b) :
    Turn s line ⟨m.diagnostics, "", s, some .unfinished⟩
  | faulted {b : Build} {m : Machine} {f : Fault} {out : String} (asked : request line = .program)
    (built : Build.ofRecipe (recipe line) = .ok b)
    (ends : Machine.Ends b.program settings (.start []) m (.fault f)) :
    Turn s line (s.complains out (f.report.line ++ "\n"))
  | completed {b : Build} {m : Machine} {out : String} (done : Completes line b m)
    (room : 0 ≤ s.limit) : Turn s line ((s.keep b).tells out)
  | overrun {b : Build} {m : Machine} {out : String} (done : Completes line b m)
    (room : s.limit < 0) : Turn s line ((s.keep b).escapes out (.bare .depleted ""))

section
variable {s : Session} {line : String}

/-- A program that is named can be there, be missing, or have a name that is no number. -/
theorem pick_cases (s : Session) (token : Option String) :
    (∃ found, s.kept.pick token = .ok found ∧ s.lookup token = .ok (.ok found)) ∨
      (∃ e, s.kept.pick token = .error e ∧ (∀ cause, s.kept.pick token ≠ .error (.numeral cause)) ∧
        s.lookup token = .ok (.error (notice e))) ∨
      ∃ e, s.kept.pick token = .error (.numeral e) ∧ s.lookup token = .error e.report := by
  unfold lookup
  cases picked : s.kept.pick token with
  | ok found => exact .inl ⟨found, rfl, rfl⟩
  | error e =>
      by_cases key : e.report.kind = .key
      · have readable := e.kind_eq_key_iff.mp key
        exact .inr (.inl ⟨e, rfl, fun cause same => readable cause (Except.error.inj same), by simp [key, notice]⟩)
      · obtain ⟨cause, rfl⟩ : ∃ cause, e = .numeral cause := by simpa [PickError.kind_eq_key_iff] using key
        exact .inr (.inr ⟨cause, rfl, if_neg key⟩)

theorem turn_ask {token : Option String} {q : Query} (asked : request line = .query token q) :
    s.Turn line (s.ask token q) := by
  have only : (request line).tokens = [token] := by rw [asked, Request.tokens]
  unfold ask
  obtain ⟨⟨n, b⟩, there, looked⟩ | ⟨e, missing, readable, looked⟩ | ⟨e, bad, looked⟩ :=
    s.pick_cases token
  · simp only [looked]
    cases q with
    | bin | hash => exact .answered asked (fun _ => Query.noConfusion) there
    | scopes =>
        unfold answer
        dsimp only
        split
        · exact .answered asked (fun _ => Query.noConfusion) there
        · next failed => exact .unlisted asked there failed
    | save file =>
        unfold answer
        dsimp only
        split
        · next written => exact .saved asked there written
        · next failed => exact .unsaved asked there failed
  · simp only [looked]
    exact .missed (by simp [only]) missing (by simpa [only] using readable) (by simp [only, missing])
  · simp only [looked]
    exact .misread (by simp [only]) bad

theorem turn_compare {left right : String} (asked : request line = .compare left right) :
    s.Turn line (s.compare left right) := by
  have both : (request line).tokens = [some left, some right] := by rw [asked, Request.tokens]
  unfold compare
  obtain ⟨found, there, looked⟩ | ⟨e, missing, readable, looked⟩ | ⟨e, bad, looked⟩ :=
    s.pick_cases (some left)
  · obtain ⟨found', there', looked'⟩ | ⟨e', missing', readable', looked'⟩ |
      ⟨e', bad', looked'⟩ := s.pick_cases (some right)
    · simp only [looked, looked']
      exact .compared asked there there'
    · simp only [looked, looked']
      exact .missed (by simp [both]) missing' (by simpa [both, there] using readable')
        (by simp [both, there, missing'])
    · simp only [looked, looked']
      exact .misread (by simp [both]) bad'
  · -- the program on the right is looked up although the one on the left is missed
    obtain ⟨found', there', looked'⟩ | ⟨e', missing', readable', looked'⟩ |
      ⟨e', bad', looked'⟩ := s.pick_cases (some right)
    · simp only [looked, looked']
      exact .missed (by simp [both]) missing (by simpa [both, there'] using readable)
        (by simp [both, there', missing])
    · simp only [looked, looked']
      exact .missed (by simp [both]) missing (by simpa [both] using ⟨readable, readable'⟩)
        (by simpa [both, missing, missing'] using
          ⟨(List.prefix_append ..).isInfix, (List.suffix_append ..).isInfix⟩)
    · simp only [looked, looked']
      exact .misread (by simp [both]) bad'
  · simp only [looked]
    exact .misread (by simp [both]) bad

theorem isLanguage_of_error {e : BuildError} (failed : Build.ofRecipe (recipe line) = .error e) :
    e.report.kind.isLanguage := by
  have named (loc : Location) (points : e.report.PointsAt loc) : e.report.kind.isLanguage := by
    obtain kind | kind | kind := points.kind <;> rw [kind] <;> rfl
  have stage := Build.stage (recipe line)
  rw [failed] at stage
  cases stage with
  | tree unmade =>
      obtain ⟨⟨loc, points, -⟩, -⟩ := Build.sound_treeOf (show "src" ≠ "std" by decide) unmade
      exact named loc points
  | root made missing =>
      obtain ⟨n, known⟩ := Build.rootIndex?_treeOf made
      simp only [ScopeTree.root, known, reduceCtorEq] at missing
  | code made found unexpanded =>
      have arena := Build.arena_treeOf made
      have inside := (arena.root.mp (ScopeTree.root_eq_ok_iff.mp found)).lt_size
      rw [Expansion.scopeCode_eq] at unexpanded
      obtain ⟨-, loc, -, blamed⟩ := Expansion.bodyCode_error arena (Build.loaded_treeOf made).expandable
        (Build.made_treeOf made) inside (fun _ none => by cases none) unexpanded
      exact named loc blamed.pointsAt
  | link made _ expanded unlinked =>
      obtain ⟨loc, ⟨rfl, -⟩ | ⟨rfl, -⟩⟩ := (Build.from_scopeCode made expanded).link_error unlinked <;> rfl

theorem turn_runLine (fuel : Nat) (asked : request line = .program) :
    s.Turn line (s.runLine fuel line) := by
  unfold runLine
  cases built : Build.ofRecipe (recipe line) with
  | error e =>
      simp only [isLanguage_of_error built, if_true]
      exact .refused asked built
  | ok b =>
      dsimp only
      rcases ran : (Machine.start []).run b.program ⟨.zero, false, none⟩ fuel with ⟨m, _ | f | _⟩
      · have done : Completes line b m := ⟨asked, built, Outcome.noConfusion, fuel, ran⟩
        dsimp only
        split
        · next room => exact .overrun done room
        · next room => exact .completed done (Int.not_lt.mp room)
      · exact .faulted asked built ⟨Outcome.noConfusion, fuel, ran⟩
      · exact .cut asked built

theorem turn (fuel : Nat) (s : Session) (line : String) : s.Turn line (s.respond fuel line) := by
  rw [respond_eq]
  cases asked : request line with
  | nothing => exact .idle asked
  | quit => exact .left asked
  | help => exact .helped asked
  | query token q => exact turn_ask asked
  | compare left right => exact turn_compare asked
  | misuse => exact .misused asked
  | program => exact turn_runLine fuel asked

end

end ByteTape.Session
