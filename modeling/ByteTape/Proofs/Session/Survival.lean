import ByteTape.Proofs.Scope.Listing
import ByteTape.Proofs.Session.Kept

/-! # The lines that end a session

A line that fails is reported, and the session takes the next one with the programs it had.
There are exceptions: digits that make no number, a file that cannot be written, and a limit
that cannot be met. `Derails` lists them, and the list is complete.
-/

namespace ByteTape.Session

variable {s : Session} {line : String} {reply : Reply}

/-- Sessions that have taken every line so far. -/
inductive Reached : Session → Prop where
  | start (limit : Int) (disk : Disk) : Reached (start limit disk)
  | next {s : Session} (before : Reached s) (fuel : Nat) (line : String)
    (goes : (s.respond fuel line).ending = none) : Reached (s.respond fuel line).session

theorem Turn.mem_kept (turn : s.Turn line reply) {entry : Int × Build}
    (there : entry ∈ reply.session.kept) : entry ∈ s.kept ∨ Build.ofRecipe (recipe line) = .ok entry.2 := by
  have kept {b : Build} {m : Machine} (done : Completes line b m) (there : entry ∈ (s.keep b).kept) :
      entry ∈ s.kept ∨ Build.ofRecipe (recipe line) = .ok entry.2 := by
    obtain old | new := List.mem_append.mp (List.mem_of_mem_drop there)
    · exact .inl old
    · obtain rfl := List.mem_singleton.mp new
      exact .inr done.built
  cases turn with
  | completed done | overrun done => exact kept done there
  | _ => exact .inl there

theorem Reached.built (h : s.Reached) {entry : Int × Build} (there : entry ∈ s.kept) :
    ∃ line, Build.ofRecipe (recipe line) = .ok entry.2 := by
  induction h with
  | start => cases there
  | next _ fuel line _ ih =>
      obtain old | new := (turn fuel _ line).mem_kept there
      · exact ih old
      · exact ⟨line, new⟩

theorem Reached.fullListing (h : s.Reached) {token : Option String} {n : Int} {b : Build}
    (there : s.kept.pick token = .ok (n, b)) : ∃ lines, b.tree.fullListing 0 = .ok lines := by
  obtain ⟨line, built⟩ := h.built (History.mem_of_pick there)
  exact (Build.arena_treeOf (Build.ofRecipe_eq_ok_iff.mp built).1).fullListing 0

/-- Lines that end a session although they do not ask for it. -/
inductive Derails (s : Session) (line : String) : Prop where
  /-- A program is named by digits that make no number. -/
  | unreadable {token : String} (any : s.kept ≠ []) (looked : some token ∈ (request line).tokens)
    (bad : History.Unreadable token)
  /-- A program is to be saved where no file can be written. -/
  | unwritable {token file : Option String} {n : Int} {b : Build} {r : Report}
    (asked : request line = .query token (.save file)) (there : s.kept.pick token = .ok (n, b))
    (failed : Store.writeArtifact s.disk b.program (target file n) = .error r)
  /-- A program is to be kept, and fewer than none can be. -/
  | overrun {b : Build} {m : Machine} (done : Completes line b m) (room : s.limit < 0)

/-- The latest program is found without a number, so only a name can make none. -/
theorem pick_numeral_iff {token : Option String} :
    (∃ e, s.kept.pick token = .error (.numeral e)) ↔
      s.kept ≠ [] ∧ ∃ text, token = some text ∧ History.Unreadable text := by
  cases token with
  | some text =>
      rw [History.exists_pick_numeral_iff]
      simp
  | none =>
      refine ⟨fun ⟨e, missing⟩ => ?_, fun ⟨_, text, same, _⟩ => by cases same⟩
      cases latest : s.kept.getLast? with
      | none =>
          rw [List.getLast?_eq_none_iff.mp latest, History.pick_nil] at missing
          cases missing
      | some entry => cases (History.pick_latest latest).symm.trans missing

/-- When the session goes on, a program that is missing had a name that makes a number, and it
is told of. -/
theorem Turn.of_missing (turn : s.Turn line reply) (goes : reply.ending = none) {token : Option String}
    {e : PickError} (looked : token ∈ (request line).tokens) (missing : s.kept.pick token = .error e) :
    (∀ cause, e ≠ .numeral cause) ∧ (notice e).toList <:+: reply.out.toList := by
  have other {r : Request} (asked : request line = r) (tokens : r.tokens = []) : False := by
    rw [asked, tokens] at looked
    cases looked
  cases turn with
  | idle asked | helped asked | misused asked | refused asked | faulted asked => cases other asked rfl
  | completed done => cases other done.asked rfl
  | answered asked _ there | saved asked there =>
      rw [asked] at looked
      cases List.mem_singleton.mp looked
      cases missing.symm.trans there
  | compared asked there there' =>
      rw [asked, Request.tokens, List.mem_pair] at looked
      obtain rfl | rfl := looked
      · cases missing.symm.trans there
      · cases missing.symm.trans there'
  | missed _ _ readable said =>
      exact ⟨fun cause same => readable _ looked cause (same ▸ missing), said _ looked e missing⟩
  | left | unlisted | unsaved | misread | cut | overrun => cases goes

/-- When the session goes on after a program, the program could not be built, or it was faulty, or
it came to its end and can be kept. -/
theorem Turn.of_program (turn : s.Turn line reply) (goes : reply.ending = none)
    (asked : request line = .program) :
    (∃ e, Build.ofRecipe (recipe line) = .error e ∧ reply.err = e.report.line ++ "\n") ∨
      (∃ b m f, Build.ofRecipe (recipe line) = .ok b ∧
        Machine.Ends b.program settings (.start []) m (.fault f) ∧ reply.err = f.report.line ++ "\n") ∨
      (∃ b m, Completes line b m) ∧ 0 ≤ s.limit := by
  cases turn with
  | refused _ failed => exact .inl ⟨_, failed, rfl⟩
  | faulted _ built ends => exact .inr (.inl ⟨_, _, _, built, ends, rfl⟩)
  | completed done room => exact .inr (.inr ⟨⟨_, _, done⟩, room⟩)
  | idle asked' | helped asked' | misused asked' | answered asked' | saved asked' | compared asked' =>
      cases asked.symm.trans asked'
  | missed looked =>
      rw [asked] at looked
      cases looked
  | left | unlisted | unsaved | misread | cut | overrun => cases goes

theorem Turn.not_derails (turn : s.Turn line reply) (goes : reply.ending = none) : ¬ s.Derails line := by
  intro derails
  cases derails with
  | unreadable any looked bad =>
      obtain ⟨cause, missing⟩ := History.exists_pick_numeral_iff.mpr ⟨any, bad⟩
      exact (turn.of_missing goes looked missing).1 cause rfl
  | unwritable asked there failed =>
      cases turn with
      | idle asked' | helped asked' | misused asked' | compared asked' | refused asked'
      | faulted asked' => cases asked.symm.trans asked'
      | completed done => cases asked.symm.trans done.asked
      | answered asked' kind =>
          cases asked.symm.trans asked'
          exact absurd rfl (kind _)
      | saved asked' there' written =>
          cases asked.symm.trans asked'
          cases there.symm.trans there'
          cases written.symm.trans failed
      | missed looked missing =>
          rw [asked] at looked
          cases List.mem_singleton.mp looked
          cases missing.symm.trans there
      | left | unlisted | unsaved | misread | cut | overrun => cases goes
  | overrun done below =>
      obtain ⟨e, failed, -⟩ | ⟨b, m, f, built, ends, -⟩ | ⟨-, room⟩ := turn.of_program goes done.asked
      · cases failed.symm.trans done.built
      · cases built.symm.trans done.built
        cases (ends.unique done.ends).2
      · exact absurd below (Int.not_lt.mpr room)

theorem Turn.derails (turn : s.Turn line reply) (reached : s.Reached) {r : Report}
    (escaped : reply.ending = some (.escaped r)) : s.Derails line := by
  cases turn with
  | unlisted _ there failed =>
      obtain ⟨lines, listed⟩ := reached.fullListing there
      cases failed.symm.trans listed
  | unsaved asked there failed => exact .unwritable asked there failed
  | misread looked missing =>
      obtain ⟨any, text, rfl, bad⟩ := pick_numeral_iff.mp ⟨_, missing⟩
      exact .unreadable any looked bad
  | overrun done room => exact .overrun done room
  | _ => cases escaped

theorem Turn.asked_quit (turn : s.Turn line reply) (quits : reply.ending = some .quit) :
    request line = .quit := by
  cases turn with
  | left asked => exact asked
  | _ => cases quits

/-- All lines: a failure that ends a session comes from a line that derails it, and all lines
before have been taken. -/
theorem Reached.exists_derails (h : s.Reached) {fuel : Nat} {lines : List String} {r : Report}
    (escaped : (s.exchanges fuel lines).2.2 = some (.escaped r)) :
    ∃ before line after last, lines = before ++ line :: after ∧
      (s.exchanges fuel before).2 = (last, none) ∧ last.Reached ∧ last.Derails line := by
  induction lines generalizing s with
  | nil => cases escaped
  | cons line lines ih =>
      cases stopped : (s.respond fuel line).ending with
      | some ending =>
          rw [exchanges, stopped] at escaped
          exact ⟨[], line, lines, s, rfl, rfl, h, (s.turn fuel line).derails h (stopped.trans escaped)⟩
      | none =>
          rw [exchanges_cons stopped] at escaped
          obtain ⟨before, bad, after, last, rfl, taken, derails⟩ := ih (h.next fuel line stopped) escaped
          exact ⟨line :: before, bad, after, last, rfl, by rw [exchanges_cons stopped]; exact taken, derails⟩

/-- Commands and programs that fail, with what is to be said about them. -/
inductive Fails (s : Session) (line : String) : String → Prop where
  | missing {token : Option String} {e : PickError} (looked : token ∈ (request line).tokens)
    (missing : s.kept.pick token = .error e) : Fails s line (notice e)
  | misused (asked : request line = .misuse) : Fails s line "  usage: :diff <n> <m>\n"
  | refused {e : BuildError} (asked : request line = .program)
    (failed : Build.ofRecipe (recipe line) = .error e) : Fails s line (e.report.line ++ "\n")
  | faulted {b : Build} {m : Machine} {f : Fault} (asked : request line = .program)
    (built : Build.ofRecipe (recipe line) = .ok b)
    (ends : Machine.Ends b.program settings (.start []) m (.fault f)) :
    Fails s line (f.report.line ++ "\n")

theorem Fails.not_completes {message : String} (h : s.Fails line message) {b : Build} {m : Machine} :
    ¬ Completes line b m := by
  intro done
  cases h with
  | missing looked =>
      rw [done.asked] at looked
      cases looked
  | misused asked => cases asked.symm.trans done.asked
  | refused _ failed => cases failed.symm.trans done.built
  | faulted _ built ends =>
      cases built.symm.trans done.built
      cases (ends.unique done.ends).2

/-- A failure after which the session goes on has been reported. -/
theorem Turn.reports (turn : s.Turn line reply) (goes : reply.ending = none) {message : String}
    (fails : s.Fails line message) :
    message.toList <:+: reply.out.toList ∨ message.toList <:+: reply.err.toList := by
  cases fails with
  | missing looked missing => exact .inl (turn.of_missing goes looked missing).2
  | misused asked =>
      cases turn with
      | misused => exact .inl List.infix_rfl
      | idle asked' | helped asked' | answered asked' | saved asked' | compared asked' | refused asked'
      | faulted asked' => cases asked.symm.trans asked'
      | completed done => cases asked.symm.trans done.asked
      | missed looked =>
          rw [asked] at looked
          cases looked
      | left | unlisted | unsaved | misread | cut | overrun => cases goes
  | refused asked failed =>
      obtain ⟨e, failed', said⟩ | ⟨b, m, f, built, -⟩ | ⟨⟨b, m, done⟩, -⟩ := turn.of_program goes asked
      · cases failed.symm.trans failed'
        exact .inr (said ▸ List.infix_rfl)
      · cases failed.symm.trans built
      · cases failed.symm.trans done.built
  | faulted asked built ends =>
      obtain ⟨e, failed, -⟩ | ⟨b, m, f, built', ends', said⟩ | ⟨⟨b, m, done⟩, -⟩ :=
        turn.of_program goes asked
      · cases failed.symm.trans built
      · cases built.symm.trans built'
        cases (ends.unique ends').2
        exact .inr (said ▸ List.infix_rfl)
      · cases built.symm.trans done.built
        cases (ends.unique done.ends).2

/-- The first word of a line. -/
def command? (line : String) : Option String := ((Text.words line.toList).map String.ofList).head?

theorem request_eq_quit_iff : request line = .quit ↔ command? line = some ":quit" ∨ command? line = some ":exit" := by
  unfold request command?
  cases (Text.words line.toList).map String.ofList with
  | nil => simp
  | cons command arguments =>
      simp only [List.head?_cons, Option.some.injEq]
      by_cases quits : command = ":quit" ∨ command = ":exit"
      · simp [quits]
      · simp only [quits, iff_false]
        rw [if_neg (by simpa using quits)]
        split_ifs
        any_goals exact not_false
        obtain _ | ⟨left, _ | ⟨right, _ | ⟨third, rest⟩⟩⟩ := arguments <;> exact Request.noConfusion

/-- A session goes on after every line that does not ask for its end, except for those that are
listed in `Derails`. What fails leaves the programs and their count alone, and it has been
reported when the session goes on; the next line is then read. A program that is not found is
reported as a missing key, except when its name is digits that make no number. -/
theorem goes_on_exactly (reached : s.Reached) (fuel : Nat) (quits : command? line ≠ some ":quit")
    (exits : command? line ≠ some ":exit") (settled : (s.respond fuel line).ending ≠ some .unfinished) :
    let reply := s.respond fuel line
    (reply.ending = none ↔ ¬ s.Derails line) ∧
      (∀ message, s.Fails line message →
        reply.session.kept = s.kept ∧ reply.session.count = s.count ∧
          (¬ s.Derails line →
            message.toList <:+: reply.out.toList ∨ message.toList <:+: reply.err.toList)) ∧
      (¬ s.Derails line → reply.session.Reached ∧ ∀ lines,
        let rest := reply.session.exchanges fuel lines
        s.exchanges fuel (line :: lines) = (⟨reply.out ++ prompt, reply.err⟩ :: rest.1, rest.2)) ∧
      ∀ token e, s.kept.pick token = .error e →
        (e.report.kind = .key ↔ ¬ (s.kept ≠ [] ∧ ∃ text, token = some text ∧ History.Unreadable text)) := by
  have turn := s.turn fuel line
  have goes (safe : ¬ s.Derails line) : (s.respond fuel line).ending = none := by
    cases stopped : (s.respond fuel line).ending with
    | none => rfl
    | some ending =>
        cases ending with
        | quit =>
            obtain asked | asked := request_eq_quit_iff.mp (turn.asked_quit stopped)
            · exact absurd asked quits
            · exact absurd asked exits
        | escaped r => exact absurd (turn.derails reached stopped) safe
        | unfinished => exact absurd stopped settled
  refine ⟨⟨turn.not_derails, goes⟩, fun message fails => ?_, fun safe => ?_, fun token e missing => ?_⟩
  · obtain ⟨-, count, kept⟩ := turn.unchanged fun b m => fails.not_completes
    exact ⟨kept, count, fun safe => turn.reports (goes safe) fails⟩
  · exact ⟨reached.next fuel line (goes safe), exchanges_cons (goes safe)⟩
  · rw [← pick_numeral_iff, missing, e.kind_eq_key_iff]
    simp

theorem reached_plus : ((start 1 .empty).keep plusBuild).Reached := by
  obtain ⟨built, -, -⟩ := built_lines
  obtain ⟨out, first⟩ := respond_of_halted (start 1 .empty) 9 (by decide +kernel) built rfl (by decide)
  have reached := (Reached.start 1 .empty).next 9 "+" (by rw [first]; rfl)
  rwa [first] at reached

/-- One of two programs is not kept. -/
theorem goes_on_exactly_missing :
    let s := (start 1 .empty).keep plusBuild
    s.Reached ∧ (s.respond 9 ":diff 1 #7").ending = none ∧ ¬ s.Derails ":diff 1 #7" ∧
      ("  ✗ program #7 is not kept (have #1)\n".toList <:+: (s.respond 9 ":diff 1 #7").out.toList ∨
        "  ✗ program #7 is not kept (have #1)\n".toList <:+: (s.respond 9 ":diff 1 #7").err.toList) ∧
      (s.respond 9 ":diff 1 #7").session.kept = s.kept := by
  have asked : request ":diff 1 #7" = .compare "1" "#7" := by decide +kernel
  have there : ((start 1 .empty).keep plusBuild).kept.pick (some "1") = .ok (1, plusBuild) := by decide +kernel
  have missing : ((start 1 .empty).keep plusBuild).kept.pick (some "#7") = .error (.notKept 7 [1]) := by decide +kernel
  have reply : ((start 1 .empty).keep plusBuild).respond 9 ":diff 1 #7" =
      ((start 1 .empty).keep plusBuild).tells (notice (.notKept 7 [1])) := by
    rw [respond_eq, asked]
    simp only [compare, lookup, there, missing]
    rfl
  have first : command? ":diff 1 #7" = some ":diff" := by decide +kernel
  have goes : (((start 1 .empty).keep plusBuild).respond 9 ":diff 1 #7").ending = none := by rw [reply]; rfl
  obtain ⟨survives, reports, -⟩ := goes_on_exactly reached_plus 9 (by rw [first]; decide) (by rw [first]; decide)
    (by simp [goes])
  have fails : ((start 1 .empty).keep plusBuild).Fails ":diff 1 #7" (notice (.notKept 7 [1])) :=
    .missing (by simp [asked, Request.tokens]) missing
  have safe := survives.mp goes
  obtain ⟨kept, -, said⟩ := reports _ fails
  exact ⟨reached_plus, goes, safe, said safe, kept⟩

/-- A digit that is not decimal ends the session. -/
theorem superscript_escapes :
    let s := (start 1 .empty).keep plusBuild
    s.Reached ∧ ∃ r, (s.respond 9 ":hash ²").ending = some (.escaped r) ∧ r.kind = .value := by
  have asked : request ":hash ²" = .query (some "²") .hash := by decide +kernel
  have digit : Text.isDigit '²' := by decide +kernel
  have other : Text.decimalValue? '²' = none := by decide +kernel
  have bad : History.Unreadable "²" := ⟨by simp, by simpa using digit, .inl ⟨'²', by simp, other⟩⟩
  obtain ⟨e, missing⟩ := (pick_numeral_iff (s := (start 1 .empty).keep plusBuild)).mpr
    ⟨List.cons_ne_nil _ _, "²", rfl, bad⟩
  have looked : ((start 1 .empty).keep plusBuild).lookup (some "²") = .error e.report := by
    unfold lookup
    rw [missing]
    cases e <;> rfl
  refine ⟨reached_plus, e.report, ?_, by cases e <;> rfl⟩
  rw [respond_eq, asked]
  simp only [ask, looked]
  rfl

end ByteTape.Session
