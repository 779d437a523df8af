import ByteTape.Command.Run
import ByteTape.Proofs.Machine.Places
import ByteTape.Proofs.Store

/-! # Running an exported program

The command loads a source, writes its artifact and runs the program. Given the artifact it
runs the same instructions, and all that can be seen of the run is the same: what the program
puts out, how the command ends, and what the machine writes about itself. Only the place of
an instruction that lacks input is another one.
-/

namespace ByteTape.Command

namespace Work

variable {α β : Type} {shell : Shell}

theorem run_bind (x : Work α) (f : α → Work β) (shell : Shell) :
    (x >>= f).run shell =
      match x.run shell with
      | (.ok a, shell) => (f a).run shell
      | (.error ending, shell) => (.error ending, shell) := by
  change ExceptT.bindCont f (x.run shell).1 (x.run shell).2 = _
  rcases x.run shell with ⟨_ | _, _⟩ <;> rfl

@[simp]
theorem run_pure (a : α) : (pure a : Work α).run shell = (.ok a, shell) := rfl

@[simp]
theorem run_get : (get : Work Shell).run shell = (.ok shell, shell) := rfl

@[simp]
theorem run_modify (f : Shell → Shell) : (modify f : Work PUnit).run shell = (.ok (), f shell) := rfl

@[simp]
theorem run_print (s : String) :
    (print s).run shell = (.ok (), { shell with stdout := shell.stdout ++ [.text s] }) := rfl

@[simp]
theorem run_printRaw (bytes : List UInt8) :
    (printRaw bytes).run shell = (.ok (), { shell with stdout := shell.stdout ++ [.raw bytes] }) := rfl

@[simp]
theorem run_complain (s : String) :
    (complain s).run shell = (.ok (), { shell with stderr := shell.stderr ++ s }) := rfl

@[simp]
theorem run_exit (code : Nat) : (exit code : Work α).run shell = (.error (.exit code), shell) := rfl

@[simp]
theorem run_throw (ending : Ending) : (throw ending : Work α).run shell = (.error ending, shell) := rfl

@[simp]
theorem run_orFail (about : String) (a : α) : (orFail about (.ok a)).run shell = (.ok a, shell) := rfl

end Work

/-- Nothing is asked for but to load a program, to write its artifact or its text, and to
run it. -/
structure Options.Bare (o : Options) : Prop where
  runs : o.noRun = false
  scopes : o.scopes = false
  plot : o.plot = false
  viz : filled o.viz = none
  why : filled o.why = none
  hash : o.hash = false
  diff : filled o.diff = none
  record : o.record = false
  logbook : o.logbook = false
  repl : o.repl = false

/-- The options with which the command loads a file. -/
def Options.loading (o : Options) : Store.Options :=
  { Store.Options.standard with
    libraryPath := o.std, dialect := if o.plain then .plain else .extended }

/-- The settings under which the command runs a program. -/
def Options.settings (o : Options) : Settings := ⟨o.endOfInput, o.debug, o.maxSteps⟩

/-- What the machine of a program comes to under these options. -/
def Options.ran (o : Options) (w : World) (p : Program) : Machine × Outcome :=
  (Machine.start (Text.utf8 o.input)).run p o.settings w.fuel

/-- The shell with the text of the program, if that is asked for. -/
def Options.shown (o : Options) (p : Program) (shell : Shell) : Shell :=
  if o.printBin then { shell with stdout := shell.stdout ++ [.text s!"Bin: {p.render false}\n"] }
  else shell

/-- The shell after a run, and whether the command goes on. -/
def afterRun (shell : Shell) : Machine × Outcome → Except Ending Unit × Shell
  | (m, .unfinished) =>
    (.error .unfinished, { shell with stderr := shell.stderr ++ m.diagnostics })
  | (m, .fault f) =>
    (.error (.exit 1),
      ⟨shell.disk, shell.stdout ++ [.raw m.output.toList],
        shell.stderr ++ m.diagnostics ++ (f.report.line ++ "\n")⟩)
  | (m, .halted) =>
    (.ok (), ⟨shell.disk, shell.stdout ++ [.raw m.output.toList], shell.stderr ++ m.diagnostics⟩)

variable {w : World} {o : Options} {path : String} {p : Program} {shell : Shell}

theorem runProgram_run (bare : o.Bare) :
    (runProgram w o path p).run shell = afterRun shell (o.ran w p) := by
  unfold runProgram Options.ran Options.settings
  rcases ran : (Machine.start (Text.utf8 o.input)).run p ⟨o.endOfInput, o.debug, o.maxSteps⟩ w.fuel
    with ⟨m, outcome⟩
  simp only [ran]
  cases outcome with
  | halted => simp [Work.run_bind, bare.record, afterRun]
  | fault f => simp [Work.run_bind, afterRun]
  | unfinished => simp [Work.run_bind, afterRun]

/-- What the command does with a program that it has loaded. -/
theorem workOn_run (bare : o.Bare) (shell : Shell) {build : Option Build}
    (loaded : Store.load shell.disk path o.loading = .ok (p, build)) {later : Shell}
    (used : (useArtifacts o p).run shell = (.ok (), later)) :
    (workOn w o path).run shell = afterRun (o.shown p later) (o.ran w p) := by
  unfold Options.loading at loaded
  cases shows : o.printBin <;>
    simp [workOn, Work.run_bind, loaded, bare.scopes, bare.plot, bare.viz, bare.why, used, bare.hash,
      shows, bare.runs, runProgram_run bare, Options.shown]

theorem useArtifacts_export {target : String} {disk' : Disk} (bare : o.Bare)
    (exporting : filled o.bin = some target)
    (written : Store.writeArtifact shell.disk p target = .ok disk') :
    (useArtifacts o p).run shell =
      (.ok (), ⟨disk', shell.stdout, shell.stderr ++ Store.exported target⟩) := by
  simp [useArtifacts, Work.run_bind, exporting, bare.diff, written]

theorem useArtifacts_idle (bare : o.Bare) (silent : filled o.bin = none) :
    (useArtifacts o p).run shell = (.ok (), shell) := by
  simp [useArtifacts, silent, bare.diff]

/-- How the command ends when its work has come to this. -/
def ending : Except Ending Unit × Shell → Ending × Shell
  | (.ok (), shell) => (.exit 0, shell)
  | (.error e, shell) => (e, shell)

theorem run_of_load {disk : Disk} {arguments : List String} {build : Option Build} {later : Shell}
    (asked : Options.ofArguments arguments = .ok o) (bare : o.Bare) (named : o.program = some path)
    (loaded : Store.load disk path o.loading = .ok (p, build))
    (used : (useArtifacts o p).run ⟨disk, [], ""⟩ = (.ok (), later)) :
    run w disk arguments = ending (afterRun (o.shown p later) (o.ran w p)) := by
  have worked := workOn_run (w := w) bare ⟨disk, [], ""⟩ loaded used
  simp only [run, asked, perform, bare.logbook, bare.repl, named, Bool.false_eq_true, if_false, worked]
  rcases afterRun (o.shown p later) (o.ran w p) with ⟨_ | _, _⟩ <;> rfl

theorem write_of_writeArtifact {d d' : Disk} (written : Store.writeArtifact d p path = .ok d') :
    d.write (Disk.normalise path) (Artifact.encode p) = .ok d' := by
  unfold Store.writeArtifact Store.disk at written
  cases result : d.write (Disk.normalise path) (Artifact.encode p) with
  | error e =>
      rw [result] at written
      cases written
  | ok d₁ =>
      rw [result] at written
      cases written
      rfl

@[simp]
theorem shown_disk : (o.shown p shell).disk = shell.disk := by
  unfold Options.shown; split <;> rfl

@[simp]
theorem shown_stderr : (o.shown p shell).stderr = shell.stderr := by
  unfold Options.shown; split <;> rfl

theorem disk_afterRun (ran : Machine × Outcome) : (ending (afterRun shell ran)).2.disk = shell.disk := by
  rcases ran with ⟨m, _ | f | _⟩ <;> rfl

theorem ran_relocated (o : Options) (w : World) (p : Program) (known : Option (Array (Option Place))) :
    o.ran w ⟨p.instrs, known⟩ = ((o.ran w p).1, (o.ran w p).2.blamedBy ⟨p.instrs, known⟩) :=
  Machine.run_blamedBy (p := p) (q := ⟨p.instrs, known⟩) rfl w.fuel _

/-- Two last lines about a run that are the same, or that name different places where the same
instruction lacks input. -/
def SameButPlace (last last' : String) : Prop :=
  last' = last ∨ ∃ i place place', last = (Fault.noInput i place).report.line ++ "\n" ∧
    last' = (Fault.noInput i place').report.line ++ "\n"

/-- The commands end alike and print the same, and in front of their last lines they complain
about the same. -/
structure Alike (told : String) (first second : Ending × Shell) (before before' : String) : Prop where
  ending : second.1 = first.1
  stdout : second.2.stdout = first.2.stdout
  stderr : ∃ last last', first.2.stderr = before ++ told ++ last ∧
    second.2.stderr = before' ++ told ++ last' ∧ SameButPlace last last'

theorem alike_afterRun (q : Program) {first second : Shell} (same : second.stdout = first.stdout)
    {m : Machine} {outcome : Outcome}
    (known : ∀ f, outcome = .fault f →
      (∃ limit ip origin, f = .budget limit ip origin) ∨ ∃ ip origin, f = .noInput ip origin) :
    Alike m.diagnostics (ending (afterRun first (m, outcome)))
      (ending (afterRun second (m, outcome.blamedBy q))) first.stderr second.stderr := by
  cases outcome with
  | halted | unfinished =>
      refine ⟨rfl, ?_, "", "", ?_, ?_, .inl rfl⟩
      · simp [ending, afterRun, Outcome.blamedBy, same]
      · simp [ending, afterRun]
      · simp [ending, afterRun, Outcome.blamedBy]
  | fault f =>
      refine ⟨rfl, ?_, f.report.line ++ "\n", (f.blamedBy q).report.line ++ "\n", rfl, rfl, ?_⟩
      · simp [ending, afterRun, Outcome.blamedBy, same]
      · obtain ⟨limit, ip, origin, rfl⟩ | ⟨ip, origin, rfl⟩ := known f rfl
        · exact .inl rfl
        · exact .inr ⟨ip, origin, q.origin ip, rfl, rfl⟩

/-- An exported program runs like its source. The command that loads a source and writes its
artifact, and the command that is given the artifact and the same options for the run, end
alike, write the same to the standard output, and say the same about every instruction and
every dump. At most the lines about missing input differ, in the place that they name. -/
theorem exported_runs_alike {w w' : World} {disk disk' : Disk} {arguments arguments' : List String}
    {o : Options} {path target : String} {p : Program} {build : Build}
    (asked : Options.ofArguments arguments = .ok o) (bare : o.Bare) (named : o.program = some path)
    (exporting : filled o.bin = some target)
    (loaded : Store.load disk path o.loading = .ok (p, some build)) (counted : p.size < 2 ^ 32)
    (written : Store.writeArtifact disk p target = .ok disk')
    (asked' : Options.ofArguments arguments' =
      .ok { o with program := some target, std := none, bin := none })
    (patience : w'.fuel = w.fuel) :
    (run w disk arguments).2.disk = disk' ∧
      Alike (o.ran w p).1.diagnostics (run w disk arguments) (run w' disk' arguments')
        (Store.exported target) "" := by
  obtain ⟨ops, known, linked⟩ := Store.linked_of_load loaded
  have held := Disk.read_of_write (write_of_writeArtifact written)
  let o' : Options := { o with program := some target, std := none, bin := none }
  have bare' : o'.Bare := ⟨bare.runs, bare.scopes, bare.plot, bare.viz, bare.why, bare.hash, bare.diff,
    bare.record, bare.logbook, bare.repl⟩
  have loaded' := Store.load_artifact linked counted held o'.loading
  have first := run_of_load (w := w) asked bare named loaded
    (useArtifacts_export bare exporting written)
  have second := run_of_load (w := w') asked' bare' rfl loaded' (useArtifacts_idle bare' rfl)
  have again : o'.ran w' p = o.ran w p := by
    unfold Options.ran
    rw [patience]
    rfl
  rw [ran_relocated, again] at second
  refine ⟨by rw [first, disk_afterRun, shown_disk], ?_⟩
  rw [first, second]
  rcases ran : o.ran w p with ⟨m, outcome⟩
  have shown : (o'.shown ⟨p.instrs, some (Artifact.origins (Disk.normalise target) p.size)⟩
      ⟨disk', [], ""⟩).stdout = (o.shown p ⟨disk', [], "" ++ Store.exported target⟩).stdout := by
    unfold Options.shown
    split <;> rfl
  have faults (f : Fault) (faulted : outcome = .fault f) :=
    Machine.fault_of_run (Program.paired_of_ofOps linked) (faulted ▸ ran)
  simpa using alike_afterRun _ (m := m) shown faults

/-- A text that reads a byte and leaves the rest to a macro of its library. -/
def echoer : Disk := ⟨[(["a"], Text.utf8 ",#std/e"), (["l"], Text.utf8 ":e\x7b.,\x7d")]⟩

def echoerOptions : Options :=
  { Options.default with
    program := some "a", bin := some "b", std := some "l", input := "x", endOfInput := .fault,
    maxSteps := some 9, debug := true }

def echoerProgram : Program :=
  ⟨#[⟨.input, none⟩, ⟨.output, none⟩, ⟨.input, none⟩],
    some #[some (.source ⟨"a", 1, 1⟩), some (.source ⟨"l", 1, 4⟩), some (.source ⟨"l", 1, 5⟩)]⟩

theorem echoer_loaded :
    ∃ build, Store.load echoer "a" echoerOptions.loading = .ok (echoerProgram, some build) := by
  have made : (Store.load echoer "a" echoerOptions.loading).map (fun found => (found.1, found.2.isSome)) =
      .ok (echoerProgram, true) := by
    decide +kernel
  obtain ⟨⟨p, built⟩, loaded, shown⟩ := map_eq_ok made
  obtain ⟨rfl, some⟩ := Prod.mk.inj shown
  obtain ⟨build, rfl⟩ := Option.isSome_iff_exists.mp some
  exact ⟨build, loaded⟩

theorem echoer_written (p : Program) :
    Store.writeArtifact echoer p "b" = .ok (echoer.put ["b"] (Artifact.encode p)) := by
  have path : Disk.normalise "b" = "b" := by decide
  have found : echoer.locate "b" = .ok ["b"] := by decide +kernel
  have free : echoer.isDirectory ["b"] = false := by decide
  simp only [Store.writeArtifact, Disk.write, path, found, free]
  rfl

/-- A world in which no program goes on for more than ten instructions. -/
def briefWorld : World := ⟨"", ⟨2024, 1, 2, 3, 4, 5, 0⟩, id, 10⟩

/-- The second byte is missing, which the two commands blame on a macro and on an offset. -/
theorem exported_runs_alike_echoer :
    (echoerOptions.ran briefWorld echoerProgram).2 = .fault (.noInput 2 (.source ⟨"l", 1, 5⟩)) ∧
      Alike (echoerOptions.ran briefWorld echoerProgram).1.diagnostics
        (run briefWorld echoer
          ["a", "*bin=b", "*std=l", "*in=x", "*eof=fault", "*max_steps=9", "*debug"])
        (run briefWorld (echoer.put ["b"] (Artifact.encode echoerProgram))
          ["*debug", "*in", "x", "*eof=fault", "b", "*max_steps", "9"])
        (Store.exported "b") "" := by
  obtain ⟨build, loaded⟩ := echoer_loaded
  have asked : Options.ofArguments
      ["a", "*bin=b", "*std=l", "*in=x", "*eof=fault", "*max_steps=9", "*debug"] = .ok echoerOptions := by
    decide +kernel
  have asked' : Options.ofArguments ["*debug", "*in", "x", "*eof=fault", "b", "*max_steps", "9"] =
      .ok { echoerOptions with program := some "b", std := none, bin := none } := by
    decide +kernel
  have bare : echoerOptions.Bare := ⟨rfl, rfl, rfl, rfl, rfl, rfl, rfl, rfl, rfl, rfl⟩
  have starves : (echoerOptions.ran briefWorld echoerProgram).2 =
      .fault (.noInput 2 (.source ⟨"l", 1, 5⟩)) := by
    rfl
  exact ⟨starves, (exported_runs_alike asked bare rfl rfl loaded (by decide) (echoer_written _) asked' rfl).2⟩

end ByteTape.Command
