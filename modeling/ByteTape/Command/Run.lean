import ByteTape.Command.Options
import ByteTape.Logbook
import ByteTape.Session

/-! # The command

What the command does with its options: load a program, show what is asked for,
run it and write the run down.
-/

namespace ByteTape.Command

/-- A piece of what is printed. -/
inductive Chunk where
  | text (s : String)
  /-- What a program wrote. -/
  | raw (bytes : List UInt8)

/-- The bytes of a piece. A stream of text takes a byte as the character of that
number. -/
def Chunk.bytes (textOnly : Bool) : Chunk → List UInt8
  | text s => Text.utf8 s
  | raw bytes => if textOnly then (Text.latin bytes).flatMap Text.utf8Char else bytes

/-- What the command can see of the world. -/
structure World where
  /-- The text that is typed. -/
  stdin : String
  now : Moment
  /-- The signature of a digest. -/
  sign : String → String
  /-- The most instructions of a run. -/
  fuel : Nat

/-- What the command changes. -/
structure Shell where
  disk : Disk
  stdout : List Chunk
  stderr : String

/-- How the command ends. -/
inductive Ending where
  | exit (code : Nat)
  /-- A failure that the command does not account for. -/
  | escaped (r : Report)
  /-- A program ran out of fuel. -/
  | unfinished

/-- Something that works on the shell and may end the command. -/
abbrev Work := ExceptT Ending (StateM Shell)

namespace Work

def print (s : String) : Work Unit :=
  modify fun shell => { shell with stdout := shell.stdout ++ [.text s] }

def printRaw (bytes : List UInt8) : Work Unit :=
  modify fun shell => { shell with stdout := shell.stdout ++ [.raw bytes] }

def complain (s : String) : Work Unit :=
  modify fun shell => { shell with stderr := shell.stderr ++ s }

def exit {α : Type} (code : Nat) : Work α := throw (.exit code)

/-- End the command unless there is a value. -/
def orEscape {α : Type} (r : Except Report α) : Work α :=
  match r with
  | .ok a => pure a
  | .error r => throw (.escaped r)

/-- Account for failures of the language and of files; the latter begin with a
text of their own. -/
def orFail {α : Type} (about : String) (r : Except Report α) : Work α :=
  match r with
  | .ok a => pure a
  | .error r =>
    if r.kind.isLanguage then do
      complain (r.line ++ "\n")
      exit 1
    else if r.kind.isDisk then do
      complain s!"{about}: {r.message}\n"
      exit 1
    else throw (.escaped r)

end Work

open Work

/-- The file the logbook is kept in. -/
def logbookFile : String := "macrotape.logbook.jsonl"

/-- The number of entries and of programs that are shown or kept. -/
def shownLimit : Int := 10

/-- A value that is given and not empty. -/
def filled (o : Option String) : Option String := o.filter (· != "")

/-- Show the logbook. -/
def showLogbook : Work Unit := do
  let (printed, outcome) := Logbook.showLast (← get).disk logbookFile shownLimit
  print printed
  discard (orEscape outcome)

/-- Hold a session. -/
def converse (w : World) : Work Unit := do
  let lines := (Text.lines w.stdin.toList).map String.ofList
  let (exchanges, session, ending) :=
    (Session.start shownLimit (← get).disk).transcript w.fuel lines
  modify fun shell => { shell with disk := session.disk }
  print (String.join (exchanges.map Session.Exchange.out))
  complain (String.join (exchanges.map Session.Exchange.err))
  match ending with
  | some (.escaped r) => throw (.escaped r)
  | some .unfinished => throw .unfinished
  | _ => return

/-- Show the scopes and how a path leads through them. -/
def showScopes (o : Options) : Option Build → Work Unit
  | none => complain "  ✗ Scope tree is unavailable for a compiled artifact\n"
  | some b => do
    if o.scopes then
      let lines ← orEscape ((b.tree.fullListing 0).mapError ScopeError.report)
      print (String.join (lines.map (· ++ "\n")))
    if let some path := filled o.why then
      let account ← orEscape do
        let n ← (b.tree.root "src").mapError ScopeError.report
        (b.tree.explain path n).mapError ScopeError.report
      print (String.join (account.lines.map (· ++ "\n")))

/-- Write an artifact and compare with another. -/
def useArtifacts (o : Options) (p : Program) : Work Unit := do
  if let some path := filled o.bin then
    let disk ← orFail "Failed to access artifact" (Store.writeArtifact (← get).disk p path)
    modify fun shell => { shell with disk }
    complain (Store.exported path)
  if let some path := filled o.diff then
    let (_, printed) ← orFail "Failed to access artifact"
      (Store.compare (← get).disk (.program p) (.file path))
    complain printed

/-- Run a program and write the run down if that is asked for. -/
def runProgram (w : World) (o : Options) (path : String) (p : Program) : Work Unit := do
  let settings : Settings := ⟨o.endOfInput, o.debug, o.maxSteps⟩
  let (m, outcome) := (Machine.start (Text.utf8 o.input)).run p settings w.fuel
  complain m.diagnostics
  match outcome with
  | .unfinished => throw .unfinished
  | .fault f =>
    printRaw m.output.toList
    complain (f.report.line ++ "\n")
    exit 1
  | .halted =>
    printRaw m.output.toList
    if o.record then
      let entry := Logbook.Entry.ofRun w.sign w.now path p m
      let (disk, outcome) := Logbook.record (← get).disk logbookFile entry
      modify fun shell => { shell with disk }
      orEscape outcome
      complain (Logbook.recorded logbookFile)

/-- Work on the program of a file. -/
def workOn (w : World) (o : Options) (path : String) : Work Unit := do
  let loading : Store.Options :=
    { Store.Options.standard with
      libraryPath := o.std, dialect := if o.plain then .plain else .extended }
  let (p, build) ← orFail s!"Failed to read {path}" (Store.load (← get).disk path loading)
  if o.scopes || o.plot || (filled o.viz).isSome || (filled o.why).isSome then showScopes o build
  useArtifacts o p
  if o.hash then complain (Store.digestLine path p.digest)
  if o.printBin then print s!"Bin: {p.render false}\n"
  if !o.noRun then runProgram w o path p

/-- What the options ask for. -/
def perform (w : World) (o : Options) : Work Unit :=
  if o.logbook then showLogbook
  else if o.repl then converse w
  else
    match o.program with
    | none => do
      complain "error: a program path is required\n"
      exit 2
    | some path => workOn w o path

/-- Run the command. Help is shown by whoever calls it. -/
def run (w : World) (disk : Disk) (arguments : List String) : Ending × Shell :=
  let shell : Shell := ⟨disk, [], ""⟩
  match Options.ofArguments arguments with
  | .error .help => (.exit 0, shell)
  | .error (.error e) => (.exit 2, { shell with stderr := e.line })
  | .ok o =>
    match (perform w o).run shell with
    | (.ok (), shell) => (.exit 0, shell)
    | (.error ending, shell) => (ending, shell)

end ByteTape.Command
