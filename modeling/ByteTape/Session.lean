import ByteTape.Machine.Run
import ByteTape.Scope.Outline
import ByteTape.Session.History
import ByteTape.Store

/-! # Interactive sessions

One program to a line. A line that begins with a command looks at the programs
that are kept; any other line is built and run.
-/

namespace ByteTape

/-- What a session holds between two lines. -/
structure Session where
  /-- How many programs are kept. -/
  limit : Int
  kept : History Build
  /-- How many programs have been run to their end. -/
  count : Nat
  disk : Disk

/-- Why a session takes no further line. -/
inductive Session.Ending where
  | quit
  /-- A failure that no line accounts for. -/
  | escaped (r : Report)
  /-- A program ran out of fuel. -/
  | unfinished

/-- What a line brings about. -/
structure Session.Reply where
  out : String
  err : String
  session : Session
  ending : Option Session.Ending

namespace Session

def banner : String := "macrotape REPL — one program per line, :help for commands\n"

def prompt : String := "tape> "

def start (limit : Int) (disk : Disk) : Session := ⟨limit, [], 0, disk⟩

/-- Go on after printing. -/
def tells (s : Session) (out : String) : Reply := ⟨out, "", s, none⟩

/-- Go on after a complaint. -/
def complains (s : Session) (out err : String) : Reply := ⟨out, err, s, none⟩

/-- Stop because of a failure. -/
def escapes (s : Session) (out : String) (r : Report) : Reply := ⟨out, "", s, some (.escaped r)⟩

def help (s : Session) : String :=
  "  :bin [n]  :scopes [n]  :hash [n]  :save [n] [file]  :diff n m  :quit\n" ++
    s!"  the last {s.limit} programs are kept, numbered from #1\n"

/-- Look a program up: the program, or what is printed instead. -/
def lookup (s : Session) (token : Option String) : Except Report (Except String (Int × Build)) :=
  match s.kept.pick token with
  | .ok found => .ok (.ok found)
  | .error e =>
    let r := e.report
    if r.kind = .key then .ok (.error s!"  ✗ {r.message}\n") else .error r

/-- Commands about one program. -/
inductive Query where
  | bin
  | scopes
  | hash
  | save (file : Option String)
deriving DecidableEq

/-- Answer a query about a program. -/
def answer (s : Session) (n : Int) (b : Build) : Query → Reply
  | .bin => s.tells s!"Bin: {b.program.render false}\n"
  | .scopes =>
    match b.tree.fullListing 0 with
    | .ok lines => s.tells (String.join (lines.map (· ++ "\n")))
    | .error e => s.escapes "" e.report
  | .hash => s.tells s!"SHA256(#{n}) = {b.program.digest}\n"
  | .save file =>
    let path := file.getD s!"program_{n}.bin"
    match Store.writeArtifact s.disk b.program path with
    | .ok disk => ⟨"", Store.exported path, { s with disk }, none⟩
    | .error r => s.escapes "" r

/-- Look a program up and answer a query about it. -/
def ask (s : Session) (token : Option String) (q : Query) : Reply :=
  match s.lookup token with
  | .error r => s.escapes "" r
  | .ok (.error complaint) => s.tells complaint
  | .ok (.ok (n, b)) => s.answer n b q

/-- Compare two programs by their numbers. Both are looked up before either is
missed. -/
def compare (s : Session) (left right : String) : Reply :=
  match s.lookup (some left) with
  | .error r => s.escapes "" r
  | .ok first =>
    let complaint := match first with
      | .error text => text
      | .ok _ => ""
    match s.lookup (some right) with
    | .error r => s.escapes complaint r
    | .ok second =>
      match first, second with
      | .ok (a, p), .ok (b, q) =>
        let lines := Patch.lines p.program.ops q.program.ops s!"#{a}" s!"#{b}"
        let shown := if lines.isEmpty then ["  programs are identical"] else lines
        s.tells (String.join (shown.map (· ++ "\n")))
      | _, .error text => s.tells (complaint ++ text)
      | .error text, .ok _ => s.tells text

/-- What a line is built from. -/
def recipe (line : String) : Recipe := ⟨⟨"<repl>", line⟩, "src", none, "std", .extended⟩

/-- Keep a program that came to its end. A limit below zero cannot be met. -/
def keep (s : Session) (b : Build) : Session :=
  { s with kept := s.kept.keep s.limit.toNat (s.count + 1) b, count := s.count + 1 }

/-- Build and run a line. -/
def runLine (fuel : Nat) (s : Session) (line : String) : Reply :=
  match Build.ofRecipe (recipe line) with
  | .error e =>
    let r := e.report
    if r.kind.isLanguage then s.complains "" (r.line ++ "\n") else s.escapes "" r
  | .ok b =>
    let (m, outcome) := (Machine.start []).run b.program ⟨.zero, false, none⟩ fuel
    match outcome with
    | .unfinished => ⟨m.diagnostics, "", s, some .unfinished⟩
    | .fault f =>
      let partly := Text.quotedBytes m.output.toList
      s.complains (m.diagnostics ++ s!"  partial output: {partly}\n") (f.report.line ++ "\n")
    | .halted =>
      let s := s.keep b
      if s.limit < 0 then s.escapes m.diagnostics (.bare .depleted "")
      else
        let output := Text.quoted (String.ofList (Text.latin m.output.toList))
        s.tells (m.diagnostics ++
          s!"#{s.count}: {b.program.size} instrs, {m.steps} steps\n  output: {output}\n")

/-- What a line brings about. -/
def respond (fuel : Nat) (s : Session) (line : String) : Reply :=
  let words := (Text.words line.toList).map String.ofList
  match words with
  | [] => s.tells ""
  | command :: arguments =>
    if command = ":quit" || command = ":exit" then ⟨"", "", s, some .quit⟩
    else if command = ":help" then s.tells s.help
    else if command = ":bin" then s.ask arguments[0]? .bin
    else if command = ":scopes" then s.ask arguments[0]? .scopes
    else if command = ":hash" then s.ask arguments[0]? .hash
    else if command = ":save" then s.ask arguments[0]? (.save arguments[1]?)
    else if command = ":diff" then
      match arguments with
      | [left, right] => s.compare left right
      | _ => s.tells "  usage: :diff <n> <m>\n"
    else s.runLine fuel line

/-- What was printed between two requests for a line. -/
structure Exchange where
  out : String
  err : String

/-- The exchanges after the first prompt, the session they leave, and why it took
no further line. When there are no more lines a line feed ends the prompt. -/
def exchanges (fuel : Nat) (s : Session) : List String → List Exchange × Session × Option Ending
  | [] => ([⟨"\n", ""⟩], s, none)
  | line :: lines =>
    let reply := s.respond fuel line
    match reply.ending with
    | some ending => ([⟨reply.out, reply.err⟩], reply.session, some ending)
    | none =>
      let (rest, last, ending) := exchanges fuel reply.session lines
      (⟨reply.out ++ prompt, reply.err⟩ :: rest, last, ending)

/-- A whole session. -/
def transcript (fuel : Nat) (s : Session) (lines : List String) :
    List Exchange × Session × Option Ending :=
  let (rest, last, ending) := s.exchanges fuel lines
  (⟨banner ++ prompt, ""⟩ :: rest, last, ending)

end Session

end ByteTape
