import ByteTape.Artifact
import ByteTape.Disk
import ByteTape.Json.Read
import ByteTape.Json.Write
import ByteTape.Machine.Basic
import ByteTape.Moment
import ByteTape.Text.Utf8

/-! # Logbook

Runs, one to a line. A line holds an object with the time, the file, the digest
of the program and its signature, and how the run went.
-/

namespace ByteTape.Logbook

/-- What is kept of a run. -/
structure Entry where
  timestamp : String
  filename : String
  digest : String
  signature : String
  instructions : Nat
  steps : Nat
  outputLength : Nat
  /-- The beginning of the output, a character for each byte. -/
  preview : String
deriving DecidableEq

/-- The most bytes of output in an entry. -/
def previewSize : Nat := 32

namespace Entry

def toJson (e : Entry) : JsonValue :=
  .obj [("timestamp", .str e.timestamp), ("filename", .str e.filename), ("hash", .str e.digest),
    ("signature", .str e.signature), ("instructions", .int e.instructions), ("steps", .int e.steps),
    ("output_length", .int e.outputLength), ("output_preview", .str e.preview)]

/-- The line of an entry. -/
def line (e : Entry) : Except Report String := return (← e.toJson.dump) ++ "\n"

/-- The entry of a run that came to its end. -/
def ofRun (sign : String → String) (now : Moment) (filename : String) (p : Program) (m : Machine) :
    Entry where
  timestamp := now.stamp
  filename := filename
  digest := p.digest
  signature := sign p.digest
  instructions := p.size
  steps := m.steps
  outputLength := m.output.size
  preview := String.ofList (Text.latin (m.output.toList.take previewSize))

end Entry

/-- Write an entry behind the others. The file is there before the line is made, and stays
there if none can be made. -/
def record (d : Disk) (path : String) (e : Entry) : Disk × Except Report Unit :=
  match d.append path (e.line.toOption.elim [] Text.utf8) with
  | .error failure => (d, .error failure.report)
  | .ok d => (d, e.line.map fun _ => ())

/-- The line about an entry that was written. -/
def recorded (path : String) : String := s!"  📜 Recorded and signed run → {path}\n"

/-- Every way to end a line becomes a line feed. -/
def unifyBreaks : List Char → List Char
  | '\r' :: '\n' :: rest => '\n' :: unifyBreaks rest
  | '\r' :: rest => '\n' :: unifyBreaks rest
  | c :: rest => c :: unifyBreaks rest
  | [] => []

/-- The last `limit` of a list; all of it for zero, and all but the first for less. -/
def lastOf {α : Type} (limit : Int) (l : List α) : List α :=
  if 0 < limit then l.drop (l.length - limit.toNat) else l.drop (-limit).toNat

/-- A field that has to be there. -/
def field (e : JsonValue) (name : String) : Except Report JsonValue :=
  match e with
  | .obj fields =>
    match fields.lookup (Text.codePoints name) with
    | some value => .ok value
    | none => .error (.bare .key name)
  | _ => .error (.bare .type "")

/-- The beginning of a digest. -/
def shorten : JsonValue → Except Report JsonText
  | .str text => .ok (text.take 12)
  | .arr items => .ok (JsonValue.arr (items.take 12)).shown
  | _ => .error (.bare .type "")

/-- The first line about an entry. -/
def heading (e : JsonValue) : Except Report JsonText := do
  let timestamp := (← field e "timestamp").shown
  let filename := (← field e "filename").shown
  let instructions := (← field e "instructions").shown
  let steps := (← field e "steps").shown
  let digest ← shorten (← field e "hash")
  let parts : List JsonText := ["• ", timestamp, "  ", filename, "  [", instructions, " instrs, ", steps,
    " steps]  ", digest, "…"]
  return parts.flatten

/-- The lines about an entry. -/
def account (e : JsonValue) : Except Report String := do
  let head := (← Text.ofCodePoints (← heading e)) ++ "\n"
  match field e "output_preview" with
  | .ok preview => return if preview.isPresent then head ++ s!"    output: {preview.quoted}\n" else head
  | .error _ => return head

/-- What is printed about entries, up to the first that lacks something or does not print. -/
def accounts : List JsonValue → String × Except Report Unit
  | [] => ("", .ok ())
  | e :: rest =>
    match account e with
    | .error r => ("", .error r)
    | .ok text =>
      let (more, outcome) := accounts rest
      (text ++ more, outcome)

/-- The complaint about bytes that are no text. -/
def notText (bytes : List UInt8) (offset : Nat) : Report :=
  let byte := String.ofList (Text.lowerByte (bytes.getD offset 0))
  .bare .value s!"'utf-8' codec can't decode byte 0x{byte} in position {offset}"

/-- The last entries of a file. -/
def entries (limit : Int) (bytes : List UInt8) : Except Report (List JsonValue) := do
  let text ← (Text.ofUtf8 bytes).mapError (notText bytes)
  let lines := lastOf limit (Text.lines (unifyBreaks text.toList))
  lines.mapM fun line => (JsonValue.read (String.ofList line)).mapError JsonError.report

/-- Show the last entries, the newest first: what is printed, and the entries
unless something is wrong with them. -/
def showLast (d : Disk) (path : String) (limit : Int) : String × Except Report (List JsonValue) :=
  match d.read path with
  | .error (.missing _) => ("No logbook yet.\n", .ok [])
  | .error e => ("", .error e.report)
  | .ok bytes =>
    match entries limit bytes with
    | .error r => ("", .error r)
    | .ok found =>
      let (text, outcome) := accounts found.reverse
      let head := s!"\nmacrotape logbook — last {found.length} entries:\n"
      match outcome with
      | .error r => (head ++ text, .error r)
      | .ok () => (head ++ text, .ok found)

end ByteTape.Logbook
