import ByteTape.Command.Run
import ByteTape.Signature
import Std.Time.DateTime.Timestamp

/-! # Command line

Files are read into a `Disk`, the command works on it, and what it changed is
written back.
-/

namespace ByteTape.CommandLine

/-- The path of a file or directory on a disk. -/
def pathOf (key : List String) : String := if key.isEmpty then "." else "/".intercalate key

/-- Add a file, or a directory as a place under a name that no path reaches. -/
def load (d : Disk) (key : List String) : IO Disk := do
  let path := pathOf key
  match ← (IO.FS.realPath path).toBaseIO with
  | .error _ => return d
  | .ok place =>
    if ← place.isDir then return d.put (key ++ [""]) []
    match ← (IO.FS.readBinFile path).toBaseIO with
    | .ok bytes => return d.put key bytes.toList
    | .error _ => return d

/-- Add everything on the way along a path. -/
def loadPath (d : Disk) (path : String) : IO Disk := do
  let mut disk := d
  let mut key : List String := if path.startsWith "/" then ["/"] else []
  for name in Disk.names path do
    if name = ".." then key := Disk.above key
    else if name ≠ "" && name ≠ "." then
      key := key ++ [name]
      disk ← load disk key
  return disk

/-- Write what is new or different. -/
def store (old new : Disk) : IO Unit := do
  for (path, bytes) in Disk.changes old new do
    IO.FS.writeBinFile path ⟨bytes.toArray⟩

/-- More instructions than any run carries out. -/
def fuel : Nat := 1 <<< 60

def now : IO Moment := do
  let time := (← Std.Time.Timestamp.now).toDurationSinceUnixEpoch
  return .ofUnix time.second.val.toNat (time.nano.val.toNat / 1000)

/-- The file of the key that signs. -/
def keyFile : String := "macrotape_private_key.pem"

/-- The key that signs, with a fresh salt. -/
def signer? : IO (Option (String → String)) := do
  match ← (IO.FS.readFile keyFile).toBaseIO with
  | .error _ => return none
  | .ok text =>
    match PrivateKey.ofText? text with
    | none => return none
    | some key =>
      let salt := (← IO.getRandomBytes (Signature.saltSize key.modulus).toUSize).toList
      return some fun digest => (Signature.sign? key salt digest).getD ""

/-- Hold a session with whoever types. -/
partial def converse (s : Session) : IO UInt32 := do
  let stdout ← IO.getStdout
  stdout.putStr Session.prompt
  stdout.flush
  let line ← (← IO.getStdin).getLine
  if line.isEmpty then
    stdout.putStrLn ""
    return 0
  let text := String.ofList (line.toList.filter (· != '\n'))
  let words := (Text.words text.toList).map String.ofList
  let mut disk := s.disk
  for word in words.drop 2 do
    disk ← loadPath disk word
  let reply := { s with disk }.respond fuel text
  store disk reply.session.disk
  stdout.putStr reply.out
  stdout.flush
  IO.eprint reply.err
  match reply.ending with
  | none => converse reply.session
  | some .quit => return 0
  | some (.escaped r) =>
    IO.eprintln r.message
    return 1
  | some .unfinished => return 1

/-- The files that options name. -/
def pathsOf (o : Command.Options) : List String :=
  [o.program, o.std, o.bin, o.diff].filterMap id ++ [Command.logbookFile]

def usage : String :=
  "usage: macrotape [program] " ++
    " ".intercalate (Command.Choice.table.map fun entry => s!"[{entry.1}]") ++ "\n"

/-- Run the command on the files its options name. -/
def perform (arguments : List String) (paths : List String) (sign : String → String) :
    IO UInt32 := do
  let mut disk := Disk.empty
  for path in paths do
    disk ← loadPath disk path
  let (ending, shell) := Command.run ⟨"", ← now, sign, fuel⟩ disk arguments
  store disk shell.disk
  let stdout ← IO.getStdout
  stdout.write ⟨(shell.stdout.flatMap (Command.Chunk.bytes false)).toArray⟩
  stdout.flush
  IO.eprint shell.stderr
  match ending with
  | .exit code => return code.toUInt32
  | .escaped r =>
    IO.eprintln r.message
    return 1
  | .unfinished => return 1

end ByteTape.CommandLine

open ByteTape in
def main (arguments : List String) : IO UInt32 := do
  match Command.Options.ofArguments arguments with
  | .error .help =>
    IO.print CommandLine.usage
    return 0
  | .error (.error _) => CommandLine.perform arguments [] id
  | .ok o =>
    if o.repl && !o.logbook then
      IO.print Session.banner
      CommandLine.converse (Session.start Command.shownLimit .empty)
    else
      match ← CommandLine.signer? with
      | some sign => CommandLine.perform arguments (CommandLine.pathsOf o) sign
      | none =>
        if o.record then
          IO.eprintln s!"error: no signing key in {CommandLine.keyFile}"
          return 1
        else CommandLine.perform arguments (CommandLine.pathsOf o) id
