import ByteTape.Report
import ByteTape.Text.Blank
import ByteTape.Text.Quoted

/-! # Files

The files below a working directory. A directory is there as long as it holds a
file. Paths are walked name by name, and a path that does not lead to a file is
told apart by what stands in the way.
-/

namespace ByteTape

/-- Why a file cannot be opened. The path is the one that was asked for. -/
inductive DiskError where
  | missing (path : String)
  /-- A directory stands there. -/
  | directory (path : String)
  /-- A file stands where the path goes on. -/
  | notDirectory (path : String)
  /-- No path holds a NUL. -/
  | nul
deriving DecidableEq

def DiskError.report : DiskError → Report
  | missing path => .bare .noFile ("[Errno 2] No such file or directory: " ++ Text.quoted path)
  | directory path => .bare .directory ("[Errno 21] Is a directory: " ++ Text.quoted path)
  | notDirectory path => .bare .notDirectory ("[Errno 20] Not a directory: " ++ Text.quoted path)
  | nul => .bare .value "embedded null byte"

/-- Files by the names that lead to them, and what they hold. -/
structure Disk where
  files : List (List String × List UInt8)

namespace Disk

def empty : Disk := ⟨[]⟩

/-- The names of a path, empty ones included. -/
def names (path : String) : List String :=
  (Text.pieces (· == '/') path.toList).map String.ofList

/-- A path without doubled slashes and without names that change nothing. -/
def normalise (path : String) : String :=
  let slashes := (path.toList.takeWhile (· == '/')).length
  let root := if slashes = 0 then "" else if slashes = 2 then "//" else "/"
  let kept := (names path).filter fun name => name != "" && name != "."
  let whole := root ++ "/".intercalate kept
  if whole = "" then "." else whole

def content? (d : Disk) (key : List String) : Option (List UInt8) := d.files.lookup key

/-- The working directory, what lies above it, the root of all files, and every
directory that holds a file. -/
def isDirectory (d : Disk) (key : List String) : Bool :=
  key.all (· == "..") || key == ["/"] ||
    d.files.any fun file => key.isPrefixOf file.1 && key != file.1

/-- The directory above another. -/
def above (key : List String) : List String :=
  if key == ["/"] then key
  else if key.all (· == "..") then key ++ [".."]
  else key.dropLast

/-- Walk names from a directory to the file or directory they lead to, which need
not be there. -/
def walk (d : Disk) (path : String) (here : List String) : List String → Except DiskError (List String)
  | [] => .ok here
  | name :: rest =>
    if name = "" || name = "." then walk d path here rest
    else if name = ".." then walk d path (above here) rest
    else
      let key := here ++ [name]
      if rest.isEmpty then .ok key
      else if d.isDirectory key then walk d path key rest
      else if (d.content? key).isSome then .error (.notDirectory path)
      else .error (.missing path)

/-- What a path leads to. -/
def locate (d : Disk) (path : String) : Except DiskError (List String) :=
  if path.toList.contains '\x00' then .error .nul
  else if path = "" then .error (.missing path)
  else d.walk path (if path.startsWith "/" then ["/"] else []) (names path)

/-- The bytes of a file. -/
def read (d : Disk) (path : String) : Except DiskError (List UInt8) :=
  match d.locate path with
  | .error e => .error e
  | .ok key =>
    match d.content? key with
    | some bytes => .ok bytes
    | none => if d.isDirectory key then .error (.directory path) else .error (.missing path)

/-- Give a file its bytes, in its place or at the end. -/
def put (d : Disk) (key : List String) (bytes : List UInt8) : Disk :=
  if (d.content? key).isSome then
    ⟨d.files.map fun file => if file.1 == key then (key, bytes) else file⟩
  else ⟨d.files ++ [(key, bytes)]⟩

/-- Write a file, new or not. -/
def write (d : Disk) (path : String) (bytes : List UInt8) : Except DiskError Disk :=
  match d.locate path with
  | .error e => .error e
  | .ok key => if d.isDirectory key then .error (.directory path) else .ok (d.put key bytes)

/-- Write behind what a file holds. -/
def append (d : Disk) (path : String) (bytes : List UInt8) : Except DiskError Disk :=
  match d.locate path with
  | .error e => .error e
  | .ok key =>
    if d.isDirectory key then .error (.directory path)
    else .ok (d.put key ((d.content? key).getD [] ++ bytes))

/-- The files that are new or different in a later state of a disk. -/
def changes (old new : Disk) : List (String × List UInt8) :=
  (new.files.filter fun file => old.content? file.1 != some file.2).map fun file =>
    ("/".intercalate file.1, file.2)

end Disk

end ByteTape
