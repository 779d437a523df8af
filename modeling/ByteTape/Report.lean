import ByteTape.Place

/-! # Reports

What a failure shows: its kind, a message and, for a failure of the language,
the place it points at. Every cause in the library has a report.
-/

namespace ByteTape

/-- The kinds of failure that can be told apart from outside. -/
inductive Report.Kind where
  /-- The text is not a sequence of items. -/
  | lex
  /-- The scopes cannot be built or a path leads nowhere. -/
  | scope
  /-- The items cannot be expanded, or their brackets do not match. -/
  | expansion
  /-- The bytes are not an artifact. -/
  | artifact
  /-- The machine gave up. -/
  | fault
  /-- A value outside the accepted ones. -/
  | value
  /-- An index outside its list. -/
  | range
  /-- A key that is not there. -/
  | key
  /-- A value of a kind that does not fit its use. -/
  | type
  /-- Nothing left to take. -/
  | depleted
  /-- A line that is not JSON. -/
  | json
  /-- A file that does not exist. -/
  | noFile
  /-- A directory where a file is needed. -/
  | directory
  /-- A file where a directory is needed. -/
  | notDirectory
deriving DecidableEq

/-- What a failure shows. -/
structure Report where
  kind : Report.Kind
  message : String
  place : Option Place
deriving DecidableEq

namespace Report

/-- The word a failure of the language is announced with. -/
def Kind.title : Kind → Option String
  | lex => some "LexError"
  | scope => some "ScopeError"
  | expansion => some "ExpansionError"
  | artifact => some "ArtifactError"
  | fault => some "RuntimeFault"
  | _ => none

/-- A failure of the language, as opposed to one of files or of misuse. -/
def Kind.isLanguage (kind : Kind) : Bool := kind.title.isSome

/-- A failure to open a file. -/
def Kind.isDisk : Kind → Bool
  | noFile | directory | notDirectory => true
  | _ => false

/-- The one-line announcement. -/
def line (r : Report) : String :=
  let title := r.kind.title.getD ""
  s!"{title}: {r.message}"

/-- A message that ends with the position it points at. -/
def located (kind : Kind) (message : String) (loc : Location) : Report :=
  ⟨kind, s!"{message} at {loc.render}", some (.source loc)⟩

/-- A report that points nowhere. -/
def bare (kind : Kind) (message : String) : Report := ⟨kind, message, none⟩

end Report

end ByteTape
