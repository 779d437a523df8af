import ByteTape.Expansion
import ByteTape.Item.Read

/-! # From source to program

A source text, and perhaps a library text before it, is read, its scopes are
built, the body of its root is expanded, and the brackets are matched.
-/

namespace ByteTape

/-- Why a source cannot be made into a program. -/
inductive BuildError where
  | read (e : ReadError)
  | scope (e : ScopeError)
  | expansion (e : ExpansionError)
  | brackets (e : BracketError)
deriving DecidableEq

def BuildError.report : BuildError → Report
  | read e => e.report
  | scope e => e.report
  | expansion e => e.report
  | brackets e => e.report .expansion

/-- A text with the name of its file. -/
structure Source where
  file : String
  text : String

/-- What goes into a program. -/
structure Recipe where
  source : Source
  root : String
  library : Option Source
  libraryRoot : String
  dialect : Dialect

/-- A program with the scopes it was made from. -/
structure Build where
  tree : ScopeTree
  program : Program
deriving DecidableEq

namespace ScopeTree

/-- Read a text and add its scopes under a root. -/
def load (t : ScopeTree) (dialect : Dialect) (root : String) (source : Source) :
    ScopeTree × Except BuildError Unit :=
  match Item.parse dialect source.file source.text with
  | .error e => (t, .error (.read e))
  | .ok items =>
    match t.build root items with
    | (t, .error e) => (t, .error (.scope e))
    | (t, .ok ()) => (t, .ok ())

/-- The program of a root. -/
def program (t : ScopeTree) (root : String) : Except BuildError Program :=
  match t.root root with
  | .error e => .error (.scope e)
  | .ok n =>
    match Expansion.scopeCode t n with
    | .error e => .error (.expansion e)
    | .ok code =>
      match Code.link code with
      | .error e => .error (.brackets e)
      | .ok program => .ok program

end ScopeTree

namespace Build

/-- The scopes of a library, if there is one. -/
def libraryTree (r : Recipe) : Except BuildError ScopeTree :=
  match r.library with
  | none => .ok .empty
  | some library =>
    match ScopeTree.empty.load r.dialect r.libraryRoot library with
    | (_, .error e) => .error e
    | (t, .ok ()) => .ok t

/-- The scopes of a recipe. -/
def treeOf (r : Recipe) : Except BuildError ScopeTree :=
  match libraryTree r with
  | .error e => .error e
  | .ok t =>
    match t.load r.dialect r.root r.source with
    | (_, .error e) => .error e
    | (t, .ok ()) => .ok t

/-- Make a program. -/
def ofRecipe (r : Recipe) : Except BuildError Build :=
  match treeOf r with
  | .error e => .error e
  | .ok t =>
    match t.program r.root with
    | .error e => .error e
    | .ok program => .ok ⟨t, program⟩

end Build

end ByteTape
