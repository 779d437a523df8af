import ByteTape.Report
import ByteTape.Text.Blank
import ByteTape.Text.Letter

/-! # Paths

A path names a macro by going up some scopes and then down by names, as in
`^^util/print`. A reference is a path written somewhere in a text, either to use
the macro or to import its name.
-/

namespace ByteTape

/-- So many scopes up, then down by name. -/
structure Path where
  up : Nat
  steps : List String
deriving DecidableEq

/-- Why a text is no path. -/
inductive PathError where
  | badStep (step text : String)
  | empty
deriving DecidableEq

/-- Where paths that stand in no file are said to stand. -/
def PathError.place : Location := .start "<path>"

def PathError.message : PathError → String
  | badStep step text => s!"Invalid path component '{step}' in '{text}'"
  | empty => "Empty macro path"

def PathError.report (e : PathError) : Report := ⟨.scope, e.message, some (.source place)⟩

namespace Path

def render (p : Path) : String :=
  String.ofList (List.replicate p.up '^') ++ "/".intercalate p.steps

/-- A step is a word of letters and underscores. -/
def isStep (step : List Char) : Bool :=
  !step.isEmpty && step.all fun c => c = '_' || Text.isLetter c

/-- Read a path that stands alone. -/
def parse (text : String) : Except PathError Path :=
  let cs := text.toList
  let body := cs.dropWhile (· == '^')
  let up := (cs.takeWhile (· == '^')).length
  let steps := if body.isEmpty then [] else Text.pieces (· == '/') body
  match steps.find? fun step => !isStep step with
  | some step => .error (.badStep (String.ofList step) text)
  | none =>
    if steps.isEmpty && up == 0 then .error .empty
    else .ok ⟨up, steps.map String.ofList⟩

end Path

/-- A path as it stands in a text. -/
structure Reference where
  path : Path
  isImport : Bool
  loc : Location
deriving DecidableEq

def Reference.render (r : Reference) : String :=
  (if r.isImport then "use #" else "#") ++ r.path.render

end ByteTape
