/-! # Places

Where a thing stands: at a line and column of a text, at an offset of an
artifact, or at an index of a program.
-/

namespace ByteTape

/-- A position in a source text. Lines and columns count from one, and a column
counts code points. Positions made by hand may hold any numbers. -/
structure Location where
  file : String
  line : Int
  column : Int
deriving DecidableEq

namespace Location

/-- The first position of a file. -/
def start (file : String) : Location := ⟨file, 1, 1⟩

/-- The position after one character; only a line feed starts a new line. -/
def next (loc : Location) (c : Char) : Location :=
  if c = '\n' then { loc with line := loc.line + 1, column := 1 }
  else { loc with column := loc.column + 1 }

/-- The position after a run of characters. -/
def after (loc : Location) (text : List Char) : Location :=
  text.foldl next loc

def render (loc : Location) : String :=
  s!"{loc.file}:{loc.line}:{loc.column}"

@[simp]
theorem after_nil (loc : Location) : loc.after [] = loc := rfl

@[simp]
theorem after_cons (loc : Location) (c : Char) (text : List Char) :
    loc.after (c :: text) = (loc.next c).after text := rfl

theorem after_append (loc : Location) (front back : List Char) :
    loc.after (front ++ back) = (loc.after front).after back :=
  List.foldl_append

@[simp]
theorem next_file (loc : Location) (c : Char) : (loc.next c).file = loc.file := by
  unfold next; split <;> rfl

@[simp]
theorem after_file (loc : Location) (text : List Char) : (loc.after text).file = loc.file := by
  induction text generalizing loc with
  | nil => rfl
  | cons c text ih => simp [ih]

end Location

/-- What an instruction or a failure can point at. -/
inductive Place where
  /-- A position in a source text. -/
  | source (loc : Location)
  /-- A byte of an artifact. -/
  | artifact (file : String) (offset : Nat)
  /-- An index of a program that does not say where its instructions come from. -/
  | instruction (index : Int)
  /-- A text given by whoever made the program. -/
  | label (text : String)
deriving DecidableEq

def Place.render : Place → String
  | source loc => loc.render
  | artifact file offset => s!"{file}@{offset}"
  | instruction index => s!"instruction {index}"
  | label text => text

end ByteTape
