/-! # Operations

The nine operations of the tape machine. Each has a printed name, a character
in source text and a tag byte in artifacts.
-/

namespace ByteTape

/-- An operation of the tape machine. -/
inductive Op where
  /-- Move the pointer one cell to the right. -/
  | right
  /-- Move the pointer one cell to the left. -/
  | left
  /-- Add one to the current cell, wrapping at 256. -/
  | increment
  /-- Take one from the current cell, wrapping at zero. -/
  | decrement
  /-- Jump past the matching close when the current cell is zero. -/
  | loopOpen
  /-- Jump behind the matching open when the current cell is not zero. -/
  | loopClose
  /-- Emit the current cell. -/
  | output
  /-- Store the next input byte in the current cell. -/
  | input
  /-- Show the cells around the pointer. -/
  | debug
deriving DecidableEq

namespace Op

/-- The operations in the order of their tags. -/
def all : List Op :=
  [right, left, increment, decrement, loopOpen, loopClose, output, input, debug]

def name : Op → String
  | right => "SHIFT_RIGHT"
  | left => "SHIFT_LEFT"
  | increment => "INCREMENT"
  | decrement => "DECREMENT"
  | loopOpen => "LOOP_OPEN"
  | loopClose => "LOOP_CLOSE"
  | output => "OUTPUT"
  | input => "INPUT"
  | debug => "DEBUG"

def symbol : Op → Char
  | right => '>'
  | left => '<'
  | increment => '+'
  | decrement => '-'
  | loopOpen => '['
  | loopClose => ']'
  | output => '.'
  | input => ','
  | debug => '?'

def tag : Op → UInt8
  | right => 0
  | left => 1
  | increment => 2
  | decrement => 3
  | loopOpen => 4
  | loopClose => 5
  | output => 6
  | input => 7
  | debug => 8

def ofName? (name : String) : Option Op :=
  all.find? fun op => op.name == name

/-- The operation a tag byte stands for. -/
def ofTag? (tag : UInt8) : Option Op :=
  all.find? fun op => op.tag == tag

/-- The operation with this number, or the number itself when there is none. -/
def ofNumber (n : Int) : Except Int Op :=
  match all.find? fun op => (op.tag.toNat : Int) == n with
  | some op => .ok op
  | none => .error n

/-- One of the eight operations that are a single character of any source text.
The debug marker is not among them: it belongs to the extended language. -/
def ofPrimitive? : Char → Option Op
  | '>' => some right
  | '<' => some left
  | '+' => some increment
  | '-' => some decrement
  | '[' => some loopOpen
  | ']' => some loopClose
  | '.' => some output
  | ',' => some input
  | _ => none

@[simp]
theorem ofTag?_tag (op : Op) : ofTag? op.tag = some op := by
  cases op <;> decide

end Op

end ByteTape
