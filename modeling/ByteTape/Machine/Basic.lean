import ByteTape.Machine.Tape
import ByteTape.Program
import ByteTape.Text.Hex

/-! # Machine states

What a machine holds between two instructions, the settings it runs under, and
the lines it writes about itself.
-/

namespace ByteTape

/-- What reading does once the input is used up. -/
inductive EndOfInput where
  /-- Store zero. -/
  | zero
  /-- Leave the cell as it is. -/
  | keep
  /-- Stop with a fault. -/
  | fault
deriving DecidableEq

namespace EndOfInput

def ofName? : String → Option EndOfInput
  | "zero" => some zero
  | "keep" => some keep
  | "fault" => some fault
  | _ => none

/-- The policy of a name, or the report that there is none. -/
def ofName (name : String) : Except Report EndOfInput :=
  match ofName? name with
  | some policy => .ok policy
  | none =>
    .error (.bare .value
      s!"Unknown end-of-input policy '{name}'. Choose from ('zero', 'keep', 'fault').")

/-- A name that is no policy changes nothing, so reading keeps the cell. -/
def ofNameOrKeep (name : String) : EndOfInput := (ofName? name).getD keep

end EndOfInput

/-- How a machine runs. -/
structure Settings where
  endOfInput : EndOfInput
  /-- Write a line about every instruction. -/
  tracing : Bool
  /-- The number of steps after which the machine stops. -/
  budget : Option Int

/-- What a machine holds between two instructions. -/
structure Machine where
  /-- The index of the next instruction. -/
  ip : Nat
  pointer : Int
  tape : Tape
  /-- The input bytes that are still unread. -/
  input : List UInt8
  output : Array UInt8
  /-- The number of instructions carried out. -/
  steps : Nat
  /-- What the machine wrote about itself, one text per instruction that did. -/
  notes : Array String

namespace Machine

/-- A machine on a blank tape, before its first instruction. -/
def start (input : List UInt8) : Machine := ⟨0, 0, .blank, input, #[], 0, #[]⟩

/-- The byte under the pointer. -/
def cell (m : Machine) : UInt8 := m.tape.read m.pointer

/-- Store a byte under the pointer. -/
def store (m : Machine) (b : UInt8) : Machine := { m with tape := m.tape.write m.pointer b }

/-- Add bytes to the end of the input. -/
def feed (m : Machine) (bytes : List UInt8) : Machine := { m with input := m.input ++ bytes }

/-- Go on to the following instruction. -/
def next (m : Machine) : Machine := { m with ip := m.ip + 1 }

def note (m : Machine) (text : String) : Machine := { m with notes := m.notes.push text }

/-- The number of cells a dump shows. -/
def rowWidth : Nat := 16

/-- The first cell of the row that holds the pointer. -/
def rowStart (m : Machine) : Int := m.pointer - m.pointer.fmod rowWidth

/-- Numbers in lines about the machine are at least four wide, filled with dots. -/
def number (n : Int) : List Char := Text.padLeft 4 '.' (Text.upperHexInt n)

/-- The instruction index and the pointer. -/
def position (m : Machine) : List Char :=
  "instr: ".toList ++ number m.ip ++ ", mem: ".toList ++ number m.pointer

/-- The line about an instruction that is to be carried out. -/
def traceLine (m : Machine) (op : Op) : String :=
  String.ofList (m.position ++ " | ".toList ++ op.name.toList)

/-- What stands before the cells of a row. -/
def rowHead (m : Machine) : List Char := number m.rowStart ++ " |".toList

/-- The cells of the row that holds the pointer. -/
def row (m : Machine) : List Char :=
  m.rowHead ++ (List.range rowWidth).flatMap fun i : Nat =>
    ' ' :: Text.upperByte (m.tape.read (m.rowStart + i))

/-- The mark under the current cell of the row. -/
def caret (m : Machine) : List Char :=
  List.replicate (m.rowHead.length + 1 + 3 * (m.pointer - m.rowStart).toNat) ' ' ++ ['^', '^']

/-- The position, the row around the pointer and the mark under the current cell. -/
def dump (m : Machine) : String :=
  String.ofList (m.position ++ ['\n'] ++ m.row ++ ['\n'] ++ m.caret)

end Machine

end ByteTape
