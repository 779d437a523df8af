import Std.Data.ExtTreeMap

/-! # The tape

Cells in both directions without end. A cell that was never stored to reads as
zero, and two tapes are equal when the same cells were stored with the same bytes.
-/

namespace ByteTape

/-- The cells that were stored to, by position. -/
structure Tape where
  cells : Std.ExtTreeMap Int UInt8 compare

namespace Tape

/-- The tape nobody has written to. -/
def blank : Tape := ⟨∅⟩

/-- The byte of a cell. -/
def read (t : Tape) (i : Int) : UInt8 := t.cells[i]?.getD 0

/-- Store a byte in a cell. -/
def write (t : Tape) (i : Int) (b : UInt8) : Tape := ⟨t.cells.insert i b⟩

/-- Every stored cell with its byte, from left to right. -/
def toList (t : Tape) : List (Int × UInt8) := t.cells.toList

/-- The number of stored cells. -/
def size (t : Tape) : Nat := t.cells.size

theorem read_write (t : Tape) (i j : Int) (b : UInt8) :
    (t.write i b).read j = if i = j then b else t.read j := by
  simp only [write, read, Std.ExtTreeMap.getElem?_insert, Std.LawfulEqCmp.compare_eq_iff_eq]
  split <;> rfl

@[simp]
theorem read_write_self (t : Tape) (i : Int) (b : UInt8) : (t.write i b).read i = b := by
  simp [read_write]

theorem size_write_le (t : Tape) (i : Int) (b : UInt8) : (t.write i b).size ≤ t.size + 1 :=
  Std.ExtTreeMap.size_insert_le

end Tape

end ByteTape
