import Mathlib.Order.Bounds.Basic
import ByteTape.Machine.Basic
import ByteTape.Proofs.Text.Hex
import ByteTape.Proofs.Text.Lines

/-! # Dumps

A dump is three lines: where the machine is, the row of sixteen cells that the pointer is in, and a
mark. However wide the number before the row is, and whichever side of zero the pointer is on, the
mark stands under the two digits of the current cell.
-/

namespace ByteTape.Machine

theorem not_mem_number (n : Int) : '\n' ∉ number n := by
  intro feed
  rcases Text.mem_padLeft feed with fill | inside
  · cases fill
  · rcases Text.mem_upperHexInt inside with sign | digit
    · cases sign
    · exact absurd digit (by decide)

theorem not_mem_position (m : Machine) : '\n' ∉ m.position := by
  intro feed
  unfold position at feed
  rw [List.mem_append, List.mem_append, List.mem_append] at feed
  rcases feed with ((text | index) | text) | pointer
  · exact absurd text (by simp)
  · exact not_mem_number _ index
  · exact absurd text (by simp)
  · exact not_mem_number _ pointer

/-- The digits of the sixteen cells of the row. -/
def cells (m : Machine) : List (List Char) :=
  (List.range rowWidth).map fun i : Nat => Text.upperByte (m.tape.read (m.rowStart + i))

theorem row_eq (m : Machine) : m.row = m.rowHead ++ m.cells.flatMap (' ' :: ·) := by
  rw [row, cells, List.flatMap_map]

theorem not_mem_row (m : Machine) : '\n' ∉ m.row := by
  have bar : '\n' ∉ " |".toList := by simp
  rw [row_eq, rowHead, List.mem_append, List.mem_append, List.mem_flatMap]
  rintro ((start | feed) | ⟨text, among, inside⟩)
  · exact not_mem_number _ start
  · exact bar feed
  · obtain ⟨i, -, rfl⟩ := List.mem_map.mp among
    rcases List.mem_cons.mp inside with blank | digit
    · cases blank
    · exact absurd (Text.mem_upperByte digit) (by decide)

theorem not_mem_caret (m : Machine) : '\n' ∉ m.caret := by
  rw [caret, List.mem_append]
  rintro (blank | mark)
  · cases List.eq_of_mem_replicate blank
  · exact absurd mark (by decide)

theorem pieces_dump (m : Machine) :
    Text.pieces (· == '\n') m.dump.toList = [m.position, m.row, m.caret] := by
  have text : m.dump.toList = m.position ++ '\n' :: (m.row ++ '\n' :: m.caret) := by
    simp [dump]
  rw [text, Text.pieces_break m.not_mem_position, Text.pieces_break m.not_mem_row,
    Text.pieces_whole m.not_mem_caret]

/-- The row begins at a multiple of sixteen, and the pointer is less than sixteen cells behind. -/
theorem rowStart_spec (m : Machine) :
    16 ∣ m.rowStart ∧ m.rowStart ≤ m.pointer ∧ m.pointer < m.rowStart + 16 := by
  have row : m.rowStart = m.pointer - m.pointer % 16 := by
    rw [rowStart, Int.fmod_eq_emod_of_nonneg _ (by decide)]
    rfl
  omega

theorem isGreatest_rowStart (m : Machine) :
    IsGreatest {n : Int | 16 ∣ n ∧ n ≤ m.pointer} m.rowStart := by
  obtain ⟨aligned, before, near⟩ := m.rowStart_spec
  refine ⟨⟨aligned, before⟩, ?_⟩
  rintro n ⟨aligned', before'⟩
  omega

/-- Where cells are written in three columns each, the digits of a cell are found by its number. -/
theorem take_drop_cells {all : List (List Char)} (two : ∀ text ∈ all, text.length = 2) {i : Nat}
    {text : List Char} (there : all[i]? = some text) :
    ((all.flatMap (' ' :: ·)).drop (3 * i + 1)).take 2 = text := by
  induction all generalizing i with
  | nil => cases there
  | cons first rest ih =>
      obtain ⟨width, others⟩ := List.forall_mem_cons.mp two
      cases i with
      | zero =>
          cases there
          simp [width]
      | succ i =>
          have skip : 3 * (i + 1) + 1 = (' ' :: first).length + (3 * i + 1) := by
            rw [List.length_cons, width]
            omega
          rw [List.flatMap_cons, skip, List.drop_length_add_append]
          exact ih others there

theorem length_cells (m : Machine) : m.cells.length = 16 := by
  rw [cells, List.length_map, List.length_range]
  rfl

theorem getElem?_cells (m : Machine) {i : Nat} (inside : i < 16) :
    m.cells[i]? = some (Text.upperByte (m.tape.read (m.rowStart + i))) := by
  have found : (List.range rowWidth)[i]? = some i := List.getElem?_range inside
  rw [cells, List.getElem?_map, found, Option.map_some]

theorem eq_upperByte_of_cells {m : Machine} {i : Nat} {text : List Char}
    (there : m.cells[i]? = some text) : text = Text.upperByte (m.tape.read (m.rowStart + i)) := by
  have inside : i < 16 := by
    rw [← m.length_cells]
    exact (List.getElem?_eq_some_iff.mp there).1
  exact (Option.some.inj ((m.getElem?_cells inside).symm.trans there)).symm

/-- The mark of a dump stands under the current cell. A dump is three lines. The second shows the
sixteen cells from the last multiple of sixteen on that is not beyond the pointer, each as a blank
and its two digits; the third is blanks and the mark, and what stands above the mark are the digits
of the cell that the pointer is at. -/
theorem dump_marks_cell (m : Machine) :
    ∃ (start : Int) (cells : List (List Char)) (i : Nat) (row caret : List Char) (column : Nat),
      IsGreatest {n : Int | 16 ∣ n ∧ n ≤ m.pointer} start ∧ start + i = m.pointer ∧
      Text.pieces (· == '\n') m.dump.toList = [m.position, row, caret] ∧
      row = number start ++ " |".toList ++ cells.flatMap (' ' :: ·) ∧
      cells.length = 16 ∧
      (∀ (j : Nat) text, cells[j]? = some text → Text.Spells (m.tape.read (start + j)) text) ∧
      caret = List.replicate column ' ' ++ "^^".toList ∧
      column = (number start ++ " |".toList).length + (3 * i + 1) ∧
      Text.Spells (m.tape.read m.pointer) ((row.drop column).take 2) := by
  obtain ⟨-, before, near⟩ := m.rowStart_spec
  obtain ⟨i, offset⟩ := Int.eq_ofNat_of_zero_le (Int.sub_nonneg_of_le before)
  have current : m.rowStart + i = m.pointer := by omega
  have marked : m.caret = List.replicate (m.rowHead.length + (3 * i + 1)) ' ' ++ "^^".toList := by
    rw [caret, offset, Int.toNat_natCast, Nat.add_assoc, Nat.add_comm 1]
    rfl
  have digits : (m.row.drop (m.rowHead.length + (3 * i + 1))).take 2 =
      Text.upperByte (m.tape.read m.pointer) := by
    rw [row_eq, List.drop_length_add_append, ← current]
    refine take_drop_cells (fun text among => ?_) (m.getElem?_cells (by omega))
    obtain ⟨j, there⟩ := List.mem_iff_getElem?.mp among
    rw [eq_upperByte_of_cells there]
    rfl
  refine ⟨m.rowStart, m.cells, i, m.row, m.caret, _, m.isGreatest_rowStart, current, m.pieces_dump,
    m.row_eq, length_cells m, ?_, marked, rfl, ?_⟩
  · intro j text there
    rw [eq_upperByte_of_cells there]
    exact Text.upperByte_spells _
  · rw [digits]
    exact Text.upperByte_spells _

example : ({ Machine.start [] with pointer := -3 }.store 0xA7).dump =
    "instr: ...0, mem: ..-3\n" ++
    ".-10 | 00 00 00 00 00 00 00 00 00 00 00 00 00 A7 00 00\n" ++
    "                                              ^^" := by
  decide +kernel

end ByteTape.Machine
