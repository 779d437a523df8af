import Mathlib.Algebra.BigOperators.Fin
import ByteTape.Proofs.Expansion.Origins
import ByteTape.Proofs.Machine.Passage

/-! # Strings on the tape

The code of a string clears one cell after the other and counts it up to a byte. Wherever
it stands in a program and whatever the cells held before, they hold the bytes of the
string afterwards, nothing else has changed but the pointer, which stands behind them, and
the number of steps is known.
-/

namespace ByteTape

namespace Memory

/-- The cell under the pointer holds the byte, and nothing else has changed. -/
structure Sets (mem : Memory) (b : UInt8) (mem' : Memory) : Prop where
  cell : mem'.cell = b
  others : ∀ j, j ≠ mem.pointer → mem'.tape.read j = mem.tape.read j
  pointer : mem'.pointer = mem.pointer
  input : mem'.input = mem.input
  output : mem'.output = mem.output

/-- From the pointer on the cells hold these bytes. The pointer has moved behind them, and
nothing else has changed. -/
structure Writes (mem : Memory) (bytes : List UInt8) (mem' : Memory) : Prop where
  cells : ∀ i : Fin bytes.length, mem'.tape.read (mem.pointer + i) = bytes.get i
  others : ∀ j, j < mem.pointer ∨ mem.pointer + bytes.length ≤ j →
    mem'.tape.read j = mem.tape.read j
  pointer : mem'.pointer = mem.pointer + bytes.length
  input : mem'.input = mem.input
  output : mem'.output = mem.output

/-- The number of steps that writing takes. For each byte there are two, to test the cell and to
leave it, two more for each time it is counted down and one for each time it is counted up. -/
def textSteps (mem : Memory) (bytes : List UInt8) : Nat :=
  ∑ i : Fin bytes.length, (2 + 2 * (mem.tape.read (mem.pointer + i)).toNat + (bytes.get i).toNat)

/-- The pointer moved to the next cell. -/
def right (mem : Memory) : Memory := { mem with pointer := mem.pointer + 1 }

variable {mem mem' mem'' : Memory} {b c : UInt8} {bytes : List UInt8}

theorem Sets.refl (mem : Memory) : mem.Sets mem.cell mem := ⟨rfl, fun _ _ => rfl, rfl, rfl, rfl⟩

theorem Sets.put (mem : Memory) (b : UInt8) : mem.Sets b (mem.put b) where
  cell := Tape.read_write_self ..
  others j other := by rw [Memory.put, Tape.read_write, if_neg other.symm]
  pointer := rfl
  input := rfl
  output := rfl

theorem Sets.trans (first : mem.Sets c mem') (second : mem'.Sets b mem'') : mem.Sets b mem'' where
  cell := second.cell
  others j other := by rw [second.others j (first.pointer ▸ other), first.others j other]
  pointer := second.pointer.trans first.pointer
  input := second.input.trans first.input
  output := second.output.trans first.output

theorem Writes.nil (mem : Memory) : mem.Writes [] mem :=
  ⟨nofun, fun _ _ => rfl, (Int.add_zero _).symm, rfl, rfl⟩

theorem Sets.right_pointer (first : mem.Sets b mem') : mem'.right.pointer = mem.pointer + 1 :=
  congrArg (· + 1) first.pointer

theorem Sets.writes (first : mem.Sets b mem') (rest : mem'.right.Writes bytes mem'') :
    mem.Writes (b :: bytes) mem'' := by
  have start := first.right_pointer
  have outside : ∀ j, j < mem.pointer + 1 ∨ mem.pointer + 1 + bytes.length ≤ j →
      mem''.tape.read j = mem'.tape.read j := by
    intro j outside
    exact rest.others j (start ▸ outside)
  refine ⟨?cells, ?others, ?pointer, rest.input.trans first.input, rest.output.trans first.output⟩
  case cells =>
    intro i
    cases i using Fin.cases with
    | zero =>
        have here : mem'.tape.read mem.pointer = b := first.pointer ▸ first.cell
        simpa using (outside mem.pointer (.inl (by omega))).trans here
    | succ i =>
        have there := rest.cells i
        rw [start, Int.add_assoc, Int.add_comm 1] at there
        simpa using there
  case others =>
    intro j apart
    rw [List.length_cons] at apart
    rw [outside j (by omega), first.others j (by omega)]
  case pointer =>
    rw [rest.pointer, start, List.length_cons]
    omega

theorem textSteps_cons (first : mem.Sets b mem') :
    mem.textSteps (b :: bytes) = 2 + 2 * mem.cell.toNat + b.toNat + mem'.right.textSteps bytes := by
  have tail : ∀ i : Fin bytes.length,
      mem.tape.read (mem.pointer + i.succ) = mem'.right.tape.read (mem'.right.pointer + i) := by
    intro i
    have same := first.others (mem.pointer + i.succ) (by simp only [Fin.val_succ]; omega)
    rw [first.right_pointer, Int.add_assoc, Int.add_comm 1]
    exact same.symm
  refine (Fin.sum_univ_succ (n := bytes.length) _).trans ?_
  simp only [tail]
  simp [textSteps, cell]

end Memory

namespace Block

open Memory (Sets)

theorem exists_cleared (policy : EndOfInput) (mem : Memory) :
    ∃ mem', Laps policy (.act .decrement .done) mem (2 * mem.cell.toNat) (.finished mem') ∧
      mem.Sets 0 mem' := by
  induction held : mem.cell.toNat generalizing mem with
  | zero =>
      have zero : mem.cell = 0 := UInt8.toNat_inj.mp held
      exact ⟨mem, .stop zero, zero ▸ .refl mem⟩
  | succ n ih =>
      have nonzero : mem.cell ≠ 0 := by
        intro zero
        rw [zero] at held
        cases held
      have positive : 1 ≤ mem.cell := by
        rw [UInt8.le_iff_toNat_le, held]
        exact Nat.succ_le_succ (Nat.zero_le n)
      have less : (mem.put (mem.cell - 1)).cell.toNat = n := by
        rw [(Sets.put mem _).cell, UInt8.toNat_sub_of_le _ _ positive, held]
        rfl
      obtain ⟨mem', again, sets⟩ := ih (mem.put (mem.cell - 1)) less
      have count : 2 * (n + 1) = 1 + 0 + 1 + 2 * n := by omega
      exact ⟨mem', count ▸ .lap nonzero (.act rfl .done) again, (Sets.put mem _).trans sets⟩

theorem exists_counted (policy : EndOfInput) (n : Nat) (mem : Memory) :
    ∃ mem', mem.Sets (mem.cell + UInt8.ofNat n) mem' ∧ ∀ {rest : Block} {k : Nat} {e : Ending},
      Runs policy rest mem' k e → Runs policy (repeated .increment n rest) mem (n + k) e := by
  induction n generalizing mem with
  | zero => exact ⟨mem, by simpa using Sets.refl mem, fun runs => by rwa [Nat.zero_add]⟩
  | succ n ih =>
      obtain ⟨mem', sets, further⟩ := ih (mem.put (mem.cell + 1))
      have sum : (mem.put (mem.cell + 1)).cell + UInt8.ofNat n = mem.cell + UInt8.ofNat (n + 1) := by
        rw [(Sets.put mem _).cell, UInt8.add_assoc, UInt8.ofNat_add, UInt8.add_comm 1]
        rfl
      refine ⟨mem', sum ▸ (Sets.put mem _).trans sets, fun {rest k e} runs => ?_⟩
      have count : n + 1 + k = 1 + (n + k) := by omega
      rw [count]
      exact .act rfl (further runs)

theorem runs_ofText (policy : EndOfInput) (bytes : List UInt8) (mem : Memory) :
    ∃ mem', Runs policy (ofText bytes) mem (mem.textSteps bytes) (.finished mem') ∧
      mem.Writes bytes mem' := by
  induction bytes generalizing mem with
  | nil => exact ⟨mem, .done, .nil mem⟩
  | cons b bytes ih =>
      obtain ⟨cleared, laps, clears⟩ := exists_cleared policy mem
      obtain ⟨counted, counts, further⟩ := exists_counted policy b.toNat cleared
      obtain ⟨mem', runs, writes⟩ := ih counted.right
      have sets : mem.Sets b counted := by
        have sets := clears.trans counts
        rwa [clears.cell, UInt8.ofNat_toNat, UInt8.zero_add] at sets
      refine ⟨mem', ?_, sets.writes writes⟩
      have count : mem.textSteps (b :: bytes) =
          1 + 2 * mem.cell.toNat + (b.toNat + (1 + counted.right.textSteps bytes)) := by
        rw [Memory.textSteps_cons sets]
        omega
      rw [count]
      exact .loop laps (further (.act rfl runs))

end Block

/-- Wherever the code of a string stands in a program, a machine that comes to it writes the
string in the known number of steps, and does not leave the code before. -/
theorem Machine.text_written {pre post : List Op}
    (balanced : Balanced .loopOpen .loopClose (pre ++ post)) (data : List UInt8)
    (origins : Option (Array (Option Place))) :
    ∃ p, Program.ofOps (pre ++ textOps data ++ post) origins = .ok p ∧
      ∀ (s : Settings) (m : Machine), s.budget = none → m.ip = pre.length →
        ∃ m', Steps p s (m.memory.textSteps data) m m' ∧ m'.ip = pre.length + (textOps data).length ∧
          m.memory.Writes data m'.memory ∧
          ∀ k m₁, k < m.memory.textSteps data → Steps p s k m m₁ →
            m₁.ip < pre.length + (textOps data).length := by
  obtain ⟨c, whole⟩ := Block.balanced_iff.mp balanced
  obtain ⟨d, spelled, inside⟩ := (Block.ofText data).exists_inserted whole
  rw [Block.ops_ofText] at spelled
  refine ⟨_, spelled ▸ d.ofOps_ops origins, fun s m free start => ?_⟩
  have sits : Block.Sits ⟨(d.instrs 0).toArray, origins⟩ m.ip (.ofText data) := by
    have sits := inside (d.sits_program origins)
    rwa [Nat.zero_add, ← start] at sits
  obtain ⟨mem, runs, writes⟩ := Block.runs_ofText s.endOfInput data m.memory
  obtain ⟨m', steps, atEnd, rfl, within⟩ := runs.passed free sits
  rw [start, Block.length, Block.ops_ofText] at atEnd within
  exact ⟨m', steps, atEnd, writes, within⟩

/-- A machine that has counted a cell left of the origin up to two and is in a loop. -/
def Machine.counting : Machine := ⟨4, -1, (Tape.blank.write (-1) 1).write (-1) 2, [7], #[], 4, #[]⟩

theorem Machine.text_written_counting :
    ∃ p m', Program.ofOps ([.left, .increment, .increment, .loopOpen] ++ textOps [1, 0] ++
        [.right, .loopClose]) none = .ok p ∧
      Steps p ⟨.zero, false, none⟩ 4 (.start [7]) counting ∧
      Steps p ⟨.zero, false, none⟩ 9 counting m' ∧ m'.ip = 13 ∧ m'.pointer = 1 ∧
      m'.tape.read (-1) = 1 ∧ m'.tape.read 0 = 0 ∧ m'.input = [7] := by
  have balanced : Balanced .loopOpen .loopClose ([Op.left, .increment, .increment, .loopOpen] ++
      [.right, .loopClose]) := by decide
  obtain ⟨p, linked, written⟩ := text_written balanced [1, 0] none
  obtain ⟨m', steps, atEnd, writes, -⟩ := written ⟨.zero, false, none⟩ counting rfl rfl
  have count : counting.memory.textSteps [1, 0] = 9 := by decide
  rw [count] at steps
  refine ⟨p, m', linked, ?_, steps, atEnd, writes.pointer, writes.cells 0, writes.cells 1, writes.input⟩
  cases linked
  exact .next rfl (.next rfl (.next rfl (.next rfl (.refl _))))

end ByteTape
