import ByteTape.Proofs.Machine.Turns

/-! # Machines between runs

A machine can be run again and again, under other settings each time, and be fed in
between. Whatever happens to it, its index stays within the program, nothing about it
grows faster than its count of steps, and no byte of its input is lost or read twice.
-/

namespace ByteTape

namespace Memory

/-- What the memory has come to in `k` steps. -/
structure Within (k : Nat) (mem : Memory) : Prop where
  pointer : mem.pointer.natAbs ≤ k
  cells : mem.tape.size ≤ k
  output : mem.output.size ≤ k

variable {policy : EndOfInput} {a : Act} {mem mem' : Memory} {k : Nat}

theorem Within.later (h : mem.Within k) : mem.Within (k + 1) :=
  ⟨Nat.le_succ_of_le h.pointer, Nat.le_succ_of_le h.cells, Nat.le_succ_of_le h.output⟩

theorem Within.put (h : mem.Within k) (b : UInt8) : (mem.put b).Within (k + 1) :=
  ⟨Nat.le_succ_of_le h.pointer, Nat.le_trans (Tape.size_write_le ..) (Nat.succ_le_succ h.cells),
    Nat.le_succ_of_le h.output⟩

theorem Within.after (h : mem.Within k) (acted : mem.after policy a = some mem') :
    mem'.Within (k + 1) := by
  have bound := h.pointer
  cases a with
  | right | left =>
      cases acted
      refine ⟨?_, h.later.cells, h.later.output⟩
      dsimp only
      omega
  | increment | decrement =>
      cases acted
      exact h.put _
  | output =>
      cases acted
      refine ⟨h.later.pointer, h.later.cells, ?_⟩
      rw [Array.size_push]
      exact Nat.succ_le_succ h.output
  | debug =>
      cases acted
      exact h.later
  | input =>
      obtain ⟨pointer, tape, input, output⟩ := mem
      cases input with
      | cons b rest =>
          cases acted
          have stored := h.put b
          exact ⟨stored.pointer, stored.cells, stored.output⟩
      | nil =>
          cases policy with
          | zero =>
              cases acted
              exact h.put 0
          | keep =>
              cases acted
              exact h.later
          | fault => cases acted

theorem input_after (acted : mem.after policy a = some mem') :
    (if a = .input then mem.input.take 1 else []) ++ mem'.input = mem.input := by
  cases a with
  | right | left | increment | decrement | output | debug =>
      cases acted
      rfl
  | input =>
      obtain ⟨pointer, tape, input, output⟩ := mem
      cases input with
      | cons b rest =>
          cases acted
          rfl
      | nil => cases policy <;> cases acted <;> rfl

end Memory

namespace Machine

variable {p : Program} {s : Settings} {m m' : Machine} {given read : List UInt8}

/-- The byte that the next instruction takes from the input, if it takes one. -/
def takes (p : Program) (m : Machine) : List UInt8 :=
  if p.instrs[m.ip]?.map Instr.op = some .input then m.input.take 1 else []

/-- The bytes that a run takes from the input, in order. -/
def reads (p : Program) (s : Settings) (fuel : Nat) (m : Machine) : List UInt8 :=
  (m.trail p s fuel).flatMap (takes p)

/-- A machine that was started and then run and fed any number of times. `given` is all
that was put into its input, `read` all that its instructions have taken from there. A
run may stop by itself or be left after any number of instructions, so the machines in
the middle of a run are among these. -/
inductive Reached (p : Program) : (given read : List UInt8) → Machine → Prop where
  | start (input : List UInt8) : Reached p input [] (.start input)
  | feed (bytes : List UInt8) {given read : List UInt8} {m : Machine} (before : Reached p given read m) :
    Reached p (given ++ bytes) read (m.feed bytes)
  | run (s : Settings) (fuel : Nat) {given read : List UInt8} {m : Machine}
    (before : Reached p given read m) :
    Reached p given (read ++ m.reads p s fuel) (m.run p s fuel).1

/-- What is true of a machine at all times. -/
structure Sound (p : Program) (given read : List UInt8) (m : Machine) : Prop where
  inside : m.ip ≤ p.size
  within : m.memory.Within m.steps
  count : read.length ≤ m.steps
  input : read ++ m.memory.input = given

/-- What is true of a machine that a run has left with this outcome. -/
def Settled (p : Program) (m : Machine) : Outcome → Prop
  | .halted => m.ip = p.size
  | .fault (.brokenJump ..) => False
  | .fault (.budget ..) | .fault (.noInput ..) | .unfinished => True

theorem takes_of_ne_input {i : Instr} (here : p.instrs[m.ip]? = some i) (other : i.op ≠ .input) :
    m.takes p = [] := by
  rw [takes, here, Option.map_some, if_neg (by simpa using other)]

theorem takes_of_act {a : Act} (here : p.instrs[m.ip]? = some ⟨a.op, none⟩) :
    m.takes p = if a = .input then m.memory.input.take 1 else [] := by
  rw [takes, here]
  cases a <;> rfl

theorem Sound.start (p : Program) (input : List UInt8) : Sound p input [] (.start input) :=
  ⟨Nat.zero_le _, ⟨Nat.le_refl _, Nat.le_refl _, Nat.le_refl _⟩, Nat.le_refl _, rfl⟩

theorem Sound.feed (h : Sound p given read m) (bytes : List UInt8) :
    Sound p (given ++ bytes) read (m.feed bytes) := by
  refine ⟨h.inside, ⟨h.within.pointer, h.within.cells, h.within.output⟩, h.count, ?_⟩
  rw [← h.input, List.append_assoc]
  rfl

theorem Sound.tested (h : Sound p given read m) (paired : p.Paired) {i : Instr} {t : Nat}
    (here : p.instrs[m.ip]? = some i) (leads : i.target = some t)
    (ip : m'.ip = t + 1 ∨ m'.ip = m.ip + 1) (memory : m'.memory = m.memory)
    (steps : m'.steps = m.steps + 1) : Sound p given read m' := by
  refine ⟨?_, ?_, ?_, ?_⟩
  · rcases ip with jumped | passed
    · rw [jumped]
      exact (paired _ _ here).target_lt leads
    · rw [passed]
      exact Program.lt_size_of_getElem? here
  · rw [memory, steps]
    exact h.within.later
  · rw [steps]
    exact Nat.le_succ_of_le h.count
  · rw [memory]
    exact h.input

theorem Sound.went (h : Sound p given read m) (paired : p.Paired) (went : m.tick p s = .went m') :
    Sound p given (read ++ m.takes p) m' := by
  have turn := turn paired s m
  rw [went] at turn
  cases turn with
  | acted here memory ip steps =>
      have taken := Memory.input_after memory
      refine ⟨?_, ?_, ?_, ?_⟩
      · rw [ip]
        exact Program.lt_size_of_getElem? here
      · rw [steps]
        exact h.within.after memory
      · have one : (m.takes p).length ≤ 1 := by
          rw [takes]
          split
          · exact List.length_take_le ..
          · exact Nat.zero_le _
        have old := h.count
        rw [List.length_append, steps]
        omega
      · rw [takes_of_act here, List.append_assoc, taken]
        exact h.input
  | opened here memory ip steps =>
      rw [takes_of_ne_input here (by simp), List.append_nil]
      apply h.tested paired here rfl _ memory steps
      rw [ip]
      split
      · exact .inl rfl
      · exact .inr rfl
  | closed here memory ip steps =>
      rw [takes_of_ne_input here (by simp), List.append_nil]
      apply h.tested paired here rfl _ memory steps
      rw [ip]
      split
      · exact .inr rfl
      · exact .inl rfl

theorem Sound.stopped {outcome : Outcome} (h : Sound p given read m) (paired : p.Paired)
    (stop : m.tick p s = .stopped m' outcome) : Sound p given read m' ∧ Settled p m' outcome := by
  have turn := turn paired s m
  rw [stop] at turn
  cases turn with
  | halted past =>
      have outside : p.size ≤ m.ip := Array.getElem?_eq_none_iff.mp past
      exact ⟨h, Nat.le_antisymm h.inside outside⟩
  | spent => exact ⟨h, trivial⟩
  | starved =>
      refine ⟨⟨?_, ?_, ?_, ?_⟩, trivial⟩
      · rw [traced_ip]
        exact h.inside
      · rw [traced_memory, traced_steps]
        exact h.within
      · rw [traced_steps]
        exact h.count
      · rw [traced_memory]
        exact h.input

theorem Sound.run (paired : p.Paired) (s : Settings) (fuel : Nat) (h : Sound p given read m) :
    Sound p given (read ++ m.reads p s fuel) (m.run p s fuel).1 ∧
      Settled p (m.run p s fuel).1 (m.run p s fuel).2 := by
  induction fuel generalizing m read with
  | zero =>
      rw [reads, trail, List.flatMap_nil, List.append_nil]
      exact ⟨h, trivial⟩
  | succ fuel ih =>
      cases turn : m.tick p s with
      | stopped m' outcome =>
          rw [reads, trail_stopped turn, List.flatMap_nil, List.append_nil, run_stopped turn]
          exact h.stopped paired turn
      | went m' =>
          have rest := ih (h.went paired turn)
          rw [reads, trail_went turn, List.flatMap_cons, run_went turn, ← List.append_assoc]
          exact rest

theorem Reached.sound (paired : p.Paired) (h : Reached p given read m) : Sound p given read m := by
  induction h with
  | start input => exact .start p input
  | feed bytes _ ih => exact ih.feed bytes
  | run s fuel _ ih => exact (ih.run paired s fuel).1

/-- A machine of a linked program is well at all times: its index is within the program,
and at the end of it once a run halts; cells and output are bytes; the distance of the
pointer, the cells stored to, the bytes put out and the bytes read are no more than the
steps; what was read and what is still to be read are what was given, in order; and
there is a target wherever the machine could jump, so that no run misses one. -/
theorem Reached.invariant {ops : List Op} {origins : Option (Array (Option Place))}
    (linked : Program.ofOps ops origins = .ok p) (h : Reached p given read m) :
    m.ip ≤ p.size ∧
      (∀ s fuel, (m.run p s fuel).2 = .halted → (m.run p s fuel).1.ip = p.size) ∧
      (∀ entry ∈ m.tape.toList, entry.2.toNat ≤ 255) ∧
      (∀ b ∈ m.output, b.toNat ≤ 255) ∧
      m.pointer.natAbs ≤ m.steps ∧
      m.tape.size ≤ m.steps ∧
      m.output.size ≤ m.steps ∧
      read.length ≤ m.steps ∧
      read ++ m.input = given ∧
      (∀ i, p.instrs[m.ip]? = some i → i.op = .loopOpen ∨ i.op = .loopClose →
        ∃ t, i.target = some t ∧ t < p.size) ∧
      ∀ s fuel ip origin, (m.run p s fuel).2 ≠ .fault (.brokenJump ip origin) := by
  have paired := Program.paired_of_ofOps linked
  have sound := h.sound paired
  have settled := fun s fuel => (sound.run paired s fuel).2
  refine ⟨sound.inside, ?_, ?_, ?_, sound.within.pointer, sound.within.cells, sound.within.output,
    sound.count, sound.input, ?_, ?_⟩
  · intro s fuel halted
    have last := settled s fuel
    rwa [halted] at last
  · intro entry _
    exact Nat.le_of_lt_succ entry.2.toNat_lt
  · intro b _
    exact Nat.le_of_lt_succ b.toNat_lt
  · intro i here bracket
    have fits := paired _ _ here
    cases fits with
    | act a =>
        rcases bracket with opens | closes
        · exact absurd opens a.op_ne_loopOpen
        · exact absurd closes a.op_ne_loopClose
    | opening _ partner | closing _ partner => exact ⟨_, rfl, Program.lt_size_of_getElem? partner⟩
  · intro s fuel ip origin broken
    have last := settled s fuel
    rw [broken] at last
    exact last

/-- The program of the reading loop. -/
def readingProgram : Program :=
  ⟨#[⟨.increment, none⟩, ⟨.loopOpen, some 4⟩, ⟨.decrement, none⟩, ⟨.input, none⟩,
    ⟨.loopClose, some 1⟩], none⟩

/-- Its machine, stopped by the budget behind the first byte and then fed another one. -/
def interrupted : Machine :=
  ((Machine.start [7]).run readingProgram ⟨.fault, false, some 4⟩ 9).1.feed [0]

theorem Reached.invariant_interrupted :
    Program.ofOps readingLoop none = .ok readingProgram ∧
      Reached readingProgram [7, 0] [7] interrupted ∧ interrupted.steps = 4 ∧
      interrupted.ip ≤ 5 ∧ interrupted.tape.size ≤ 4 ∧ [7] ++ interrupted.input = [7, 0] ∧
      (interrupted.run readingProgram ⟨.fault, true, none⟩ 9).2 = .halted ∧
      (interrupted.run readingProgram ⟨.fault, true, none⟩ 9).1.ip = 5 := by
  have linked : Program.ofOps readingLoop none = .ok readingProgram := rfl
  have reached : Reached readingProgram [7, 0] [7] interrupted :=
    .feed [0] (.run ⟨.fault, false, some 4⟩ 9 (.start [7]))
  have halts : (interrupted.run readingProgram ⟨.fault, true, none⟩ 9).2 = .halted := rfl
  obtain ⟨inside, atEnd, -, -, -, cells, -, -, input, -, -⟩ := reached.invariant linked
  exact ⟨linked, reached, rfl, inside, cells, input, halts, atEnd _ _ halts⟩

end Machine

end ByteTape
