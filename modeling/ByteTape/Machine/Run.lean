import ByteTape.Machine.Basic

/-! # Running

One instruction at a time: `Machine.exec` carries out an instruction,
`Machine.tick` adds the budget and the trace, and `Machine.run` repeats it.
A run that is cut short by its fuel is told apart from one that ends.
-/

namespace ByteTape

/-- Why a machine gave up before the end of its program. -/
inductive Fault where
  /-- The budget was used up in front of the instruction at `ip`. -/
  | budget (limit : Int) (ip : Nat) (origin : Place)
  /-- The instruction at `ip` asked for input and there was none. -/
  | noInput (ip : Nat) (origin : Place)
  /-- The bracket at `ip` has no partner; matched programs have no such bracket. -/
  | brokenJump (ip : Nat) (origin : Place)
deriving DecidableEq

namespace Fault

def message : Fault → String
  | budget limit ip _ => s!"Instruction budget of {limit} steps exhausted at instruction {ip}"
  | noInput ip origin => s!"Input exhausted at instruction {ip} ({origin.render})"
  | brokenJump ip origin => s!"Missing jump target at instruction {ip} ({origin.render})"

def place : Fault → Place
  | budget _ _ origin | noInput _ origin | brokenJump _ origin => origin

def report (f : Fault) : Report := ⟨.fault, f.message, some f.place⟩

end Fault

/-- How a run ended. -/
inductive Outcome where
  /-- The machine came to the end of its program. -/
  | halted
  | fault (f : Fault)
  /-- The fuel did not suffice to tell. -/
  | unfinished
deriving DecidableEq

namespace Machine

/-- Go on behind the partner of a bracket. -/
def jump (p : Program) (target : Option Nat) (m : Machine) : Machine × Option Fault :=
  match target with
  | some i => ({ m with ip := i + 1 }, none)
  | none => (m, some (.brokenJump m.ip (p.origin m.ip)))

/-- Read one byte. A fault leaves the machine as it was. -/
def readInput (p : Program) (policy : EndOfInput) (m : Machine) : Machine × Option Fault :=
  match m.input with
  | b :: rest => ({ (m.store b).next with input := rest }, none)
  | [] =>
    match policy with
    | .zero => ((m.store 0).next, none)
    | .keep => (m.next, none)
    | .fault => (m, some (.noInput m.ip (p.origin m.ip)))

/-- Carry out one instruction, without counting it. -/
def exec (p : Program) (s : Settings) (i : Instr) (m : Machine) : Machine × Option Fault :=
  match i.op with
  | .right => ({ m.next with pointer := m.pointer + 1 }, none)
  | .left => ({ m.next with pointer := m.pointer - 1 }, none)
  | .increment => ((m.store (m.cell + 1)).next, none)
  | .decrement => ((m.store (m.cell - 1)).next, none)
  | .output => ({ m.next with output := m.output.push m.cell }, none)
  | .input => m.readInput p s.endOfInput
  | .loopOpen => if m.cell = 0 then m.jump p i.target else (m.next, none)
  | .loopClose => if m.cell = 0 then (m.next, none) else m.jump p i.target
  | .debug => (if s.tracing then m.next else (m.note m.dump).next, none)

/-- Carry out one instruction: trace it, do it, count it. An instruction that
faults is traced and not counted. -/
def step (p : Program) (s : Settings) (i : Instr) (m : Machine) : Machine × Option Fault :=
  match (if s.tracing then m.note (m.traceLine i.op) else m).exec p s i with
  | (m, none) => ({ m with steps := m.steps + 1 }, none)
  | (m, some f) => (m, some f)

/-- The budget forbids another step. -/
def spent (s : Settings) (m : Machine) : Option Int :=
  s.budget.filter fun limit => decide (limit ≤ m.steps)

/-- What became of a machine that was given the chance of one step. -/
inductive Tick where
  | stopped (m : Machine) (outcome : Outcome)
  | went (m : Machine)

/-- Carry out the next instruction, if there is one and the budget allows it. -/
def tick (p : Program) (s : Settings) (m : Machine) : Tick :=
  match p.instrs[m.ip]? with
  | none => .stopped m .halted
  | some i =>
    match m.spent s with
    | some limit => .stopped m (.fault (.budget limit m.ip (p.origin m.ip)))
    | none =>
      match m.step p s i with
      | (m, none) => .went m
      | (m, some f) => .stopped m (.fault f)

/-- Carry out instructions until the program ends, a fault stops it, or `fuel`
instructions have been carried out. -/
def run (p : Program) (s : Settings) : (fuel : Nat) → Machine → Machine × Outcome
  | 0, m => (m, .unfinished)
  | fuel + 1, m =>
    match m.tick p s with
    | .stopped m outcome => (m, outcome)
    | .went m => run p s fuel m

/-- The notes of a machine as text, each ended by a line feed. -/
def diagnostics (m : Machine) : String :=
  m.notes.foldl (fun text note => text ++ note ++ "\n") ""

/-- A short description of a finished run. -/
def summary (m : Machine) : String :=
  s!"<MachineResult {m.output.size} bytes, {m.steps} steps>"

end Machine

end ByteTape
