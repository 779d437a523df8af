import ByteTape.Proofs.Machine.Turns

/-! # Tracing

A machine that traces writes a line before each of its instructions; one that does not
shows its cells at each debug marker. Nothing else depends on it: the two go through the
same machines, but for what these have written, and stop for the same reason.
-/

namespace ByteTape

/-- The settings differ in nothing but the tracing. -/
structure Settings.Alike (s s' : Settings) : Prop where
  endOfInput : s'.endOfInput = s.endOfInput
  budget : s'.budget = s.budget

namespace Machine

variable {p : Program} {s s' : Settings} {m m' n : Machine} {i : Instr} {o : Outcome}

/-- The machine without what it wrote about itself. -/
def silent (m : Machine) : Machine := { m with notes := #[] }

/-- Two machines fare alike when they are given the chance of one step. -/
inductive Tick.Alike : Tick → Tick → Prop where
  | stopped {n n' : Machine} (same : n'.silent = n.silent) (o : Outcome) :
    Alike (.stopped n o) (.stopped n' o)
  | went {n n' : Machine} (same : n'.silent = n.silent) : Alike (.went n) (.went n')

end Machine

end ByteTape
