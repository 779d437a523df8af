import ByteTape.Proofs.Machine.Invariant

/-! # Programs with other origins

A program knows where its instructions come from, and a machine that carries them out never
looks there: only the place that a fault names comes from the origins.
-/

namespace ByteTape

/-- The fault, as a program blames it that has the same instructions. -/
def Fault.blamedBy (q : Program) : Fault → Fault
  | budget limit ip _ => budget limit ip (q.origin ip)
  | noInput ip _ => noInput ip (q.origin ip)
  | brokenJump ip _ => brokenJump ip (q.origin ip)

def Outcome.blamedBy (q : Program) : Outcome → Outcome
  | halted => halted
  | fault f => fault (f.blamedBy q)
  | unfinished => unfinished

namespace Machine

variable {p q : Program} {s : Settings}

theorem jump_blamedBy (q : Program) (target : Option Nat) (m : Machine) :
    m.jump q target = ((m.jump p target).1, (m.jump p target).2.map (Fault.blamedBy q)) := by
  cases target <;> rfl

theorem readInput_blamedBy (q : Program) (policy : EndOfInput) (m : Machine) :
    m.readInput q policy =
      ((m.readInput p policy).1, (m.readInput p policy).2.map (Fault.blamedBy q)) := by
  unfold readInput
  split
  · rfl
  · cases policy <;> rfl

theorem exec_blamedBy (q : Program) (i : Instr) (m : Machine) :
    m.exec q s i = ((m.exec p s i).1, (m.exec p s i).2.map (Fault.blamedBy q)) := by
  unfold exec
  cases i.op with
  | right | left | increment | decrement | output | debug => rfl
  | input => exact readInput_blamedBy q s.endOfInput m
  | loopOpen =>
      dsimp only
      split
      · exact jump_blamedBy q i.target m
      · rfl
  | loopClose =>
      dsimp only
      split
      · rfl
      · exact jump_blamedBy q i.target m

theorem step_blamedBy (q : Program) (i : Instr) (m : Machine) :
    m.step q s i = ((m.step p s i).1, (m.step p s i).2.map (Fault.blamedBy q)) := by
  unfold step
  rw [exec_blamedBy (p := p) q]
  rcases (Machine.exec p s i _) with ⟨m', _ | f⟩ <;> rfl

/-- A run is the same for a program that has the same instructions from elsewhere, up to the
place that a fault names. -/
theorem run_blamedBy (same : q.instrs = p.instrs) (fuel : Nat) (m : Machine) :
    m.run q s fuel = ((m.run p s fuel).1, (m.run p s fuel).2.blamedBy q) := by
  induction fuel generalizing m with
  | zero => rfl
  | succ fuel ih =>
      cases here : p.instrs[m.ip]? with
      | none =>
          have past : q.instrs[m.ip]? = none := by rw [same, here]
          rw [run_stopped (tick_halted here), run_stopped (tick_halted past)]
          rfl
      | some i =>
          have there : q.instrs[m.ip]? = some i := by rw [same, here]
          cases used : m.spent s with
          | some limit =>
              simp only [run, tick, here, there, used]
              rfl
          | none =>
              have stepped := step_blamedBy (p := p) (s := s) q i m
              rcases taken : m.step p s i with ⟨m', _ | f⟩
              · rw [taken] at stepped
                simp only [run, tick, here, there, used, stepped, taken, Option.map_none, ih]
              · rw [taken] at stepped
                simp only [run, tick, here, there, used, stepped, taken, Option.map_some]
                rfl

theorem fault_of_run (paired : p.Paired) {input : List UInt8} {fuel : Nat} {m : Machine} {f : Fault}
    (faulted : (Machine.start input).run p s fuel = (m, .fault f)) :
    (∃ limit ip origin, f = .budget limit ip origin) ∨ ∃ ip origin, f = .noInput ip origin := by
  have settled := ((Sound.start p input).run paired s fuel).2
  rw [faulted] at settled
  cases f with
  | budget limit ip origin => exact .inl ⟨limit, ip, origin, rfl⟩
  | noInput ip origin => exact .inr ⟨ip, origin, rfl⟩
  | brokenJump => exact settled.elim

end Machine

end ByteTape
