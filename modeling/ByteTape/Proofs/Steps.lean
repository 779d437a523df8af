import ByteTape.Machine.Run

/-! # Runs, step by step

A run with fuel, seen without its fuel: `Steps` counts the instructions that were
carried out between two machines, and `Ends` says how a machine stops when it is
given fuel enough. A machine stops in at most one way.
-/

namespace ByteTape.Machine

variable {p : Program} {s : Settings}

/-- From one machine to another by carrying out `k` instructions. -/
inductive Steps (p : Program) (s : Settings) : (k : Nat) → Machine → Machine → Prop where
  | refl (m : Machine) : Steps p s 0 m m
  | next {k : Nat} {m m' m'' : Machine} (went : m.tick p s = .went m')
      (rest : Steps p s k m' m'') : Steps p s (k + 1) m m''

/-- The machine stops of its own accord, and this is what is left of it. -/
def Ends (p : Program) (s : Settings) (m m' : Machine) (outcome : Outcome) : Prop :=
  outcome ≠ .unfinished ∧ ∃ fuel, m.run p s fuel = (m', outcome)

theorem Steps.one {m m' : Machine} (went : m.tick p s = .went m') : Steps p s 1 m m' :=
  .next went (.refl m')

theorem Steps.trans {k l : Nat} {m m' m'' : Machine} (first : Steps p s k m m')
    (second : Steps p s l m' m'') : Steps p s (k + l) m m'' := by
  induction first with
  | refl => rwa [Nat.zero_add]
  | @next k _ _ _ went _ ih =>
      rw [show k + 1 + l = k + l + 1 by omega]
      exact .next went (ih second)

theorem run_stopped {m m' : Machine} {outcome : Outcome} (stop : m.tick p s = .stopped m' outcome)
    (fuel : Nat) : m.run p s (fuel + 1) = (m', outcome) := by
  rw [run, stop]

theorem run_went {m m' : Machine} (went : m.tick p s = .went m') (fuel : Nat) :
    m.run p s (fuel + 1) = m'.run p s fuel := by
  rw [run, went]

theorem Steps.run {k : Nat} {m m' : Machine} (steps : Steps p s k m m') (fuel : Nat) :
    m.run p s (k + fuel) = m'.run p s fuel := by
  induction steps with
  | refl => rw [Nat.zero_add]
  | @next k _ _ _ went _ ih => rw [show k + 1 + fuel = k + fuel + 1 by omega, run_went went, ih]

/-- A run that stops has enough fuel for everything on the way. -/
theorem Steps.lt_of_finished {k fuel : Nat} {m m' : Machine} (steps : Steps p s k m m')
    (finished : (m.run p s fuel).2 ≠ .unfinished) : k < fuel := by
  induction steps generalizing fuel with
  | refl =>
      cases fuel with
      | zero => exact absurd rfl finished
      | succ fuel => exact Nat.succ_pos fuel
  | next went _ ih =>
      cases fuel with
      | zero => exact absurd rfl finished
      | succ fuel =>
          rw [run_went went] at finished
          exact Nat.succ_lt_succ (ih finished)

theorem run_more {fuel : Nat} {m m' : Machine} {outcome : Outcome}
    (h : m.run p s fuel = (m', outcome)) (finished : outcome ≠ .unfinished) (more : Nat) :
    m.run p s (fuel + more) = (m', outcome) := by
  induction fuel generalizing m with
  | zero =>
      cases h
      exact absurd rfl finished
  | succ fuel ih =>
      rw [show fuel + 1 + more = fuel + more + 1 by omega]
      cases turn : m.tick p s with
      | stopped =>
          rw [run_stopped turn] at h ⊢
          exact h
      | went =>
          rw [run_went turn] at h ⊢
          exact ih h

namespace Ends

theorem unique {m a b : Machine} {o o' : Outcome} (left : Ends p s m a o)
    (right : Ends p s m b o') : a = b ∧ o = o' := by
  obtain ⟨finished, fuel, h⟩ := left
  obtain ⟨finished', fuel', h'⟩ := right
  have more := run_more h finished fuel'
  rw [Nat.add_comm, run_more h' finished' fuel] at more
  exact ⟨(congrArg Prod.fst more).symm, (congrArg Prod.snd more).symm⟩

theorem of_stopped {m m' : Machine} {outcome : Outcome} (finished : outcome ≠ .unfinished)
    (stop : m.tick p s = .stopped m' outcome) : Ends p s m m' outcome :=
  ⟨finished, 1, run_stopped stop 0⟩

theorem of_steps {k : Nat} {m m' m'' : Machine} {outcome : Outcome} (steps : Steps p s k m m')
    (rest : Ends p s m' m'' outcome) : Ends p s m m'' outcome := by
  obtain ⟨finished, fuel, h⟩ := rest
  exact ⟨finished, k + fuel, (steps.run fuel).trans h⟩

/-- A run that stops carries out instructions, and then there is none to carry out. -/
theorem exists_steps {m m' : Machine} {outcome : Outcome} (ends : Ends p s m m' outcome) :
    ∃ k m₀, Steps p s k m m₀ ∧ m₀.tick p s = .stopped m' outcome := by
  obtain ⟨finished, fuel, h⟩ := ends
  induction fuel generalizing m with
  | zero =>
      cases h
      exact absurd rfl finished
  | succ fuel ih =>
      cases turn : m.tick p s with
      | stopped =>
          rw [run_stopped turn] at h
          cases h
          exact ⟨0, m, .refl m, turn⟩
      | went =>
          rw [run_went turn] at h
          obtain ⟨k, m₀, steps, stop⟩ := ih h
          exact ⟨k + 1, m₀, .next turn steps, stop⟩

end Ends

theorem Steps.ends_iff {k : Nat} {m m' m'' : Machine} {outcome : Outcome} (steps : Steps p s k m m') :
    Ends p s m' m'' outcome ↔ Ends p s m m'' outcome := by
  constructor
  · exact Ends.of_steps steps
  · rintro ⟨finished, fuel, h⟩
    have enough : k < fuel := steps.lt_of_finished (by rwa [h])
    refine ⟨finished, fuel - k, ?_⟩
    rw [← steps.run, Nat.add_sub_cancel' (Nat.le_of_lt enough), h]

theorem jump_steps (target : Option Nat) (m : Machine) : (m.jump p target).1.steps = m.steps := by
  cases target <;> rfl

theorem readInput_steps (policy : EndOfInput) (m : Machine) :
    (m.readInput p policy).1.steps = m.steps := by
  unfold readInput
  split
  · rfl
  · cases policy <;> rfl

theorem exec_steps (i : Instr) (m : Machine) : (m.exec p s i).1.steps = m.steps := by
  unfold exec
  cases i.op with
  | right | left | increment | decrement | output => rfl
  | input => exact readInput_steps s.endOfInput m
  | loopOpen | loopClose => dsimp only; split <;> first | rfl | exact jump_steps i.target m
  | debug => dsimp only; split <;> rfl

/-- A machine that has written about the instruction it is going to carry out, if
it writes about instructions at all. -/
def traced (s : Settings) (i : Instr) (m : Machine) : Machine :=
  if s.tracing then m.note (m.traceLine i.op) else m

@[simp]
theorem traced_ip (i : Instr) (m : Machine) : (m.traced s i).ip = m.ip := by
  unfold traced; split <;> rfl

@[simp]
theorem traced_steps (i : Instr) (m : Machine) : (m.traced s i).steps = m.steps := by
  unfold traced; split <;> rfl

theorem tick_halted {m : Machine} (past : p.instrs[m.ip]? = none) :
    m.tick p s = .stopped m .halted := by
  rw [tick, past]

theorem tick_went {i : Instr} {m m' : Machine} (here : p.instrs[m.ip]? = some i)
    (free : m.spent s = none) (carried : (m.traced s i).exec p s i = (m', none)) :
    m.tick p s = .went { m' with steps := m.steps + 1 } := by
  have count : m'.steps = m.steps := by
    simpa only [carried, traced_steps] using exec_steps (p := p) (s := s) i (m.traced s i)
  have stepped : m.step p s i = ({ m' with steps := m'.steps + 1 }, none) := by
    rw [step, ← traced, carried]
  simp only [tick, here, free, stepped, count]

theorem tick_fault {i : Instr} {m m' : Machine} {f : Fault} (here : p.instrs[m.ip]? = some i)
    (free : m.spent s = none) (carried : (m.traced s i).exec p s i = (m', some f)) :
    m.tick p s = .stopped m' (.fault f) := by
  have stepped : m.step p s i = (m', some f) := by
    rw [step, ← traced, carried]
  simp only [tick, here, free, stepped]

theorem exec_of_went {m m' : Machine} (went : m.tick p s = .went m') :
    ∃ i m₀, p.instrs[m.ip]? = some i ∧ m.spent s = none ∧ (m.traced s i).exec p s i = (m₀, none) ∧
      m' = { m₀ with steps := m.steps + 1 } := by
  cases here : p.instrs[m.ip]? with
  | none =>
      rw [tick_halted here] at went
      cases went
  | some i =>
      cases free : m.spent s with
      | some limit => simp only [tick, here, free, reduceCtorEq] at went
      | none =>
          rcases carried : (m.traced s i).exec p s i with ⟨m₀, _ | f⟩
          · rw [tick_went here free carried] at went
            cases went
            exact ⟨i, m₀, rfl, rfl, carried, rfl⟩
          · rw [tick_fault here free carried] at went
            cases went

theorem steps_of_went {m m' : Machine} (went : m.tick p s = .went m') : m'.steps = m.steps + 1 := by
  obtain ⟨_, _, -, -, -, rfl⟩ := exec_of_went went
  rfl

theorem Steps.count {k : Nat} {m m' : Machine} (steps : Steps p s k m m') :
    m'.steps = m.steps + k := by
  induction steps with
  | refl => rfl
  | next went _ ih => rw [ih, steps_of_went went]; omega

theorem spent_unlimited (free : s.budget = none) (m : Machine) : m.spent s = none := by
  rw [spent, free, Option.filter_none]

end ByteTape.Machine
