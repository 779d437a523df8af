import ByteTape.Proofs.Machine.Feeding

/-! # Zeros behind the input

Where reading stores zero once the input is used up, the input might as well go on with
zeros for ever. Any number of zeros put behind it goes unnoticed, and as long as some of
them are left there is no need to ask what to do at the end.
-/

namespace ByteTape

/-- The same settings with another policy for the end of the input. -/
def Settings.heeding (s : Settings) (policy : EndOfInput) : Settings := { s with endOfInput := policy }

namespace Machine

variable {p : Program} {s : Settings} {m : Machine}

/-- The machine with `k` zeros behind its input. -/
def padded (m : Machine) (k : Nat) : Machine := m.feed (List.replicate k 0)

/-- The machine without the input it has not read. -/
def drained (m : Machine) : Machine := { m with input := [] }

theorem drained_padded (m : Machine) (k : Nat) : (m.padded k).drained = m.drained := rfl

theorem traced_padded (s : Settings) (i : Instr) (m : Machine) (k : Nat) :
    (m.padded k).traced s i = (m.traced s i).padded k := by
  unfold traced
  split <;> rfl

theorem traced_input (s : Settings) (i : Instr) (m : Machine) : (m.traced s i).input = m.input := by
  unfold traced
  split <;> rfl

theorem readInput_padded (p : Program) (m : Machine) (k : Nat) :
    ∃ j, (m.padded k).readInput p .zero =
      ((m.readInput p .zero).1.padded j, (m.readInput p .zero).2) := by
  obtain ⟨ip, pointer, tape, input, output, steps, notes⟩ := m
  cases input with
  | cons b rest => exact ⟨k, rfl⟩
  | nil =>
      cases k with
      | zero => exact ⟨0, rfl⟩
      | succ k =>
          refine ⟨k, ?_⟩
          simp only [padded, feed, readInput, store, next, List.replicate_succ, List.nil_append]

theorem jump_padded (p : Program) (target : Option Nat) (m : Machine) (k : Nat) :
    (m.padded k).jump p target = ((m.jump p target).1.padded k, (m.jump p target).2) := by
  cases target <;> rfl

theorem exec_padded (zero : s.endOfInput = .zero) (p : Program) (i : Instr) (m : Machine) (k : Nat) :
    ∃ j, (m.padded k).exec p s i = ((m.exec p s i).1.padded j, (m.exec p s i).2) := by
  have cell : (m.padded k).cell = m.cell := rfl
  unfold exec
  cases i.op with
  | right | left | increment | decrement | output => exact ⟨k, rfl⟩
  | input =>
      dsimp only
      rw [zero]
      exact readInput_padded p m k
  | loopOpen =>
      refine ⟨k, ?_⟩
      dsimp only
      rw [cell]
      split
      · exact jump_padded p i.target m k
      · rfl
  | loopClose =>
      refine ⟨k, ?_⟩
      dsimp only
      rw [cell]
      split
      · rfl
      · exact jump_padded p i.target m k
  | debug =>
      refine ⟨k, ?_⟩
      dsimp only
      split <;> rfl

namespace Tick

/-- What became of the machine, with `k` zeros behind its input. -/
def padded : Tick → Nat → Tick
  | stopped m o, k => stopped (m.padded k) o
  | went m, k => went (m.padded k)

/-- The machine as it was left. -/
def machine : Tick → Machine
  | stopped m _ | went m => m

end Tick

theorem tick_padded (zero : s.endOfInput = .zero) (p : Program) (m : Machine) (k : Nat) :
    ∃ j, (m.padded k).tick p s = (m.tick p s).padded j := by
  have spent : (m.padded k).spent s = m.spent s := rfl
  cases here : p.instrs[m.ip]? with
  | none =>
      have past : p.instrs[(m.padded k).ip]? = none := here
      rw [tick_halted here, tick_halted past]
      exact ⟨k, rfl⟩
  | some i =>
      have here' : p.instrs[(m.padded k).ip]? = some i := here
      cases free : m.spent s with
      | some limit =>
          rw [free] at spent
          simp only [tick, here, here', free, spent]
          exact ⟨k, rfl⟩
      | none =>
          rw [free] at spent
          obtain ⟨j, carried'⟩ := exec_padded zero p i (m.traced s i) k
          rw [← traced_padded] at carried'
          refine ⟨j, ?_⟩
          rcases carried : (m.traced s i).exec p s i with ⟨n, _ | f⟩
          · rw [carried] at carried'
            rw [tick_went here free carried, tick_went here' spent carried']
            rfl
          · rw [carried] at carried'
            rw [tick_fault here free carried, tick_fault here' spent carried']
            rfl

theorem run_padded (zero : s.endOfInput = .zero) (p : Program) (fuel : Nat) (m : Machine) (k : Nat) :
    ∃ j, (m.padded k).run p s fuel = ((m.run p s fuel).1.padded j, (m.run p s fuel).2) := by
  induction fuel generalizing m k with
  | zero => exact ⟨k, rfl⟩
  | succ fuel ih =>
      obtain ⟨j, ticked'⟩ := tick_padded zero p m k
      cases ticked : m.tick p s with
      | stopped n o =>
          rw [ticked] at ticked'
          exact ⟨j, by rw [run_stopped ticked, run_stopped ticked']⟩
      | went n =>
          rw [ticked] at ticked'
          obtain ⟨l, rest⟩ := ih n j
          exact ⟨l, by rw [run_went ticked, run_went ticked', rest]⟩

theorem exec_input (p : Program) (s : Settings) (i : Instr) (m : Machine) :
    (m.exec p s i).1.input <:+ m.input := by
  have jumped : (m.jump p i.target).1.input <:+ m.input := by
    cases i.target <;> exact List.suffix_refl _
  unfold exec
  cases i.op with
  | right | left | increment | decrement | output => exact List.suffix_refl _
  | input =>
      dsimp only
      unfold readInput
      split
      · next given =>
          rw [given]
          exact List.suffix_cons ..
      · cases s.endOfInput <;> exact List.suffix_refl _
  | loopOpen =>
      dsimp only
      split
      · exact jumped
      · exact List.suffix_refl _
  | loopClose =>
      dsimp only
      split
      · exact List.suffix_refl _
      · exact jumped
  | debug =>
      dsimp only
      split <;> exact List.suffix_refl _

theorem tick_input (p : Program) (s : Settings) (m : Machine) :
    (m.tick p s).machine.input <:+ m.input := by
  cases here : p.instrs[m.ip]? with
  | none =>
      rw [tick_halted here]
      exact List.suffix_refl _
  | some i =>
      cases free : m.spent s with
      | some limit =>
          simp only [tick, here, free]
          exact List.suffix_refl _
      | none =>
          have later := exec_input p s i (m.traced s i)
          rw [traced_input] at later
          rcases carried : (m.traced s i).exec p s i with ⟨n, _ | f⟩
          · rw [carried] at later
            rw [tick_went here free carried]
            exact later
          · rw [carried] at later
            rw [tick_fault here free carried]
            exact later

theorem run_input (p : Program) (s : Settings) (fuel : Nat) (m : Machine) :
    (m.run p s fuel).1.input <:+ m.input := by
  induction fuel generalizing m with
  | zero => exact List.suffix_refl _
  | succ fuel ih =>
      have later := tick_input p s m
      cases ticked : m.tick p s with
      | stopped n o =>
          rw [ticked] at later
          rw [run_stopped ticked]
          exact later
      | went n =>
          rw [ticked] at later
          rw [run_went ticked]
          exact (ih n).trans later

theorem tick_heeding (filled : m.input ≠ []) (policy : EndOfInput) :
    m.tick p (s.heeding policy) = m.tick p s := by
  have carried (i : Instr) : (m.traced s i).exec p (s.heeding policy) i = (m.traced s i).exec p s i := by
    obtain ⟨b, rest, given⟩ := List.exists_cons_of_ne_nil filled
    rw [← traced_input s i] at given
    unfold exec
    cases i.op with
    | input =>
        dsimp only
        unfold readInput
        rw [given]
    | right | left | increment | decrement | output | loopOpen | loopClose | debug => rfl
  have stepped (i : Instr) : m.step p (s.heeding policy) i = m.step p s i := by
    have same : m.traced (s.heeding policy) i = m.traced s i := rfl
    rw [step, step, ← traced, ← traced, same, carried]
  unfold tick
  simp only [stepped]
  rfl

theorem run_heeding {fuel : Nat} (left : (m.run p s fuel).1.input ≠ []) (policy : EndOfInput) :
    m.run p (s.heeding policy) fuel = m.run p s fuel := by
  induction fuel generalizing m with
  | zero => rfl
  | succ fuel ih =>
      have filled : m.input ≠ [] := by
        intro empty
        have none := run_input p s (fuel + 1) m
        rw [empty, List.suffix_nil] at none
        exact left none
      have same := tick_heeding (p := p) (s := s) filled policy
      cases ticked : m.tick p s with
      | stopped n o =>
          rw [ticked] at same
          rw [run_stopped ticked, run_stopped same]
      | went n =>
          rw [ticked] at same
          rw [run_went ticked] at left ⊢
          rw [run_went same, ih left]

/-- The end of the input is an endless stream of zeros. Where reading stores zero at the end of
the input, the runs on an input and on the same with zeros behind it both stop or neither does,
and they stop for the same reason and with the same machine but for the zeros that are left. If
something is left, the second run comes out the same whatever is to be done at the end. -/
theorem zeros_unnoticed (p : Program) (tracing : Bool) (budget : Option Int) (input : List UInt8)
    (k : Nat) :
    (∀ o seen, (∃ m, Ends p ⟨.zero, tracing, budget⟩ (.start input) m o ∧ m.drained = seen) ↔
      ∃ m, Ends p ⟨.zero, tracing, budget⟩ (.start (input ++ List.replicate k 0)) m o ∧
        m.drained = seen) ∧
    ∀ m o, Ends p ⟨.zero, tracing, budget⟩ (.start (input ++ List.replicate k 0)) m o → m.input ≠ [] →
      ∀ policy, Ends p ⟨policy, tracing, budget⟩ (.start (input ++ List.replicate k 0)) m o := by
  have alongside := fun fuel =>
    run_padded (s := ⟨.zero, tracing, budget⟩) rfl p fuel (.start input) k
  refine ⟨fun o seen => ⟨?_, ?_⟩, ?_⟩
  · rintro ⟨m, ⟨finished, fuel, run⟩, rfl⟩
    obtain ⟨j, run'⟩ := alongside fuel
    rw [run] at run'
    exact ⟨m.padded j, ⟨finished, fuel, run'⟩, drained_padded m j⟩
  · rintro ⟨m, ⟨finished, fuel, run'⟩, rfl⟩
    obtain ⟨j, same⟩ := alongside fuel
    rcases run : (Machine.start input).run p ⟨.zero, tracing, budget⟩ fuel with ⟨n, o'⟩
    rw [run] at same
    cases same.symm.trans run'
    exact ⟨n, ⟨finished, fuel, run⟩, (drained_padded n j).symm⟩
  · rintro m o ⟨finished, fuel, run⟩ left policy
    refine ⟨finished, fuel, ?_⟩
    have same := run_heeding (by rwa [run]) policy
    rw [run] at same
    exact same

/-- The byte three is put out, and the first of two zeros ends the loop: the other one is left, so
the program could as well have insisted on its input. -/
theorem zeros_unnoticed_echoing :
    (∃ m, Ends echoingProgram ⟨.zero, false, some 9⟩ (.start [3]) m .halted ∧
      m.output = #[3] ∧ m.tape.toList = [(0, 0)] ∧ m.pointer = 0 ∧ m.ip = 5 ∧ m.steps = 5) ∧
    ∃ m, Ends echoingProgram ⟨.zero, false, some 9⟩ (.start [3, 0, 0]) m .halted ∧ m.input = [0] ∧
      Ends echoingProgram ⟨.keep, false, some 9⟩ (.start [3, 0, 0]) m .halted ∧
      Ends echoingProgram ⟨.fault, false, some 9⟩ (.start [3, 0, 0]) m .halted := by
  obtain ⟨same, free⟩ := zeros_unnoticed echoingProgram false (some 9) [3] 2
  let final := ((Machine.start [3, 0, 0]).run echoingProgram ⟨.zero, false, some 9⟩ 9).1
  have halts : Ends echoingProgram ⟨.zero, false, some 9⟩ (.start [3, 0, 0]) final .halted :=
    ⟨by decide, 9, rfl⟩
  have left : final.input = [0] := rfl
  have filled : final.input ≠ [] := left ▸ List.cons_ne_nil _ _
  refine ⟨?_, final, halts, left, free final _ halts filled .keep, free final _ halts filled .fault⟩
  obtain ⟨m, ends, seen⟩ := (same .halted final.drained).mpr ⟨final, halts, rfl⟩
  refine ⟨m, ends, ?_, ?_, ?_, ?_, ?_⟩
  · exact congrArg Machine.output seen
  · exact (congrArg (·.tape.toList) seen :)
  · exact congrArg Machine.pointer seen
  · exact congrArg Machine.ip seen
  · exact congrArg Machine.steps seen

end Machine

end ByteTape
