import ByteTape.Proofs.Structured

/-! # Turns

What a machine can do when it is given the chance of one step, on a program whose
brackets are matched. Facts about whole runs are proved from this list of cases and
by induction on the fuel, without opening the step function again.
-/

namespace ByteTape

namespace Program

/-- The instruction may stand at index `i`: a bracket leads to a bracket of the other
kind that leads back, and nothing else leads anywhere. -/
inductive Fits (p : Program) (i : Nat) : Instr → Prop where
  | act (a : Act) : Fits p i ⟨a.op, none⟩
  | opening {t : Nat} (later : i < t) (partner : p.instrs[t]? = some ⟨.loopClose, some i⟩) :
    Fits p i ⟨.loopOpen, some t⟩
  | closing {t : Nat} (earlier : t < i) (partner : p.instrs[t]? = some ⟨.loopOpen, some i⟩) :
    Fits p i ⟨.loopClose, some t⟩

def Paired (p : Program) : Prop := ∀ i x, p.instrs[i]? = some x → p.Fits i x

theorem lt_size_of_getElem? {p : Program} {i : Nat} {x : Instr} (here : p.instrs[i]? = some x) :
    i < p.size :=
  (Array.getElem?_eq_some_iff.mp here).1

theorem Fits.target_lt {p : Program} {i t : Nat} {x : Instr} (h : p.Fits i x)
    (leads : x.target = some t) : t < p.size := by
  cases h with
  | act => cases leads
  | opening _ partner | closing _ partner =>
      cases leads
      exact lt_size_of_getElem? partner

end Program

namespace Block

theorem Sits.fits {p : Program} {b : Block} {i : Nat} (sits : Sits p i b) {j : Nat} (lower : i ≤ j)
    (upper : j < i + b.length) : ∃ x, p.instrs[j]? = some x ∧ p.Fits j x := by
  induction b generalizing i with
  | done =>
      rw [length_done] at upper
      omega
  | act a rest ih =>
      obtain ⟨here, behind⟩ := sits.act
      rw [length_act] at upper
      rcases Nat.eq_or_lt_of_le lower with rfl | later
      · exact ⟨_, here, .act a⟩
      · exact ih behind later (by omega)
  | loop body rest ihBody ihRest =>
      obtain ⟨opening, inside, closing, behind⟩ := sits.loop
      rw [length_loop] at upper
      rcases Nat.eq_or_lt_of_le lower with rfl | later
      · exact ⟨_, opening, .opening (by omega) closing⟩
      · rcases Nat.lt_trichotomy j (i + 1 + body.length) with before | rfl | after
        · exact ihBody inside later before
        · exact ⟨_, closing, .closing (by omega) opening⟩
        · exact ihRest behind after (by omega)

end Block

theorem Program.paired_of_ofOps {ops : List Op} {origins : Option (Array (Option Place))} {p : Program}
    (linked : Program.ofOps ops origins = .ok p) : p.Paired := by
  intro i x here
  obtain ⟨b, -, rfl⟩ := Block.exists_of_ofOps linked
  have inside : i < 0 + b.length := by simpa [Program.size] using lt_size_of_getElem? here
  obtain ⟨y, there, fits⟩ := (b.sits_program origins).fits (Nat.zero_le i) inside
  cases here.symm.trans there
  exact fits

namespace Machine

variable {p : Program} {s : Settings} {m : Machine}

/-- What the chance of a step can bring about. -/
inductive Turn (p : Program) (s : Settings) (m : Machine) : Tick → Prop where
  | halted (past : p.instrs[m.ip]? = none) : Turn p s m (.stopped m .halted)
  | spent {i : Instr} {limit : Int} (here : p.instrs[m.ip]? = some i)
    (used : m.spent s = some limit) :
    Turn p s m (.stopped m (.fault (.budget limit m.ip (p.origin m.ip))))
  | acted {a : Act} {m' : Machine} (here : p.instrs[m.ip]? = some ⟨a.op, none⟩)
    (memory : m.memory.after s.endOfInput a = some m'.memory) (ip : m'.ip = m.ip + 1)
    (steps : m'.steps = m.steps + 1) : Turn p s m (.went m')
  | starved {a : Act} (here : p.instrs[m.ip]? = some ⟨a.op, none⟩)
    (lacking : m.memory.after s.endOfInput a = none) :
    Turn p s m (.stopped (m.traced s ⟨a.op, none⟩) (.fault (.noInput m.ip (p.origin m.ip))))
  | opened {t : Nat} {m' : Machine} (here : p.instrs[m.ip]? = some ⟨.loopOpen, some t⟩)
    (memory : m'.memory = m.memory) (ip : m'.ip = if m.cell = 0 then t + 1 else m.ip + 1)
    (steps : m'.steps = m.steps + 1) : Turn p s m (.went m')
  | closed {t : Nat} {m' : Machine} (here : p.instrs[m.ip]? = some ⟨.loopClose, some t⟩)
    (memory : m'.memory = m.memory) (ip : m'.ip = if m.cell = 0 then m.ip + 1 else t + 1)
    (steps : m'.steps = m.steps + 1) : Turn p s m (.went m')

theorem turn (paired : p.Paired) (s : Settings) (m : Machine) : Turn p s m (m.tick p s) := by
  cases here : p.instrs[m.ip]? with
  | none =>
      rw [tick_halted here]
      exact .halted here
  | some i =>
      cases free : m.spent s with
      | some limit =>
          simp only [tick, here, free]
          exact .spent here free
      | none =>
          cases paired m.ip i here with
          | act a =>
              cases acted : m.memory.after s.endOfInput a with
              | none =>
                  rw [tick_starved free here acted]
                  exact .starved here acted
              | some mem =>
                  obtain ⟨m', went, ip, rfl⟩ := tick_act free here acted
                  rw [went]
                  exact .acted here acted ip (steps_of_went went)
          | opening =>
              obtain ⟨m', went, ip, same⟩ := tick_loopOpen free here
              rw [went]
              exact .opened here same ip (steps_of_went went)
          | closing =>
              obtain ⟨m', went, ip, same⟩ := tick_loopClose free here
              rw [went]
              exact .closed here same ip (steps_of_went went)

theorem finished_of_stopped (paired : p.Paired) {m' : Machine} {outcome : Outcome}
    (stop : m.tick p s = .stopped m' outcome) : outcome ≠ .unfinished := by
  have turn := turn paired s m
  rw [stop] at turn
  cases turn <;> exact nofun

/-- The machines that a run goes through, one before each instruction it carries out. -/
def trail (p : Program) (s : Settings) : (fuel : Nat) → Machine → List Machine
  | 0, _ => []
  | fuel + 1, m =>
    match m.tick p s with
    | .stopped _ _ => []
    | .went m' => m :: trail p s fuel m'

/-- The operations that a run carries out, in order. -/
def carried (p : Program) (s : Settings) (fuel : Nat) (m : Machine) : List Op :=
  (m.trail p s fuel).filterMap fun m => p.instrs[m.ip]?.map Instr.op

theorem trail_stopped {m' : Machine} {outcome : Outcome} (stop : m.tick p s = .stopped m' outcome)
    (fuel : Nat) : m.trail p s fuel = [] := by
  cases fuel with
  | zero => rfl
  | succ fuel => rw [trail, stop]

theorem trail_went {m' : Machine} (went : m.tick p s = .went m') (fuel : Nat) :
    m.trail p s (fuel + 1) = m :: m'.trail p s fuel := by
  rw [trail, went]

theorem carried_stopped {m' : Machine} {outcome : Outcome}
    (stop : m.tick p s = .stopped m' outcome) (fuel : Nat) : m.carried p s fuel = [] := by
  rw [carried, trail_stopped stop, List.filterMap_nil]

theorem carried_went {i : Instr} {m' : Machine} (here : p.instrs[m.ip]? = some i)
    (went : m.tick p s = .went m') (fuel : Nat) :
    m.carried p s (fuel + 1) = i.op :: m'.carried p s fuel := by
  rw [carried, trail_went went, List.filterMap_cons, here]
  rfl

theorem exists_of_went {m' : Machine} (went : m.tick p s = .went m') :
    ∃ i, p.instrs[m.ip]? = some i := by
  obtain ⟨i, _, here, -⟩ := exec_of_went went
  exact ⟨i, here⟩

theorem steps_run (paired : p.Paired) (s : Settings) (fuel : Nat) (m : Machine) :
    (m.run p s fuel).1.steps = m.steps + (m.carried p s fuel).length := by
  induction fuel generalizing m with
  | zero => rfl
  | succ fuel ih =>
      have turn := turn paired s m
      cases ticked : m.tick p s with
      | stopped m' outcome =>
          rw [ticked] at turn
          rw [run_stopped ticked, carried_stopped ticked]
          cases turn with
          | halted | spent => rfl
          | starved => exact traced_steps _ m
      | went m' =>
          obtain ⟨i, here⟩ := exists_of_went ticked
          rw [run_went ticked, carried_went here ticked, ih, steps_of_went ticked, List.length_cons]
          omega

end Machine

end ByteTape
