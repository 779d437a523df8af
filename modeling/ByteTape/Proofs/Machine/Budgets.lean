import ByteTape.Proofs.Machine.Turns

/-! # Budgets

A budget decides when a run stops and nothing else. A machine that was stopped by its
budget is the machine of a longer run, caught on its way: running it again under a wider
budget, or under none, goes on as if it had never been stopped.
-/

namespace ByteTape

/-- The same settings under another budget. -/
def Settings.under (s : Settings) (budget : Option Int) : Settings := { s with budget }

theorem Memory.output_after {policy : EndOfInput} {a : Act} {mem mem' : Memory}
    (acted : mem.after policy a = some mem') : mem.output.toList <+: mem'.output.toList := by
  cases a with
  | right | left | increment | decrement | debug =>
      cases acted
      exact List.prefix_refl _
  | output =>
      cases acted
      rw [Array.toList_push]
      exact List.prefix_append ..
  | input =>
      obtain ⟨pointer, tape, input, output⟩ := mem
      cases input with
      | cons b rest =>
          cases acted
          exact List.prefix_refl _
      | nil => cases policy <;> cases acted <;> exact List.prefix_refl _

namespace Machine

variable {p : Program} {s : Settings} {m m' : Machine} {b b' : Option Int} {o : Outcome} {k : Nat}

/-- The budget allows the machine another step. -/
def Allowed (b : Option Int) (m : Machine) : Prop := ∀ n ∈ b, (m.steps : Int) < n

theorem spent_under_iff : m.spent (s.under b) = none ↔ m.Allowed b := by
  cases b with
  | none => simp [spent, Settings.under, Allowed]
  | some n => simp [spent, Settings.under, Allowed, Option.filter_eq_none_iff]

theorem tick_under (allowed : m.Allowed b) : m.tick p (s.under b) = m.tick p (s.under none) := by
  have free := spent_under_iff (s := s).mpr allowed
  have free' : m.spent (s.under none) = none := spent_unlimited rfl m
  simp only [tick, free, free']
  rfl

theorem went_under_iff :
    m.tick p (s.under b) = .went m' ↔ m.tick p (s.under none) = .went m' ∧ m.Allowed b := by
  constructor
  · intro went
    have allowed : m.Allowed b := by
      obtain ⟨_, _, -, free, -⟩ := exec_of_went went
      exact spent_under_iff.mp free
    exact ⟨tick_under allowed ▸ went, allowed⟩
  · rintro ⟨went, allowed⟩
    rw [tick_under allowed, went]

theorem Steps.widen (wider : ∀ m : Machine, m.Allowed b → m.Allowed b')
    (steps : Steps p (s.under b) k m m') : Steps p (s.under b') k m m' := by
  induction steps with
  | refl m => exact .refl m
  | next went _ ih =>
      obtain ⟨free, allowed⟩ := went_under_iff.mp went
      exact .next (went_under_iff.mpr ⟨free, wider _ allowed⟩) ih

theorem Steps.le_budget {n : Int} (steps : Steps p (s.under (some n)) k m m') (start : m.steps ≤ n) :
    m'.steps ≤ n := by
  induction steps with
  | refl => exact start
  | next went _ ih =>
      have room : (_ : Int) < n := (went_under_iff.mp went).2 n rfl
      apply ih
      rw [steps_of_went went]
      omega

theorem Steps.afford {n : Int} (steps : Steps p (s.under none) k m m') (enough : m'.steps ≤ n) :
    Steps p (s.under (some n)) k m m' := by
  induction steps with
  | refl m => exact .refl m
  | @next k m m₁ m₂ went rest ih =>
      have room : m.Allowed (some n) := by
        rintro _ ⟨⟩
        have later := rest.count
        rw [steps_of_went went] at later
        omega
      exact .next (went_under_iff.mpr ⟨went, room⟩) (ih enough)

theorem stopped_untraced (paired : p.Paired) (quiet : s.tracing = false)
    (stop : m.tick p s = .stopped m' o) : m' = m := by
  have turn := turn paired s m
  rw [stop] at turn
  cases turn with
  | halted | spent => rfl
  | starved => simp [traced, quiet]

theorem stopped_halted_iff (paired : p.Paired) :
    m.tick p s = .stopped m' .halted ↔ p.instrs[m.ip]? = none ∧ m' = m := by
  constructor
  · intro stop
    have turn := turn paired s m
    rw [stop] at turn
    cases turn with
    | halted past => exact ⟨past, rfl⟩
  · rintro ⟨past, rfl⟩
    exact tick_halted past

/-- A machine with a budget stops: every step brings it closer to the budget. -/
theorem exists_ends_under (paired : p.Paired) (n : Int) (m : Machine) :
    ∃ m' o, Ends p (s.under (some n)) m m' o := by
  induction left : (n - m.steps).toNat using Nat.strong_induction_on generalizing m with
  | _ left ih =>
      cases turn : m.tick p (s.under (some n)) with
      | stopped m' o =>
          exact ⟨m', o, .of_stopped (finished_of_stopped paired turn) turn⟩
      | went m' =>
          have room : (m.steps : Int) < n := (went_under_iff.mp turn).2 n rfl
          have count := steps_of_went turn
          obtain ⟨m'', o, ends⟩ := ih (n - m'.steps).toNat (by omega) m' rfl
          exact ⟨m'', o, .of_steps (.one turn) ends⟩

theorem Ends.steps_under (paired : p.Paired) (quiet : s.tracing = false)
    (ends : Ends p (s.under b) m m' o) : ∃ k, Steps p (s.under b) k m m' := by
  obtain ⟨k, m₀, steps, stop⟩ := ends.exists_steps
  obtain rfl := stopped_untraced (s := s.under b) paired quiet stop
  exact ⟨k, steps⟩

/-- A budget that suffices lets the run halt, and no other does. -/
theorem ends_halted_under_iff (paired : p.Paired) {n : Int} (start : m.steps ≤ n) :
    Ends p (s.under (some n)) m m' .halted ↔
      Ends p (s.under none) m m' .halted ∧ m'.steps ≤ n := by
  constructor
  · intro ends
    obtain ⟨k, m₀, steps, stop⟩ := ends.exists_steps
    obtain ⟨past, rfl⟩ := (stopped_halted_iff paired).mp stop
    have free : Steps p (s.under none) k m m' := steps.widen fun _ _ => nofun
    exact ⟨.of_steps free (.of_stopped nofun (tick_halted past)), steps.le_budget start⟩
  · rintro ⟨ends, enough⟩
    obtain ⟨k, m₀, steps, stop⟩ := ends.exists_steps
    obtain ⟨past, rfl⟩ := (stopped_halted_iff paired).mp stop
    exact .of_steps (steps.afford enough) (.of_stopped nofun (tick_halted past))

theorem output_went (paired : p.Paired) (went : m.tick p s = .went m') :
    m.output.toList <+: m'.output.toList := by
  have turn := turn paired s m
  rw [went] at turn
  cases turn with
  | acted _ memory => exact Memory.output_after memory
  | opened _ memory | closed _ memory =>
      have same : m'.output = m.output := congrArg Memory.output memory
      rw [same]

theorem Steps.output (paired : p.Paired) (steps : Steps p s k m m') :
    m.output.toList <+: m'.output.toList := by
  induction steps with
  | refl => exact List.prefix_refl _
  | next went _ ih => exact (output_went paired went).trans ih

/-- Runs of one machine, one after the other under these budgets, whatever each of them
stops for. `stops` are the machines as the runs leave them, the last of which is `m'`. -/
inductive Rounds (p : Program) (s : Settings) :
    (budgets : List Int) → (m : Machine) → (stops : List Machine) → (m' : Machine) → Prop where
  | none (m : Machine) : Rounds p s [] m [] m
  | round {n : Int} {budgets : List Int} {m m₁ m' : Machine} {o : Outcome} {stops : List Machine}
    (ends : Ends p (s.under (some n)) m m₁ o) (rest : Rounds p s budgets m₁ stops m') :
    Rounds p s (n :: budgets) m (m₁ :: stops) m'

theorem exists_rounds (paired : p.Paired) (budgets : List Int) (m : Machine) :
    ∃ stops m', Rounds p s budgets m stops m' := by
  induction budgets generalizing m with
  | nil => exact ⟨[], m, .none m⟩
  | cons n budgets ih =>
      obtain ⟨m₁, o, ends⟩ := exists_ends_under paired n m
      obtain ⟨stops, m', rest⟩ := ih m₁
      exact ⟨m₁ :: stops, m', .round ends rest⟩

/-- Rounds under narrower budgets lie on the way of one run under the wider budget: the
machine is never off that way, and every stop is followed by the machine that is left. -/
theorem Rounds.steps (paired : p.Paired) (quiet : s.tracing = false) {budgets : List Int}
    {stops : List Machine} (narrower : ∀ n ∈ budgets, ∀ limit ∈ b, n ≤ limit)
    (rounds : Rounds p s budgets m stops m') :
    (∃ k, Steps p (s.under b) k m m') ∧ ∀ stop ∈ stops, ∃ k, Steps p (s.under b) k stop m' := by
  induction rounds with
  | none m => exact ⟨⟨0, .refl m⟩, nofun⟩
  | @round n budgets m m₁ m' o stops ends _ ih =>
      rw [List.forall_mem_cons] at narrower
      obtain ⟨first, others⟩ := narrower
      obtain ⟨k, reach⟩ := ends.steps_under paired quiet
      have wide : ∀ m : Machine, m.Allowed (some n) → m.Allowed b := by
        intro m allowed limit given
        have room := allowed n rfl
        have wider := first limit given
        omega
      obtain ⟨⟨l, onward⟩, later⟩ := ih others
      refine ⟨⟨k + l, (reach.widen wide).trans onward⟩, ?_⟩
      rw [List.forall_mem_cons]
      exact ⟨⟨l, onward⟩, later⟩

/-- Budgets are exact. Under a budget every run stops; it halts exactly when the run without
a budget halts within so many steps, and then with the same machine. Runs can be cut: however
often a machine is first run under budgets no wider than the last one, the last run stops
exactly when, as and with the machine that a single run under the last budget does. What the
machine has written about itself is part of the machine. Every stop on the way has put out
the front part of what is put out in the end. -/
theorem runs_cut_by_budgets {ops : List Op} {origins : Option (Array (Option Place))}
    (linked : Program.ofOps ops origins = .ok p) (policy : EndOfInput) (input : List UInt8) :
    (∀ n : Nat, (∃ m o, Ends p ⟨policy, false, some n⟩ (.start input) m o) ∧
      ∀ m, Ends p ⟨policy, false, some n⟩ (.start input) m .halted ↔
        Ends p ⟨policy, false, none⟩ (.start input) m .halted ∧ m.steps ≤ n) ∧
    ∀ (budgets : List Int) (last : Option Int), (∀ n ∈ budgets, ∀ limit ∈ last, n ≤ limit) →
      (∃ stops m', Rounds p ⟨policy, false, none⟩ budgets (.start input) stops m') ∧
      ∀ stops m', Rounds p ⟨policy, false, none⟩ budgets (.start input) stops m' →
        (∀ m o, Ends p ⟨policy, false, last⟩ m' m o ↔
          Ends p ⟨policy, false, last⟩ (.start input) m o) ∧
        ∀ m o, Ends p ⟨policy, false, last⟩ (.start input) m o →
          ∀ stop ∈ stops, stop.output.toList <+: m.output.toList := by
  have paired := Program.paired_of_ofOps linked
  let s : Settings := ⟨policy, false, none⟩
  refine ⟨fun n => ⟨exists_ends_under (s := s) paired n _, fun m => ?_⟩, ?_⟩
  · have unused : ((Machine.start input).steps : Int) ≤ n := Int.natCast_nonneg n
    have exactly : Ends p (s.under (some n)) (.start input) m .halted ↔ _ :=
      ends_halted_under_iff paired unused
    rwa [Int.ofNat_le] at exactly
  · intro budgets last narrower
    refine ⟨exists_rounds paired budgets _, fun stops m' rounds => ?_⟩
    obtain ⟨⟨k, reach⟩, onward⟩ := rounds.steps paired rfl narrower
    refine ⟨fun m o => reach.ends_iff, fun m o ends stop among => ?_⟩
    obtain ⟨l, further⟩ := onward stop among
    obtain ⟨j, finish⟩ := (reach.ends_iff.mpr ends).steps_under paired rfl
    exact (further.trans finish).output paired

/-- A byte is read and put out, with a dump each time, as it is counted down to zero. -/
def countdown : List Op := [.input, .loopOpen, .output, .debug, .decrement, .loopClose]

def countdownProgram : Program :=
  ⟨#[⟨.input, none⟩, ⟨.loopOpen, some 5⟩, ⟨.output, none⟩, ⟨.debug, none⟩, ⟨.decrement, none⟩,
    ⟨.loopClose, some 1⟩], none⟩

/-- Counting down from two takes ten steps: nine are not enough, and three cuts do no harm. -/
theorem runs_cut_by_budgets_countdown :
    Program.ofOps countdown none = .ok countdownProgram ∧
      (¬ ∃ m, Ends countdownProgram ⟨.fault, false, some 9⟩ (.start [2]) m .halted) ∧
      ∃ m, Ends countdownProgram ⟨.fault, false, some 10⟩ (.start [2]) m .halted ∧
        m.output = #[2, 1] ∧ m.notes.size = 2 ∧
        ∃ stops m', Rounds countdownProgram ⟨.fault, false, none⟩ [3, -1, 7] (.start [2]) stops m' ∧
          stops.length = 3 ∧ Ends countdownProgram ⟨.fault, false, some 10⟩ m' m .halted ∧
          ∀ stop ∈ stops, stop.output.toList <+: m.output.toList := by
  have linked : Program.ofOps countdown none = .ok countdownProgram := rfl
  obtain ⟨budget, cut⟩ := runs_cut_by_budgets linked .fault [2]
  let final := ((Machine.start [2]).run countdownProgram ⟨.fault, false, none⟩ 11).1
  have halts : Ends countdownProgram ⟨.fault, false, none⟩ (.start [2]) final .halted :=
    ⟨nofun, 11, rfl⟩
  have count : final.steps = 10 := rfl
  have enough := ((budget 10).2 final).mpr ⟨halts, Nat.le_of_eq count⟩
  refine ⟨linked, ?_, final, enough, rfl, rfl, ?_⟩
  · rintro ⟨m, ends⟩
    obtain ⟨free, few⟩ := ((budget 9).2 m).mp ends
    obtain ⟨rfl, -⟩ := free.unique halts
    omega
  · obtain ⟨⟨stops, m', rounds⟩, same⟩ := cut [3, -1, 7] (some 10) (by decide)
    obtain ⟨resumed, front⟩ := same stops m' rounds
    refine ⟨stops, m', rounds, ?_, (resumed final .halted).mpr enough, front final .halted enough⟩
    cases rounds with
    | round _ rest => cases rest with
      | round _ rest => cases rest with
        | round _ rest => cases rest; rfl

end Machine

end ByteTape
