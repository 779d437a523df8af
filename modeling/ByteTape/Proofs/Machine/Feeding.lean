import ByteTape.Proofs.Machine.Turns

/-! # Input in pieces

A machine that lacks input, and must not do without, waits in front of the instruction that
asked for it. Fed more bytes it goes on as if they had been there from the start, so it does
not matter in how many pieces the input comes.
-/

namespace ByteTape

namespace Memory

/-- The memory with more bytes behind its input. -/
def feed (mem : Memory) (more : List UInt8) : Memory := { mem with input := mem.input ++ more }

theorem feed_nil (mem : Memory) : mem.feed [] = mem := by
  rw [feed, List.append_nil]

theorem feed_feed (mem : Memory) (more rest : List UInt8) :
    (mem.feed more).feed rest = mem.feed (more ++ rest) := by
  simp only [feed, List.append_assoc]

theorem after_feed {a : Act} {mem mem' : Memory} (acted : mem.after .fault a = some mem')
    (more : List UInt8) : (mem.feed more).after .fault a = some (mem'.feed more) := by
  cases a with
  | right | left | increment | decrement | output | debug =>
      cases acted
      rfl
  | input =>
      obtain ⟨pointer, tape, input, output⟩ := mem
      cases input with
      | nil => cases acted
      | cons b rest =>
          cases acted
          rfl

end Memory

namespace Machine

variable {p : Program} {s : Settings} {m m' n : Machine} {more : List UInt8} {o : Outcome} {k : Nat}

/-- Machine `m'` has come as far as machine `m` and has more bytes behind its input. What the
two have written about themselves may differ. -/
structure Ahead (more : List UInt8) (m m' : Machine) : Prop where
  ip : m'.ip = m.ip
  memory : m'.memory = m.memory.feed more
  steps : m'.steps = m.steps

namespace Ahead

theorem start (input more : List UInt8) : Ahead more (.start input) (.start (input ++ more)) :=
  ⟨rfl, rfl, rfl⟩

theorem cell (h : Ahead more m m') : m'.cell = m.cell := congrArg Memory.cell h.memory

theorem fed {chunk rest : List UInt8} (h : Ahead (chunk ++ rest) m m') :
    Ahead rest (m.feed chunk) m' := by
  refine ⟨h.ip, ?_, h.steps⟩
  rw [h.memory, ← Memory.feed_feed]
  rfl

theorem went (h : Ahead more m m') (paired : p.Paired) (strict : s.endOfInput = .fault)
    (free : s.budget = none) (went : m.tick p s = .went n) :
    ∃ n', m'.tick p s = .went n' ∧ Ahead more n n' := by
  have unspent := spent_unlimited free m'
  have level {n' : Machine} (went' : m'.tick p s = .went n') : n'.steps = n.steps := by
    rw [steps_of_went went', steps_of_went went, h.steps]
  have turn := turn paired s m
  rw [went] at turn
  cases turn with
  | acted here memory ip =>
      rw [← h.ip] at here
      have further := Memory.after_feed (strict ▸ memory) more
      rw [← h.memory, ← strict] at further
      obtain ⟨n', went', ip', memory'⟩ := tick_act unspent here further
      exact ⟨n', went', by rw [ip', ip, h.ip], memory', level went'⟩
  | opened here memory ip =>
      rw [← h.ip] at here
      obtain ⟨n', went', ip', memory'⟩ := tick_loopOpen unspent here
      exact ⟨n', went', by rw [ip', ip, h.ip, h.cell], by rw [memory', memory, h.memory], level went'⟩
  | closed here memory ip =>
      rw [← h.ip] at here
      obtain ⟨n', went', ip', memory'⟩ := tick_loopClose unspent here
      exact ⟨n', went', by rw [ip', ip, h.ip, h.cell], by rw [memory', memory, h.memory], level went'⟩

theorem stays (h : Ahead more m m') (paired : p.Paired) (stop : m.tick p s = .stopped n o) :
    Ahead more n m' := by
  have turn := turn paired s m
  rw [stop] at turn
  cases turn with
  | halted | spent => exact h
  | starved =>
      refine ⟨?_, ?_, ?_⟩
      · rw [traced_ip, h.ip]
      · rw [traced_memory, h.memory]
      · rw [traced_steps, h.steps]

theorem stopped (h : Ahead [] m m') (paired : p.Paired) (free : s.budget = none)
    (stop : m.tick p s = .stopped n o) : ∃ n', m'.tick p s = .stopped n' o ∧ Ahead [] n n' := by
  have turn := turn paired s m
  rw [stop] at turn
  cases turn with
  | halted past =>
      rw [← h.ip] at past
      exact ⟨m', tick_halted past, h⟩
  | spent here used =>
      rw [spent_unlimited free] at used
      cases used
  | starved here lacking =>
      rw [← m.memory.feed_nil, ← h.memory] at lacking
      rw [← h.ip] at here
      have stop' := tick_starved (spent_unlimited free m') here lacking
      rw [h.ip] at stop'
      refine ⟨_, stop', ?_, ?_, ?_⟩
      · rw [traced_ip, traced_ip, h.ip]
      · rw [traced_memory, traced_memory, h.memory]
      · rw [traced_steps, traced_steps, h.steps]

theorem run (h : Ahead more m m') (paired : p.Paired) (strict : s.endOfInput = .fault)
    (free : s.budget = none) (steps : Steps p s k m n) :
    ∃ n', Steps p s k m' n' ∧ Ahead more n n' := by
  induction steps generalizing m' with
  | refl => exact ⟨m', .refl m', h⟩
  | next went _ ih =>
      obtain ⟨m₁, went', along⟩ := h.went paired strict free went
      obtain ⟨n', steps', further⟩ := ih along
      exact ⟨n', .next went' steps', further⟩

/-- When the machine that is behind stops, the other one has come by there. -/
theorem reach (h : Ahead more m m') (paired : p.Paired) (strict : s.endOfInput = .fault)
    (free : s.budget = none) (ends : Ends p s m n o) :
    ∃ k n', Steps p s k m' n' ∧ Ahead more n n' := by
  obtain ⟨k, m₀, steps, stop⟩ := ends.exists_steps
  obtain ⟨n', steps', along⟩ := h.run paired strict free steps
  exact ⟨k, n', steps', along.stays paired stop⟩

theorem ends (h : Ahead [] m m') (paired : p.Paired) (strict : s.endOfInput = .fault)
    (free : s.budget = none) (ends : Ends p s m n o) : ∃ n', Ends p s m' n' o ∧ Ahead [] n n' := by
  obtain ⟨k, m₀, steps, stop⟩ := ends.exists_steps
  obtain ⟨m₁, steps', along⟩ := h.run paired strict free steps
  obtain ⟨n', stop', arrived⟩ := along.stopped paired free stop
  exact ⟨n', .of_steps steps' (.of_stopped ends.1 stop'), arrived⟩

/-- If the machine that is ahead stops, so does the one that is behind. -/
theorem finishes (h : Ahead more m m') (paired : p.Paired) (strict : s.endOfInput = .fault)
    (free : s.budget = none) {n' : Machine} (ends : Ends p s m' n' o) : ∃ n o, Ends p s m n o := by
  obtain ⟨k, m₀, steps, stop⟩ := ends.exists_steps
  induction steps generalizing m with
  | refl =>
      cases ticked : m.tick p s with
      | stopped n o => exact ⟨n, o, .of_stopped (finished_of_stopped paired ticked) ticked⟩
      | went n =>
          obtain ⟨_, went', -⟩ := h.went paired strict free ticked
          cases stop.symm.trans went'
  | next went' rest ih =>
      cases ticked : m.tick p s with
      | stopped n o => exact ⟨n, o, .of_stopped (finished_of_stopped paired ticked) ticked⟩
      | went n =>
          obtain ⟨_, same, along⟩ := h.went paired strict free ticked
          cases went'.symm.trans same
          obtain ⟨n, o, ends'⟩ := ih along ((Steps.one went').ends_iff.mpr ends) stop
          exact ⟨n, o, .of_steps (.one ticked) ends'⟩

end Ahead

/-- The machine is run until it stops, whatever it stops for. Then it is fed the next chunk and
run again, until there are no chunks left. -/
inductive Served (p : Program) (s : Settings) :
    (m : Machine) → (chunks : List (List UInt8)) → (m' : Machine) → (o : Outcome) → Prop where
  | last {m m' : Machine} {o : Outcome} (ends : Ends p s m m' o) : Served p s m [] m' o
  | next {m m₁ m' : Machine} {o₁ o : Outcome} {chunk : List UInt8} {chunks : List (List UInt8)}
    (ends : Ends p s m m₁ o₁) (rest : Served p s (m₁.feed chunk) chunks m' o) :
    Served p s m (chunk :: chunks) m' o

theorem Served.ends (paired : p.Paired) (strict : s.endOfInput = .fault) (free : s.budget = none)
    {chunks : List (List UInt8)} (served : Served p s m chunks n o) (h : Ahead chunks.flatten m m') :
    ∃ n', Ends p s m' n' o ∧ Ahead [] n n' := by
  induction served generalizing m' with
  | last ends => exact h.ends paired strict free ends
  | next ends _ ih =>
      obtain ⟨k, m₁, steps, along⟩ := h.reach paired strict free ends
      obtain ⟨n', ends', arrived⟩ := ih along.fed
      exact ⟨n', .of_steps steps ends', arrived⟩

theorem Ahead.served (paired : p.Paired) (strict : s.endOfInput = .fault) (free : s.budget = none)
    {chunks : List (List UInt8)} (h : Ahead chunks.flatten m m') {n' : Machine}
    (ends : Ends p s m' n' o) : ∃ n, Served p s m chunks n o ∧ Ahead [] n n' := by
  induction chunks generalizing m m' with
  | nil =>
      obtain ⟨n, o', first⟩ := h.finishes paired strict free ends
      obtain ⟨_, ends', arrived⟩ := h.ends paired strict free first
      obtain ⟨rfl, rfl⟩ := ends.unique ends'
      exact ⟨n, .last first, arrived⟩
  | cons chunk chunks ih =>
      obtain ⟨m₁, o₁, first⟩ := h.finishes paired strict free ends
      obtain ⟨k, m₂, steps, along⟩ := h.reach paired strict free first
      obtain ⟨n, rest, arrived⟩ := ih along.fed (steps.ends_iff.mpr ends)
      exact ⟨n, .next first rest, arrived⟩

/-- Serving the input in pieces comes to the same as giving all of it at the start. When every
piece is run to a stop, the run on the whole input stops, and the other way round; both stop
for the same reason, at the same instruction, with the same memory and after as many steps. -/
theorem served_iff_ends_at_once {ops : List Op} {origins : Option (Array (Option Place))}
    (linked : Program.ofOps ops origins = .ok p) (tracing : Bool) (first : List UInt8)
    (chunks : List (List UInt8)) (o : Outcome) (ip : Nat) (mem : Memory) (steps : Nat) :
    (∃ m, Served p ⟨.fault, tracing, none⟩ (.start first) chunks m o ∧
        m.ip = ip ∧ m.memory = mem ∧ m.steps = steps) ↔
      ∃ m, Ends p ⟨.fault, tracing, none⟩ (.start (first ++ chunks.flatten)) m o ∧
        m.ip = ip ∧ m.memory = mem ∧ m.steps = steps := by
  have paired := Program.paired_of_ofOps linked
  have whole := Ahead.start first chunks.flatten
  constructor
  · rintro ⟨m, served, rfl, rfl, rfl⟩
    obtain ⟨m', ends, arrived⟩ := served.ends paired rfl rfl whole
    exact ⟨m', ends, arrived.ip, arrived.memory.trans m.memory.feed_nil, arrived.steps⟩
  · rintro ⟨m', ends, rfl, rfl, rfl⟩
    obtain ⟨m, served, arrived⟩ := whole.served paired rfl rfl ends
    exact ⟨m, served, arrived.ip.symm, (arrived.memory.trans m.memory.feed_nil).symm, arrived.steps.symm⟩

/-- Bytes are read and put out until a zero byte is read. -/
def echoing : List Op := [.input, .loopOpen, .output, .input, .loopClose]

def echoingProgram : Program :=
  ⟨#[⟨.input, none⟩, ⟨.loopOpen, some 4⟩, ⟨.output, none⟩, ⟨.input, none⟩, ⟨.loopClose, some 1⟩], none⟩

/-- Nothing, then two bytes, then nothing again, then the zero byte and one that is left over;
and the same without the last piece. -/
theorem served_iff_ends_at_once_echoing :
    Program.ofOps echoing none = .ok echoingProgram ∧
      (∃ m, Served echoingProgram ⟨.fault, true, none⟩ (.start []) [[3, 5], [], [0, 9]] m .halted ∧
        m.memory.output = #[3, 5] ∧ m.memory.input = [9] ∧ m.steps = 8) ∧
      ∃ m, Served echoingProgram ⟨.fault, false, none⟩ (.start []) [[3, 5], []] m
          (.fault (.noInput 3 (.instruction 3))) ∧
        m.ip = 3 ∧ m.memory.output = #[3, 5] ∧ m.steps = 6 := by
  have linked : Program.ofOps echoing none = .ok echoingProgram := rfl
  refine ⟨linked, ?_, ?_⟩
  · let final := ((Machine.start [3, 5, 0, 9]).run echoingProgram ⟨.fault, true, none⟩ 9).1
    have halts : Ends echoingProgram ⟨.fault, true, none⟩ (.start [3, 5, 0, 9]) final .halted :=
      ⟨nofun, 9, rfl⟩
    obtain ⟨m, served, -, memory, steps⟩ :=
      (served_iff_ends_at_once linked true [] [[3, 5], [], [0, 9]] _ _ _ _).mpr ⟨final, halts, rfl, rfl, rfl⟩
    exact ⟨m, served, by rw [memory]; rfl, by rw [memory]; rfl, steps⟩
  · let final := ((Machine.start [3, 5]).run echoingProgram ⟨.fault, false, none⟩ 9).1
    have starves : Ends echoingProgram ⟨.fault, false, none⟩ (.start [3, 5]) final
        (.fault (.noInput 3 (.instruction 3))) := ⟨nofun, 9, rfl⟩
    obtain ⟨m, served, ip, memory, steps⟩ :=
      (served_iff_ends_at_once linked false [] [[3, 5], []] _ _ _ _).mpr ⟨final, starves, rfl, rfl, rfl⟩
    exact ⟨m, served, ip, by rw [memory]; rfl, steps⟩

end Machine

end ByteTape
