import ByteTape.Proofs.Block
import ByteTape.Proofs.Steps

/-! # Structured runs

Blocks have a meaning of their own, without instruction indices and jumps: a loop
tests the cell, goes through its body and tests again. The machine on the program
of a block does the same: it halts exactly when the block finishes, with the same
memory after as many steps, and it lacks input exactly when the block does.
-/

namespace ByteTape

/-- What a program works on. -/
structure Memory where
  pointer : Int
  tape : Tape
  /-- The bytes that are still unread. -/
  input : List UInt8
  output : Array UInt8

namespace Memory

/-- A blank tape, with the pointer at its origin and nothing put out. -/
def start (input : List UInt8) : Memory := ⟨0, .blank, input, #[]⟩

/-- The byte under the pointer. -/
def cell (s : Memory) : UInt8 := s.tape.read s.pointer

/-- Put a byte under the pointer. -/
def put (s : Memory) (b : UInt8) : Memory := { s with tape := s.tape.write s.pointer b }

/-- The memory after an action. There is none when input is asked for that is
used up and must not be. -/
def after (policy : EndOfInput) (s : Memory) : Act → Option Memory
  | .right => some { s with pointer := s.pointer + 1 }
  | .left => some { s with pointer := s.pointer - 1 }
  | .increment => some (s.put (s.cell + 1))
  | .decrement => some (s.put (s.cell - 1))
  | .output => some { s with output := s.output.push s.cell }
  | .input =>
    match s.input, policy with
    | b :: rest, _ => some { s.put b with input := rest }
    | [], .zero => some (s.put 0)
    | [], .keep => some s
    | [], .fault => none
  | .debug => some s

end Memory

/-- How a block comes to an end. -/
inductive Ending where
  | finished (s : Memory)
  /-- An action asked for input that there was not. -/
  | starved (s : Memory)

namespace Ending

def memory : Ending → Memory
  | finished s | starved s => s

/-- The outcome of a run that comes to this ending. -/
def Fits : Ending → Outcome → Prop
  | finished _, outcome => outcome = .halted
  | starved _, outcome => ∃ ip origin, outcome = .fault (.noInput ip origin)

end Ending

mutual

/-- From memory `s` the block runs to an ending in so many steps. -/
inductive Block.Runs (policy : EndOfInput) : Block → (s : Memory) → (steps : Nat) → Ending → Prop where
  | done {s : Memory} : Runs policy .done s 0 (.finished s)
  | act {a : Act} {rest : Block} {s s' : Memory} {k : Nat} {e : Ending}
      (acted : s.after policy a = some s') (further : Runs policy rest s' k e) :
      Runs policy (.act a rest) s (1 + k) e
  | starve {a : Act} {rest : Block} {s : Memory} (lacking : s.after policy a = none) :
      Runs policy (.act a rest) s 0 (.starved s)
  /-- The first test of a loop is a step. -/
  | loop {body rest : Block} {s s' : Memory} {k l : Nat} {e : Ending}
      (laps : Laps policy body s k (.finished s')) (further : Runs policy rest s' l e) :
      Runs policy (.loop body rest) s (1 + k + l) e
  | loopStarve {body rest : Block} {s s' : Memory} {k : Nat}
      (laps : Laps policy body s k (.starved s')) :
      Runs policy (.loop body rest) s (1 + k) (.starved s')

/-- Going through a body as long as the cell is not zero comes to an end. Every
time through, the test behind the body is one step more. -/
inductive Block.Laps (policy : EndOfInput) : Block → (s : Memory) → (steps : Nat) → Ending → Prop where
  | stop {body : Block} {s : Memory} (zero : s.cell = 0) : Laps policy body s 0 (.finished s)
  | lap {body : Block} {s s' : Memory} {k l : Nat} {e : Ending} (nonzero : s.cell ≠ 0)
      (once : Runs policy body s k (.finished s')) (again : Laps policy body s' l e) :
      Laps policy body s (k + 1 + l) e
  | lapStarve {body : Block} {s s' : Memory} {k : Nat} (nonzero : s.cell ≠ 0)
      (once : Runs policy body s k (.starved s')) : Laps policy body s k (.starved s')

end

namespace Machine

/-- The memory of a machine. -/
def memory (m : Machine) : Memory := ⟨m.pointer, m.tape, m.input, m.output⟩

@[simp]
theorem cell_memory (m : Machine) : m.memory.cell = m.cell := rfl

variable {p : Program} {s : Settings}

/-- The machine wants input and cannot have it. -/
def Starves (p : Program) (s : Settings) (m : Machine) : Prop :=
  ∃ m', m.tick p s = .stopped m' (.fault (.noInput m.ip (p.origin m.ip))) ∧
    m'.memory = m.memory ∧ m'.steps = m.steps

@[simp]
theorem traced_memory (i : Instr) (m : Machine) : (m.traced s i).memory = m.memory := by
  unfold traced; split <;> rfl

@[simp]
theorem traced_cell (i : Instr) (m : Machine) : (m.traced s i).cell = m.cell :=
  congrArg Memory.cell (traced_memory i m)

private theorem exec_act {a : Act} {i : Instr} (kind : i.op = a.op) {m : Machine} {mem : Memory}
    (acted : m.memory.after s.endOfInput a = some mem) :
    ∃ m', m.exec p s i = (m', none) ∧ m'.ip = m.ip + 1 ∧ m'.memory = mem := by
  cases a with
  | right | left | increment | decrement | output =>
      cases acted
      exact ⟨_, by rw [exec, kind]; rfl, rfl, rfl⟩
  | input =>
      obtain ⟨ip, pointer, tape, input, output, steps, notes⟩ := m
      rw [exec, kind]
      dsimp only [Act.op]
      generalize s.endOfInput = policy at acted ⊢
      cases input with
      | cons b rest => cases acted; exact ⟨_, rfl, rfl, rfl⟩
      | nil => cases policy <;> cases acted <;> exact ⟨_, rfl, rfl, rfl⟩
  | debug =>
      cases acted
      rw [exec, kind]
      dsimp only [Act.op]
      split
      · exact ⟨_, rfl, rfl, rfl⟩
      · exact ⟨_, rfl, rfl, rfl⟩

private theorem exec_starved {a : Act} {i : Instr} (kind : i.op = a.op) {m : Machine}
    (lacking : m.memory.after s.endOfInput a = none) :
    m.exec p s i = (m, some (.noInput m.ip (p.origin m.ip))) := by
  cases a with
  | right | left | increment | decrement | output | debug => cases lacking
  | input =>
      obtain ⟨ip, pointer, tape, input, output, steps, notes⟩ := m
      rw [exec, kind]
      dsimp only [Act.op]
      generalize s.endOfInput = policy at lacking ⊢
      cases input with
      | cons b rest => cases lacking
      | nil => cases policy <;> cases lacking; rfl

theorem tick_act {a : Act} {m : Machine} {mem : Memory} (free : m.spent s = none)
    (here : p.instrs[m.ip]? = some ⟨a.op, none⟩)
    (acted : m.memory.after s.endOfInput a = some mem) :
    ∃ m', m.tick p s = .went m' ∧ m'.ip = m.ip + 1 ∧ m'.memory = mem := by
  rw [← traced_memory (s := s) ⟨a.op, none⟩ m] at acted
  obtain ⟨m', carried, newIp, newMemory⟩ := exec_act (p := p) (i := ⟨a.op, none⟩) rfl acted
  exact ⟨_, tick_went here free carried, by simpa using newIp, newMemory⟩

theorem tick_starved {a : Act} {m : Machine} (free : m.spent s = none)
    (here : p.instrs[m.ip]? = some ⟨a.op, none⟩)
    (lacking : m.memory.after s.endOfInput a = none) :
    m.tick p s =
      .stopped (m.traced s ⟨a.op, none⟩) (.fault (.noInput m.ip (p.origin m.ip))) := by
  rw [← traced_memory (s := s) ⟨a.op, none⟩ m] at lacking
  have carried := exec_starved (p := p) (i := ⟨a.op, none⟩) rfl lacking
  rw [traced_ip] at carried
  exact tick_fault here free carried

theorem tick_loopOpen {j : Nat} {m : Machine} (free : m.spent s = none)
    (here : p.instrs[m.ip]? = some ⟨.loopOpen, some j⟩) :
    ∃ m', m.tick p s = .went m' ∧ m'.ip = (if m.cell = 0 then j + 1 else m.ip + 1) ∧
      m'.memory = m.memory := by
  by_cases zero : m.cell = 0
  · have carried : (m.traced s ⟨.loopOpen, some j⟩).exec p s ⟨.loopOpen, some j⟩ =
        ({ m.traced s ⟨.loopOpen, some j⟩ with ip := j + 1 }, none) := by
      simp only [exec, traced_cell, zero, if_true, jump]
    exact ⟨_, tick_went here free carried, (if_pos zero).symm, traced_memory _ m⟩
  · have carried : (m.traced s ⟨.loopOpen, some j⟩).exec p s ⟨.loopOpen, some j⟩ =
        ((m.traced s ⟨.loopOpen, some j⟩).next, none) := by
      simp only [exec, traced_cell, zero, if_false]
    refine ⟨_, tick_went here free carried, ?_, traced_memory _ m⟩
    simp only [next, traced_ip, if_neg zero]

theorem tick_loopClose {i : Nat} {m : Machine} (free : m.spent s = none)
    (here : p.instrs[m.ip]? = some ⟨.loopClose, some i⟩) :
    ∃ m', m.tick p s = .went m' ∧ m'.ip = (if m.cell = 0 then m.ip + 1 else i + 1) ∧
      m'.memory = m.memory := by
  by_cases zero : m.cell = 0
  · have carried : (m.traced s ⟨.loopClose, some i⟩).exec p s ⟨.loopClose, some i⟩ =
        ((m.traced s ⟨.loopClose, some i⟩).next, none) := by
      simp only [exec, traced_cell, zero, if_true]
    refine ⟨_, tick_went here free carried, ?_, traced_memory _ m⟩
    simp only [next, traced_ip, if_pos zero]
  · have carried : (m.traced s ⟨.loopClose, some i⟩).exec p s ⟨.loopClose, some i⟩ =
        ({ m.traced s ⟨.loopClose, some i⟩ with ip := i + 1 }, none) := by
      simp only [exec, traced_cell, zero, if_false, jump]
    exact ⟨_, tick_went here free carried, (if_neg zero).symm, traced_memory _ m⟩

end Machine

namespace Block

/-- Instructions that stand in the program, the first at index `i`. -/
def Stands (p : Program) (i : Nat) (code : List Instr) : Prop :=
  ∃ front back, front.length = i ∧ p.instrs.toList = front ++ (code ++ back)

namespace Stands

variable {p : Program} {i : Nat} {first : Instr} {code more : List Instr}

theorem head (h : Stands p i (first :: code)) : p.instrs[i]? = some first := by
  obtain ⟨front, back, start, whole⟩ := h
  rw [← Array.getElem?_toList, whole, List.getElem?_append_right (Nat.le_of_eq start), start,
    Nat.sub_self, List.cons_append, List.getElem?_cons_zero]

theorem left (h : Stands p i (code ++ more)) : Stands p i code := by
  obtain ⟨front, back, start, whole⟩ := h
  exact ⟨front, more ++ back, start, by rw [whole, List.append_assoc]⟩

theorem right (h : Stands p i (code ++ more)) : Stands p (i + code.length) more := by
  obtain ⟨front, back, start, whole⟩ := h
  exact ⟨front ++ code, back, by rw [List.length_append, start],
    by rw [whole, List.append_assoc, List.append_assoc]⟩

theorem tail (h : Stands p i (first :: code)) : Stands p (i + 1) code :=
  right (show Stands p i ([first] ++ code) from h)

end Stands

/-- The block stands in the program, its first operation at index `i`. -/
def Sits (p : Program) (i : Nat) (b : Block) : Prop := Stands p i (b.instrs i)

namespace Sits

variable {p : Program} {i : Nat}

theorem act {a : Act} {rest : Block} (h : Sits p i (.act a rest)) :
    p.instrs[i]? = some ⟨a.op, none⟩ ∧ Sits p (i + 1) rest :=
  ⟨Stands.head h, Stands.tail h⟩

theorem loop {body rest : Block} (h : Sits p i (.loop body rest)) :
    p.instrs[i]? = some ⟨.loopOpen, some (i + 1 + body.length)⟩ ∧ Sits p (i + 1) body ∧
      p.instrs[i + 1 + body.length]? = some ⟨.loopClose, some i⟩ ∧
        Sits p (i + 1 + body.length + 1) rest := by
  have inner := Stands.tail h
  have close := Stands.right inner
  rw [length_instrs] at close
  exact ⟨Stands.head h, Stands.left inner, close.head, close.tail⟩

theorem loop_alone {body rest : Block} (h : Sits p i (.loop body rest)) :
    Sits p i (.loop body .done) := by
  have split : (Block.loop body rest).instrs i =
      (Block.loop body .done).instrs i ++ rest.instrs (i + 1 + body.length + 1) := by
    simp only [instrs, List.cons_append, List.append_assoc, List.nil_append]
  unfold Sits at h ⊢
  rw [split] at h
  exact h.left

end Sits

/-- What a machine looks like that came to an ending of a block, the index behind
which is `i`. -/
def Arrived (p : Program) (s : Settings) (i : Nat) (m : Machine) : Ending → Prop
  | .finished mem => m.ip = i ∧ m.memory = mem
  | .starved mem => m.Starves p s ∧ m.memory = mem

open Machine (Steps)

section
variable {p : Program} {s : Settings}

/-- A machine in front of the block comes to the ending that the block comes to. -/
def Followed (p : Program) (s : Settings) (b : Block) (mem : Memory) (k : Nat) (e : Ending) : Prop :=
  ∀ {i : Nat} {m : Machine}, Sits p i b → m.ip = i → m.memory = mem →
    ∃ m', Steps p s k m m' ∧ Arrived p s (i + b.length) m' e

/-- The same for a machine that has just tested a bracket of the loop around the
body, the open of which has index `i`. -/
def LapsFollowed (p : Program) (s : Settings) (body : Block) (mem : Memory) (k : Nat) (e : Ending) :
    Prop :=
  ∀ {i : Nat} {m : Machine}, Sits p (i + 1) body →
    p.instrs[i + 1 + body.length]? = some ⟨.loopClose, some i⟩ →
      m.ip = (if mem.cell = 0 then i + 1 + body.length + 1 else i + 1) → m.memory = mem →
        ∃ m', Steps p s k m m' ∧ Arrived p s (i + 1 + body.length + 1) m' e

theorem Runs.followed (free : s.budget = none) {b : Block} {mem : Memory} {k : Nat} {e : Ending}
    (h : Runs s.endOfInput b mem k e) : Followed p s b mem k e := by
  have unspent := Machine.spent_unlimited free
  refine @Runs.rec s.endOfInput (fun b mem k e _ => Followed p s b mem k e)
    (fun body mem k e _ => LapsFollowed p s body mem k e) ?done ?act ?starve ?loop ?loopStarve
    ?stop ?lap ?lapStarve b mem k e h
  case done =>
    intro mem i m _ start same
    exact ⟨m, .refl m, start, same⟩
  case act =>
    rintro a rest _ _ k e acted _ ih i m sits rfl rfl
    obtain ⟨here, behind⟩ := sits.act
    obtain ⟨m', went, atRest, memory'⟩ := Machine.tick_act (unspent _) here acted
    obtain ⟨m'', steps, arrived⟩ := ih behind atRest memory'
    have finish : m.ip + 1 + rest.length = m.ip + (Block.act a rest).length := by
      rw [length_act]; omega
    exact ⟨m'', (Steps.one went).trans steps, finish ▸ arrived⟩
  case starve =>
    rintro a rest _ lacking i m sits rfl rfl
    have stop := Machine.tick_starved (unspent _) sits.act.1 lacking
    exact ⟨m, .refl m, ⟨_, stop, Machine.traced_memory _ m, Machine.traced_steps _ m⟩, rfl⟩
  case loop =>
    rintro body rest _ _ k l e _ _ ihLaps ihRest i m sits rfl rfl
    obtain ⟨here, inside, close, behind⟩ := sits.loop
    obtain ⟨m₁, went, tested, same⟩ := Machine.tick_loopOpen (unspent _) here
    obtain ⟨m₂, laps, atRest, memory₂⟩ := ihLaps inside close tested same
    obtain ⟨m₃, steps, arrived⟩ := ihRest behind atRest memory₂
    have finish : m.ip + 1 + body.length + 1 + rest.length =
        m.ip + (Block.loop body rest).length := by
      rw [length_loop]; omega
    exact ⟨m₃, ((Steps.one went).trans laps).trans steps, finish ▸ arrived⟩
  case loopStarve =>
    rintro body rest _ _ k _ ihLaps i m sits rfl rfl
    obtain ⟨here, inside, close, -⟩ := sits.loop
    obtain ⟨m₁, went, tested, same⟩ := Machine.tick_loopOpen (unspent _) here
    obtain ⟨m₂, laps, arrived⟩ := ihLaps inside close tested same
    exact ⟨m₂, (Steps.one went).trans laps, arrived⟩
  case stop =>
    intro body mem zero i m _ _ start same
    rw [if_pos zero] at start
    exact ⟨m, .refl m, start, same⟩
  case lap =>
    intro body mem mem' k l e nonzero _ _ ihOnce ihAgain i m inside close start same
    rw [if_neg nonzero] at start
    obtain ⟨m₁, once, atClose, memory₁⟩ := ihOnce inside start same
    obtain ⟨m₂, went, tested, same₂⟩ := Machine.tick_loopClose (unspent _) (atClose ▸ close)
    rw [atClose, ← Machine.cell_memory, memory₁] at tested
    obtain ⟨m₃, again, arrived⟩ := ihAgain inside close tested (same₂.trans memory₁)
    exact ⟨m₃, (once.trans (Steps.one went)).trans again, arrived⟩
  case lapStarve =>
    intro body mem mem' k nonzero _ ihOnce i m inside _ start same
    rw [if_neg nonzero] at start
    exact ihOnce inside start same

/-- A run that stops goes on to stop from everywhere on its way. -/
private theorem finished_later {k fuel : Nat} {m m' : Machine} (path : Steps p s k m m')
    (finished : (m.run p s fuel).2 ≠ .unfinished) :
    ∃ less, fuel = k + less ∧ (m'.run p s less).2 ≠ .unfinished := by
  have enough := path.lt_of_finished finished
  refine ⟨fuel - k, by omega, ?_⟩
  rwa [← path.run, Nat.add_sub_cancel' (Nat.le_of_lt enough)]

/-- A machine that stops, stops because its block comes to an ending. The two
statements are proved together by the fuel of the run that stops, since every test
of a bracket uses some of it up. -/
private theorem runs_of_finished (free : s.budget = none) (fuel : Nat) :
    (∀ {b : Block} {i : Nat} {m : Machine}, Sits p i b → m.ip = i →
      (m.run p s fuel).2 ≠ .unfinished → ∃ k e, Runs s.endOfInput b m.memory k e) ∧
    (∀ {body : Block} {i : Nat} {m : Machine}, Sits p (i + 1) body →
      p.instrs[i + 1 + body.length]? = some ⟨.loopClose, some i⟩ →
        m.ip = (if m.cell = 0 then i + 1 + body.length + 1 else i + 1) →
          (m.run p s fuel).2 ≠ .unfinished → ∃ k e, Laps s.endOfInput body m.memory k e) := by
  have unspent := Machine.spent_unlimited free
  induction fuel using Nat.strong_induction_on with
  | _ fuel ih =>
      have blocks : ∀ {b : Block} {i : Nat} {m : Machine}, Sits p i b → m.ip = i →
          (m.run p s fuel).2 ≠ .unfinished → ∃ k e, Runs s.endOfInput b m.memory k e := by
        rintro b i m sits rfl finished
        cases b with
        | done => exact ⟨0, _, .done⟩
        | act a rest =>
            obtain ⟨here, behind⟩ := sits.act
            cases acted : m.memory.after s.endOfInput a with
            | none => exact ⟨0, _, .starve acted⟩
            | some mem =>
                obtain ⟨m', went, atRest, rfl⟩ := Machine.tick_act (unspent _) here acted
                obtain ⟨less, rfl, finished'⟩ := finished_later (Steps.one went) finished
                obtain ⟨k, e, further⟩ := (ih less (by omega)).1 behind atRest finished'
                exact ⟨_, e, .act acted further⟩
        | loop body rest =>
            obtain ⟨here, inside, close, behind⟩ := sits.loop
            obtain ⟨m₁, went, tested, same⟩ := Machine.tick_loopOpen (unspent _) here
            have sameCell : m₁.cell = m.cell := congrArg Memory.cell same
            obtain ⟨less, rfl, finished₁⟩ := finished_later (Steps.one went) finished
            obtain ⟨k, e, laps⟩ :=
              (ih less (by omega)).2 inside close (sameCell ▸ tested) finished₁
            rw [same] at laps
            cases e with
            | starved mem => exact ⟨_, _, .loopStarve laps⟩
            | finished mem =>
                obtain ⟨m₂, path, atRest, rfl⟩ :=
                  (Runs.loop laps .done).followed free sits.loop_alone rfl rfl
                obtain ⟨lesser, same₂, finished₂⟩ := finished_later path finished
                have rest : m₂.ip = m.ip + 1 + body.length + 1 := by
                  rw [atRest, length_loop, length_done]; omega
                obtain ⟨l, e, further⟩ := (ih lesser (by omega)).1 behind rest finished₂
                exact ⟨_, e, .loop laps further⟩
      refine ⟨blocks, ?_⟩
      intro body i m inside close start finished
      by_cases zero : m.cell = 0
      · exact ⟨0, _, .stop zero⟩
      · rw [if_neg zero] at start
        obtain ⟨k, e, once⟩ := blocks inside start finished
        cases e with
        | starved mem => exact ⟨k, _, .lapStarve zero once⟩
        | finished mem =>
            obtain ⟨m₁, path, atClose, rfl⟩ := once.followed free inside start rfl
            obtain ⟨m₂, went, tested, same⟩ := Machine.tick_loopClose (unspent _) (atClose ▸ close)
            have sameCell : m₂.cell = m₁.cell := congrArg Memory.cell same
            rw [atClose, ← sameCell] at tested
            obtain ⟨less, rfl, finished₂⟩ := finished_later (path.trans (Steps.one went)) finished
            obtain ⟨l, e, again⟩ := (ih less (by omega)).2 inside close tested finished₂
            exact ⟨_, e, .lap zero once (same ▸ again)⟩

theorem sits_program (b : Block) (origins : Option (Array (Option Place))) :
    Sits ⟨(b.instrs 0).toArray, origins⟩ 0 b :=
  ⟨[], [], rfl, by rw [List.append_nil]; rfl⟩

variable {b : Block} {origins : Option (Array (Option Place))} {input : List UInt8}

theorem Runs.ends (origins : Option (Array (Option Place))) (free : s.budget = none) {k : Nat}
    {e : Ending} (runs : b.Runs s.endOfInput (.start input) k e) :
    ∃ m outcome, Machine.Ends ⟨(b.instrs 0).toArray, origins⟩ s (.start input) m outcome ∧
      e.Fits outcome ∧ m.memory = e.memory ∧ m.steps = k := by
  obtain ⟨m, path, arrived⟩ := runs.followed free (b.sits_program origins) (m := .start input) rfl rfl
  have count : m.steps = k := path.count.trans (Nat.zero_add k)
  cases e with
  | finished mem =>
      obtain ⟨atEnd, same⟩ := arrived
      have past : (b.instrs 0).toArray[m.ip]? = none := by
        rw [atEnd]
        simp
      exact ⟨m, .halted, .of_steps path (.of_stopped (by decide) (Machine.tick_halted past)), rfl,
        same, count⟩
  | starved mem =>
      obtain ⟨⟨m', stop, same', count'⟩, same⟩ := arrived
      exact ⟨m', _, .of_steps path (.of_stopped (by simp) stop), ⟨_, _, rfl⟩, same'.trans same,
        count'.trans count⟩

theorem runs_of_ends (free : s.budget = none) {m : Machine} {outcome : Outcome}
    (ends : Machine.Ends ⟨(b.instrs 0).toArray, origins⟩ s (.start input) m outcome) :
    ∃ e, b.Runs s.endOfInput (.start input) m.steps e ∧ e.Fits outcome ∧ e.memory = m.memory := by
  obtain ⟨finished, fuel, stops⟩ := id ends
  have stopped : ((Machine.start input).run ⟨(b.instrs 0).toArray, origins⟩ s fuel).2 ≠ .unfinished := by
    rwa [stops]
  obtain ⟨k, e, runs⟩ := (runs_of_finished free fuel).1 (b.sits_program origins) rfl stopped
  obtain ⟨m', outcome', ends', fits, same, count⟩ := runs.ends origins free
  obtain ⟨rfl, rfl⟩ := ends.unique ends'
  exact ⟨e, count ▸ runs, fits, same.symm⟩

end

end Block

/-- The machine on a balanced sequence of operations does what its block does: it
halts exactly when the block finishes, and lacks input exactly when the block does,
with the same memory and after as many steps. It does not stop in any other way. -/
theorem Machine.ends_iff_block_runs {ops : List Op} (balanced : Balanced .loopOpen .loopClose ops)
    (origins : Option (Array (Option Place))) (input : List UInt8) (policy : EndOfInput)
    (tracing : Bool) :
    ∃ b p, Block.ofOps? ops = some b ∧ b.ops = ops ∧ Program.ofOps ops origins = .ok p ∧
      (∀ mem k, (∃ m, Ends p ⟨policy, tracing, none⟩ (.start input) m .halted ∧
          m.memory = mem ∧ m.steps = k) ↔ b.Runs policy (.start input) k (.finished mem)) ∧
      (∀ mem k, (∃ m ip origin, Ends p ⟨policy, tracing, none⟩ (.start input) m
          (.fault (.noInput ip origin)) ∧ m.memory = mem ∧ m.steps = k) ↔
            b.Runs policy (.start input) k (.starved mem)) ∧
      ∀ m outcome, Ends p ⟨policy, tracing, none⟩ (.start input) m outcome →
        outcome = .halted ∨ ∃ ip origin, outcome = .fault (.noInput ip origin) := by
  obtain ⟨b, rfl⟩ := Block.balanced_iff.mp balanced
  refine ⟨b, _, b.ofOps?_ops, rfl, b.ofOps_ops origins, ?_, ?_, ?_⟩
  · intro mem k
    constructor
    · rintro ⟨m, ends, rfl, rfl⟩
      obtain ⟨e, runs, fits, same⟩ := Block.runs_of_ends rfl ends
      cases e with
      | finished mem => exact same ▸ runs
      | starved mem => obtain ⟨_, _, h⟩ := fits; cases h
    · intro runs
      obtain ⟨m, outcome, ends, rfl, same, count⟩ := runs.ends (s := ⟨policy, tracing, none⟩) origins rfl
      exact ⟨m, ends, same, count⟩
  · intro mem k
    constructor
    · rintro ⟨m, ip, origin, ends, rfl, rfl⟩
      obtain ⟨e, runs, fits, same⟩ := Block.runs_of_ends rfl ends
      cases e with
      | finished mem => cases fits
      | starved mem => exact same ▸ runs
    · intro runs
      obtain ⟨m, outcome, ends, ⟨ip, origin, rfl⟩, same, count⟩ :=
        runs.ends (s := ⟨policy, tracing, none⟩) origins rfl
      exact ⟨m, ip, origin, ends, same, count⟩
  · intro m outcome ends
    obtain ⟨e, -, fits, -⟩ := Block.runs_of_ends rfl ends
    cases e with
    | finished mem => exact .inl fits
    | starved mem => exact .inr fits

/-- A loop that takes one away and reads, as long as the cell is not zero. -/
def readingLoop : List Op := [.increment, .loopOpen, .decrement, .input, .loopClose]

/-- With a zero byte to read the loop halts, and without one it lacks input. -/
theorem Machine.readingLoop_ends_iff_block_runs :
    Balanced .loopOpen .loopClose readingLoop ∧
      (∃ p m, Program.ofOps readingLoop none = .ok p ∧
        Ends p ⟨.fault, false, none⟩ (.start [0]) m .halted ∧ m.steps = 5) ∧
      ∃ p m ip origin, Program.ofOps readingLoop none = .ok p ∧
        Ends p ⟨.fault, false, none⟩ (.start []) m (.fault (.noInput ip origin)) ∧ m.steps = 3 := by
  have balanced : Balanced .loopOpen .loopClose readingLoop := by decide
  refine ⟨balanced, ?_, ?_⟩
  · obtain ⟨b, p, read, -, linked, halts, -, -⟩ := ends_iff_block_runs balanced none [0] .fault false
    cases read
    obtain ⟨m, ends, -, count⟩ := (halts _ 5).mpr
      (.act rfl (.loop (.lap (by decide) (.act rfl (.act rfl .done)) (.stop (by decide))) .done))
    exact ⟨p, m, linked, ends, count⟩
  · obtain ⟨b, p, read, -, linked, -, starves, -⟩ := ends_iff_block_runs balanced none [] .fault false
    cases read
    obtain ⟨m, ip, origin, ends, -, count⟩ := (starves _ 3).mpr
      (.act rfl (.loopStarve (.lapStarve (by decide) (.act rfl (.starve rfl)))))
    exact ⟨p, m, ip, origin, linked, ends, count⟩

end ByteTape
