import ByteTape.Proofs.Expansion.Origins
import ByteTape.Proofs.Machine.Turns

/-! # Programs that begin elsewhere on the tape

No cell is special: a program that first moves the pointer some cells away does there what
it would have done at the origin. Its instructions and their targets stand further back by
the moves, its cells lie further off by as many, and all else is the same.
-/

namespace ByteTape

namespace Tape

/-- Every stored cell `d` places further. -/
def moved (d : Int) (t : Tape) : Tape :=
  ⟨.ofList (t.toList.map fun cell => (cell.1 + d, cell.2)) compare⟩

variable {d : Int}

theorem ext_cells {t t' : Tape} (same : ∀ i : Int, t.cells[i]? = t'.cells[i]?) : t = t' := by
  obtain ⟨cells⟩ := t
  obtain ⟨cells'⟩ := t'
  exact congrArg Tape.mk (Std.ExtTreeMap.ext_getElem? same)

theorem getElem?_moved (t : Tape) (i : Int) : (t.moved d).cells[i + d]? = t.cells[i]? := by
  have apart : (t.toList.map fun cell => (cell.1 + d, cell.2)).Pairwise
      fun a b => ¬ compare a.1 b.1 = .eq := by
    rw [List.pairwise_map]
    refine t.cells.distinct_keys_toList.imp fun distinct => ?_
    simpa using distinct
  cases stored : t.cells[i]? with
  | some b =>
      refine Std.ExtTreeMap.getElem?_ofList_of_mem Std.ReflCmp.compare_self apart ?_
      exact List.mem_map.mpr ⟨(i, b), Std.ExtTreeMap.mem_toList_iff_getElem?_eq_some.mpr stored, rfl⟩
  | none =>
      apply Std.ExtTreeMap.getElem?_ofList_of_contains_eq_false
      rw [List.map_map, List.contains_eq_mem, decide_eq_false_iff_not]
      intro there
      obtain ⟨⟨j, b⟩, among, same⟩ := List.mem_map.mp there
      obtain rfl : j = i := (Int.add_left_inj d).mp same
      rw [toList, Std.ExtTreeMap.mem_toList_iff_getElem?_eq_some, stored] at among
      cases among

theorem getElem?_moved_sub (t : Tape) (i : Int) : (t.moved d).cells[i]? = t.cells[i - d]? := by
  rw [← t.getElem?_moved (i - d), Int.sub_add_cancel]

theorem moved_blank (d : Int) : blank.moved d = blank := by
  refine ext_cells fun i => ?_
  rw [getElem?_moved_sub, blank, Std.ExtTreeMap.getElem?_empty, Std.ExtTreeMap.getElem?_empty]

theorem read_moved (t : Tape) (i : Int) : (t.moved d).read (i + d) = t.read i := by
  rw [read, getElem?_moved, read]

theorem moved_write (t : Tape) (i : Int) (b : UInt8) :
    (t.write i b).moved d = (t.moved d).write (i + d) b := by
  refine ext_cells fun j => ?_
  have same : i = j - d ↔ i + d = j := by omega
  simp only [getElem?_moved_sub, write, Std.ExtTreeMap.getElem?_insert,
    Std.LawfulEqCmp.compare_eq_iff_eq, same]

end Tape

namespace Memory

/-- The pointer and all stored cells `d` places further. -/
def moved (d : Int) (mem : Memory) : Memory :=
  { mem with pointer := mem.pointer + d, tape := mem.tape.moved d }

variable {d : Int}

theorem cell_moved (mem : Memory) : (mem.moved d).cell = mem.cell := mem.tape.read_moved mem.pointer

theorem put_moved (mem : Memory) (b : UInt8) : (mem.moved d).put b = (mem.put b).moved d := by
  simp only [put, moved, Tape.moved_write]

theorem after_moved (mem : Memory) (policy : EndOfInput) (a : Act) :
    (mem.moved d).after policy a = (mem.after policy a).map (moved d) := by
  cases a with
  | right =>
      simp only [after, moved, Option.map_some, Int.add_right_comm]
  | left =>
      simp only [after, moved, Option.map_some, Int.sub_eq_add_neg, Int.add_right_comm]
  | increment | decrement => simp only [after, cell_moved, put_moved, Option.map_some]
  | output =>
      simp only [after, cell_moved, Option.map_some]
      rfl
  | debug => rfl
  | input =>
      obtain ⟨pointer, tape, input, output⟩ := mem
      cases input with
      | cons b rest =>
          simp only [after, put, moved, Tape.moved_write, Option.map_some]
      | nil =>
          cases policy with
          | zero => exact congrArg some (put_moved _ 0)
          | keep | fault => rfl

end Memory

/-- The instruction as it stands `k` places further back. -/
def Instr.later (k : Nat) (x : Instr) : Instr := ⟨x.op, x.target.map (k + ·)⟩

/-- Behind its first `k` instructions, program `q` has the instructions of program `p`. -/
def Program.Behind (k : Nat) (p q : Program) : Prop :=
  ∀ i, q.instrs[k + i]? = p.instrs[i]?.map (Instr.later k)

namespace Block

theorem instrs_later (b : Block) (k i : Nat) : b.instrs (k + i) = (b.instrs i).map (Instr.later k) := by
  induction b generalizing i with
  | done => rfl
  | act a rest ih => simp only [instrs, List.map_cons, Nat.add_assoc, ih, Instr.later, Option.map_none]
  | loop body rest ihBody ihRest =>
      simp only [instrs, List.map_cons, List.map_append, Nat.add_assoc, ihBody, ihRest, Instr.later,
        Option.map_some]

theorem instrs_repeated (a : Act) (k : Nat) (b : Block) (i : Nat) :
    (repeated a k b).instrs i = List.replicate k ⟨a.op, none⟩ ++ b.instrs (k + i) := by
  induction k generalizing i with
  | zero => simp [repeated]
  | succ k ih =>
      rw [repeated, instrs, ih, List.replicate_succ, List.cons_append]
      congr 3
      omega

theorem behind_repeated (b : Block) (a : Act) (k : Nat) (origins origins' : Option (Array (Option Place))) :
    Program.Behind k ⟨(b.instrs 0).toArray, origins⟩ ⟨((repeated a k b).instrs 0).toArray, origins'⟩ := by
  intro i
  rw [instrs_repeated, instrs_later, List.getElem?_toArray, List.getElem?_toArray,
    List.getElem?_append_right (by simp), List.length_replicate, Nat.add_sub_cancel_left,
    List.getElem?_map]

end Block

/-- The runs stop for the same reason, the second `k` instructions further back. -/
inductive Outcome.Later (k : Nat) : Outcome → Outcome → Prop where
  | halted : Later k .halted .halted
  | noInput (ip : Nat) (place place' : Place) :
    Later k (.fault (.noInput ip place)) (.fault (.noInput (k + ip) place'))
  | unfinished : Later k .unfinished .unfinished

theorem Outcome.Later.unfinished_iff {k : Nat} {o o' : Outcome} (h : o.Later k o') :
    o = .unfinished ↔ o' = .unfinished := by
  cases h <;> simp

namespace Machine

variable {p q : Program} {s : Settings} {k : Nat} {d : Int} {m m' : Machine}

/-- Machine `m'` has done what machine `m` has done, `d` cells from there, in a program that
has `k` more instructions in front and after as many more steps. -/
structure Displaced (k : Nat) (d : Int) (m m' : Machine) : Prop where
  ip : m'.ip = k + m.ip
  memory : m'.memory = m.memory.moved d
  steps : m'.steps = m.steps + k

namespace Displaced

theorem cell (h : Displaced k d m m') : m'.cell = m.cell := by
  rw [← cell_memory, h.memory, Memory.cell_moved, cell_memory]

/-- How two machines go on of which one is displaced. -/
inductive Pace (k : Nat) (d : Int) : Tick → Tick → Prop where
  | went {n n' : Machine} (along : Displaced k d n n') : Pace k d (.went n) (.went n')
  | stopped {n n' : Machine} {o o' : Outcome} (along : Displaced k d n n') (reason : o.Later k o') :
    Pace k d (.stopped n o) (.stopped n' o')

theorem pace (h : Displaced k d m m') (paired : p.Paired) (behind : p.Behind k q)
    (free : s.budget = none) : Pace k d (m.tick p s) (m'.tick q s) := by
  have unspent := spent_unlimited free m'
  have there : q.instrs[m'.ip]? = p.instrs[m.ip]?.map (Instr.later k) := by rw [h.ip, behind]
  have turn := turn paired s m
  generalize ticked : m.tick p s = result at turn
  have level {n n' : Machine} (went : m.tick p s = .went n) (went' : m'.tick q s = .went n') :
      n'.steps = n.steps + k := by
    rw [steps_of_went went', steps_of_went went, h.steps]
    omega
  cases turn with
  | halted past =>
      rw [past] at there
      rw [tick_halted there]
      exact .stopped h .halted
  | spent here used =>
      rw [spent_unlimited free] at used
      cases used
  | @acted a _ here memory ip steps =>
      rw [here] at there
      have further := m.memory.after_moved (d := d) s.endOfInput a
      rw [memory, ← h.memory] at further
      obtain ⟨n', went', ip', memory'⟩ := tick_act unspent there further
      rw [went']
      exact .went ⟨by rw [ip', ip, h.ip, Nat.add_assoc], memory', level ticked went'⟩
  | @starved a here lacking =>
      rw [here] at there
      have further := m.memory.after_moved (d := d) s.endOfInput a
      rw [lacking, ← h.memory] at further
      rw [tick_starved unspent there further, h.ip]
      refine .stopped ⟨?_, ?_, ?_⟩ (.noInput ..)
      · rw [traced_ip, traced_ip, h.ip]
      · rw [traced_memory, traced_memory, h.memory]
      · rw [traced_steps, traced_steps, h.steps]
  | opened here memory ip steps =>
      rw [here] at there
      obtain ⟨n', went', ip', memory'⟩ := tick_loopOpen unspent there
      rw [went']
      refine .went ⟨?_, by rw [memory', memory, h.memory], level ticked went'⟩
      rw [ip', ip, h.cell, h.ip]
      split <;> rfl
  | closed here memory ip steps =>
      rw [here] at there
      obtain ⟨n', went', ip', memory'⟩ := tick_loopClose unspent there
      rw [went']
      refine .went ⟨?_, by rw [memory', memory, h.memory], level ticked went'⟩
      rw [ip', ip, h.cell, h.ip]
      split <;> rfl

theorem run (h : Displaced k d m m') (paired : p.Paired) (behind : p.Behind k q)
    (free : s.budget = none) (fuel : Nat) :
    Displaced k d (m.run p s fuel).1 (m'.run q s fuel).1 ∧
      (m.run p s fuel).2.Later k (m'.run q s fuel).2 := by
  induction fuel generalizing m m' with
  | zero => exact ⟨h, .unfinished⟩
  | succ fuel ih =>
      have pace := h.pace paired behind free
      generalize ticked : m.tick p s = tick at pace
      generalize ticked' : m'.tick q s = tick' at pace
      cases pace with
      | went along =>
          rw [run_went ticked, run_went ticked']
          exact ih along
      | stopped along reason =>
          rw [run_stopped ticked, run_stopped ticked']
          exact ⟨along, reason⟩

theorem ends (h : Displaced k d m m') (paired : p.Paired) (behind : p.Behind k q)
    (free : s.budget = none) {n : Machine} {o : Outcome} (ends : Ends p s m n o) :
    ∃ n' o', Ends q s m' n' o' ∧ o.Later k o' ∧ Displaced k d n n' := by
  obtain ⟨finished, fuel, stops⟩ := ends
  obtain ⟨along, reason⟩ := h.run paired behind free fuel
  rw [stops] at along reason
  exact ⟨_, _, ⟨mt reason.unfinished_iff.mpr finished, fuel, rfl⟩, reason, along⟩

theorem ends_back (h : Displaced k d m m') (paired : p.Paired) (behind : p.Behind k q)
    (free : s.budget = none) {n' : Machine} {o' : Outcome} (ends : Ends q s m' n' o') :
    ∃ n o, Ends p s m n o ∧ o.Later k o' := by
  obtain ⟨finished, fuel, stops⟩ := ends
  obtain ⟨-, reason⟩ := h.run paired behind free fuel
  rw [stops] at reason
  exact ⟨_, _, ⟨mt reason.unfinished_iff.mp finished, fuel, rfl⟩, reason⟩

end Displaced

/-- The first instructions of a program move the pointer and do nothing else. -/
theorem exists_steps_repeated (free : s.budget = none) {a : Act} {step : Int}
    (moves : ∀ mem : Memory, mem.after s.endOfInput a = some { mem with pointer := mem.pointer + step })
    (k : Nat) {b : Block} (sits : (Block.repeated a k b).Sits q m.ip) :
    ∃ m', Steps q s k m m' ∧ m'.ip = k + m.ip ∧
      m'.memory = { m.memory with pointer := m.pointer + k * step } := by
  induction k generalizing m with
  | zero => exact ⟨m, .refl m, (Nat.zero_add _).symm, by simp [memory]⟩
  | succ k ih =>
      obtain ⟨here, behind⟩ := sits.act
      obtain ⟨m₁, went, ip, same⟩ := tick_act (spent_unlimited free m) here (moves m.memory)
      obtain ⟨m', steps, further, memory⟩ := ih (ip ▸ behind)
      refine ⟨m', .next went steps, by rw [further, ip]; omega, ?_⟩
      have pointer : m₁.pointer = m.pointer + step := congrArg Memory.pointer same
      have distance : m.pointer + step + k * step = m.pointer + ((k + 1 : Nat) : Int) * step := by
        rw [Int.natCast_succ, Int.add_mul, Int.one_mul]
        omega
      rw [memory, same, pointer, distance]

/-- The operations with moves in front of them. Behind the moves there is a machine that is
displaced by them. -/
theorem exists_behind (b : Block) (k : Nat) {a : Act} {step : Int}
    (moves : ∀ (policy : EndOfInput) (mem : Memory),
      mem.after policy a = some { mem with pointer := mem.pointer + step })
    (origins origins' : Option (Array (Option Place))) :
    ∃ p q, Program.ofOps b.ops origins = .ok p ∧
      Program.ofOps (List.replicate k a.op ++ b.ops) origins' = .ok q ∧ p.Paired ∧ p.Behind k q ∧
      ∀ (input : List UInt8) {s : Settings}, s.budget = none →
        ∃ m₁, Steps q s k (.start input) m₁ ∧ Displaced k (k * step) (.start input) m₁ := by
  have linked := b.ofOps_ops origins
  have linked' := (Block.repeated a k b).ofOps_ops origins'
  rw [Block.ops_repeated] at linked'
  refine ⟨_, _, linked, linked', Program.paired_of_ofOps linked,
    b.behind_repeated a k origins origins', fun input s free => ?_⟩
  have sits := (Block.repeated a k b).sits_program origins'
  obtain ⟨m₁, steps, ip, memory⟩ :=
    exists_steps_repeated (m := .start input) free (moves s.endOfInput) k sits
  refine ⟨m₁, steps, ip, ?_, steps.count⟩
  rw [memory]
  simp only [Memory.moved, Machine.memory, start, Tape.moved_blank]

/-- It does not matter where on the tape a program begins. Put `k` moves to one side in front of
it: the program halts or lacks input when and where it did before, in the same way but for the
moves. It has put out and left unread the same bytes, and it has taken `k` more steps. Its
pointer and all of its stored cells are `k` further to that side, also across the origin. -/
theorem position_independent {ops : List Op} (balanced : Balanced .loopOpen .loopClose ops) (k : Nat)
    {shift : Op} {d : Int} (side : shift = .right ∧ d = k ∨ shift = .left ∧ d = -(k : Int))
    (origins origins' : Option (Array (Option Place))) :
    ∃ p q, Program.ofOps ops origins = .ok p ∧
      Program.ofOps (List.replicate k shift ++ ops) origins' = .ok q ∧
      ∀ (input : List UInt8) (s : Settings), s.budget = none →
        ((∃ m, Ends p s (.start input) m .halted) ↔ ∃ m', Ends q s (.start input) m' .halted) ∧
        (∀ m m', Ends p s (.start input) m .halted → Ends q s (.start input) m' .halted →
          Displaced k d m m') ∧
        ((∃ m ip place, Ends p s (.start input) m (.fault (.noInput ip place))) ↔
          ∃ m' ip' place', Ends q s (.start input) m' (.fault (.noInput ip' place'))) ∧
        ∀ m ip place m' ip' place', Ends p s (.start input) m (.fault (.noInput ip place)) →
          Ends q s (.start input) m' (.fault (.noInput ip' place')) →
          ip' = k + ip ∧ Displaced k d m m' := by
  obtain ⟨b, rfl⟩ := Block.balanced_iff.mp balanced
  obtain ⟨a, step, rfl, rfl, moves⟩ : ∃ (a : Act) (step : Int), shift = a.op ∧ d = k * step ∧
      ∀ (policy : EndOfInput) (mem : Memory),
        mem.after policy a = some { mem with pointer := mem.pointer + step } := by
    rcases side with ⟨rfl, rfl⟩ | ⟨rfl, rfl⟩
    · exact ⟨.right, 1, rfl, (Int.mul_one _).symm, fun _ _ => rfl⟩
    · exact ⟨.left, -1, rfl, by omega, fun _ _ => rfl⟩
  obtain ⟨p, q, linked, linked', paired, behind, reach⟩ := exists_behind b k moves origins origins'
  refine ⟨p, q, linked, linked', fun input s free => ?_⟩
  obtain ⟨m₁, steps, begin⟩ := reach input free
  have agree {m m' : Machine} {o o' : Outcome} (ends : Ends p s (.start input) m o)
      (ends' : Ends q s (.start input) m' o') : o.Later k o' ∧ Displaced k (k * step) m m' := by
    obtain ⟨_, _, there, reason, along⟩ := begin.ends paired behind free ends
    obtain ⟨rfl, rfl⟩ := ends'.unique (steps.ends_iff.mp there)
    exact ⟨reason, along⟩
  refine ⟨⟨?_, ?_⟩, fun m m' ends ends' => (agree ends ends').2, ⟨?_, ?_⟩, ?_⟩
  · rintro ⟨m, ends⟩
    obtain ⟨m', _, ends', reason, -⟩ := begin.ends paired behind free ends
    cases reason
    exact ⟨m', steps.ends_iff.mp ends'⟩
  · rintro ⟨m', ends'⟩
    obtain ⟨m, _, ends, reason⟩ := begin.ends_back paired behind free (steps.ends_iff.mpr ends')
    cases reason
    exact ⟨m, ends⟩
  · rintro ⟨m, ip, place, ends⟩
    obtain ⟨m', _, ends', reason, -⟩ := begin.ends paired behind free ends
    cases reason
    exact ⟨m', _, _, steps.ends_iff.mp ends'⟩
  · rintro ⟨m', ip', place', ends'⟩
    obtain ⟨m, _, ends, reason⟩ := begin.ends_back paired behind free (steps.ends_iff.mpr ends')
    cases reason
    exact ⟨m, _, _, ends⟩
  · intro m ip place m' ip' place' ends ends'
    obtain ⟨reason, along⟩ := agree ends ends'
    cases reason
    exact ⟨rfl, along⟩

/-- Bytes are read into one cell until one is zero, and counted in the cell before it. -/
def tallying : List Op :=
  [.right, .input, .loopOpen, .left, .increment, .right, .input, .loopClose]

def tallyingProgram : Program :=
  ⟨#[⟨.right, none⟩, ⟨.input, none⟩, ⟨.loopOpen, some 7⟩, ⟨.left, none⟩, ⟨.increment, none⟩,
    ⟨.right, none⟩, ⟨.input, none⟩, ⟨.loopClose, some 2⟩], none⟩

/-- From three cells to the left, with a zero byte to read and without one. -/
theorem position_independent_tallying :
    Balanced .loopOpen .loopClose tallying ∧
      ∃ q, Program.ofOps ([.left, .left, .left] ++ tallying) none = .ok q ∧
        (∃ m', Ends q ⟨.fault, false, none⟩ (.start [5, 0, 9]) m' .halted ∧ m'.steps = 11 ∧
          m'.memory.pointer = -2 ∧ m'.memory.tape.toList = [(-3, 1), (-2, 0)] ∧
          m'.memory.input = [9]) ∧
        ∃ m' place', Ends q ⟨.fault, true, none⟩ (.start [5]) m' (.fault (.noInput 9 place')) ∧
          m'.steps = 9 ∧ m'.memory.tape.toList = [(-3, 1), (-2, 5)] := by
  have balanced : Balanced .loopOpen .loopClose tallying := by decide
  have side : Op.left = .right ∧ (-3 : Int) = 3 ∨ Op.left = .left ∧ (-3 : Int) = -3 :=
    .inr ⟨rfl, rfl⟩
  obtain ⟨p, q, linked, linked', same⟩ := position_independent balanced 3 side none none
  obtain rfl : tallyingProgram = p := Except.ok.inj linked
  refine ⟨balanced, q, linked', ?_, ?_⟩
  · obtain ⟨halts, agree, -⟩ := same [5, 0, 9] ⟨.fault, false, none⟩ rfl
    let final := ((Machine.start [5, 0, 9]).run tallyingProgram ⟨.fault, false, none⟩ 9).1
    have ends : Ends tallyingProgram ⟨.fault, false, none⟩ (.start [5, 0, 9]) final .halted :=
      ⟨by decide, 9, rfl⟩
    obtain ⟨m', ends'⟩ := halts.mp ⟨final, ends⟩
    have displaced := agree final m' ends ends'
    refine ⟨m', ends', displaced.steps, ?_⟩
    rw [displaced.memory]
    exact ⟨rfl, by decide +kernel, rfl⟩
  · obtain ⟨-, -, starves, agree⟩ := same [5] ⟨.fault, true, none⟩ rfl
    let final := ((Machine.start [5]).run tallyingProgram ⟨.fault, true, none⟩ 9).1
    have ends : Ends tallyingProgram ⟨.fault, true, none⟩ (.start [5]) final
        (.fault (.noInput 6 (.instruction 6))) := ⟨by decide, 9, rfl⟩
    obtain ⟨m', ip', place', ends'⟩ := starves.mp ⟨final, _, _, ends⟩
    obtain ⟨rfl, displaced⟩ := agree final _ _ m' ip' place' ends ends'
    refine ⟨m', place', ends', displaced.steps, ?_⟩
    rw [displaced.memory]
    decide +kernel

end Machine

end ByteTape
