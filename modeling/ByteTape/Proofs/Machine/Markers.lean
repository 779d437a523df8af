import ByteTape.Proofs.Machine.Turns

/-! # Programs without their debug markers

Leaving the debug markers out of a program moves its instructions and all of its jump
targets, and changes nothing about what it does. Its machine stands still while the
machine of the whole program goes over markers, and otherwise the two go in step.
-/

namespace ByteTape

namespace Program

variable {p q : Program} {k : Nat} {x : Instr}

/-- The number of instructions before index `k` that are no markers. -/
def rank (p : Program) (k : Nat) : Nat := (p.instrs.toList.take k).countP fun x => x.op != .debug

theorem rank_succ (here : p.instrs[k]? = some x) :
    p.rank (k + 1) = p.rank k + if x.op = .debug then 0 else 1 := by
  rw [← Array.getElem?_toList] at here
  by_cases marker : x.op = .debug <;> simp [rank, List.take_add_one, here, marker]

theorem Fits.rank_behind {t : Nat} (fits : p.Fits k x) (leads : x.target = some t) :
    p.rank (t + 1) = p.rank t + 1 := by
  cases fits with
  | act => cases leads
  | opening _ partner | closing _ partner =>
      cases leads
      exact rank_succ partner

theorem rank_of_size_le (past : p.size ≤ k) : p.rank k = p.rank p.size := by
  rw [rank, rank, List.take_of_length_le past, List.take_of_length_le (Nat.le_refl p.size)]

/-- Program `q` has the instructions of program `p` that are no markers. An instruction
stands at its rank, and its target is the rank of the old one. -/
structure Unmarks (p q : Program) : Prop where
  instr : ∀ {k x}, p.instrs[k]? = some x → x.op ≠ .debug →
    q.instrs[p.rank k]? = some ⟨x.op, x.target.map p.rank⟩
  past : ∀ {k}, p.instrs[k]? = none → q.instrs[p.rank k]? = none

end Program

theorem Act.op_eq_debug_iff (a : Act) : a.op = .debug ↔ a = .debug := by
  cases a <;> decide

namespace Block

def unmarked : Block → Block
  | done => done
  | act a rest => if a = .debug then rest.unmarked else act a rest.unmarked
  | loop body rest => loop body.unmarked rest.unmarked

theorem ops_unmarked (b : Block) : b.unmarked.ops = b.ops.filter (· != .debug) := by
  induction b with
  | done => rfl
  | act a rest ih =>
      by_cases marker : a = .debug
      · simp [unmarked, ops, ih, marker, Act.op]
      · simp [unmarked, ops, ih, marker, Act.op_eq_debug_iff]
  | loop body rest ihBody ihRest => simp [unmarked, ops, ihBody, ihRest]

variable {p q : Program} {b : Block} {i : Nat}

theorem Sits.rank_behind (sits : Sits p i b) : p.rank (i + b.length) = p.rank i + b.unmarked.length := by
  induction b generalizing i with
  | done => rfl
  | act a rest ih =>
      obtain ⟨here, behind⟩ := sits.act
      have first := Program.rank_succ here
      have others := ih behind
      rw [length_act, show i + (rest.length + 1) = i + 1 + rest.length by omega, others, first]
      by_cases marker : a = .debug
      · rw [unmarked, if_pos marker, if_pos (a.op_eq_debug_iff.mpr marker), Nat.add_zero]
      · rw [unmarked, if_neg marker, if_neg (mt a.op_eq_debug_iff.mp marker), length_act]
        omega
  | loop body rest ihBody ihRest =>
      obtain ⟨opening, inside, closing, behind⟩ := sits.loop
      have first : p.rank (i + 1) = p.rank i + 1 := Program.rank_succ opening
      have within := ihBody inside
      have last : p.rank (i + 1 + body.length + 1) = p.rank (i + 1 + body.length) + 1 :=
        Program.rank_succ closing
      have others := ihRest behind
      rw [length_loop, show i + (body.length + rest.length + 2) =
        i + 1 + body.length + 1 + rest.length by omega, unmarked, length_loop]
      omega

theorem Sits.unmarks (sits : Sits p i b) (sits' : Sits q (p.rank i) b.unmarked) {k : Nat} {x : Instr}
    (lower : i ≤ k) (upper : k < i + b.length) (here : p.instrs[k]? = some x) (plain : x.op ≠ .debug) :
    q.instrs[p.rank k]? = some ⟨x.op, x.target.map p.rank⟩ := by
  induction b generalizing i with
  | done =>
      rw [length_done] at upper
      omega
  | act a rest ih =>
      obtain ⟨first, behind⟩ := sits.act
      have next := Program.rank_succ first
      rw [length_act] at upper
      by_cases marker : a = .debug
      · -- a marker has no place of its own
        rw [unmarked, if_pos marker] at sits'
        rw [if_pos (a.op_eq_debug_iff.mpr marker)] at next
        rcases Nat.eq_or_lt_of_le lower with rfl | later
        · cases here.symm.trans first
          exact absurd (a.op_eq_debug_iff.mpr marker) plain
        · exact ih behind (next ▸ sits') later (by omega)
      · rw [unmarked, if_neg marker] at sits'
        rw [if_neg (mt a.op_eq_debug_iff.mp marker)] at next
        obtain ⟨first', behind'⟩ := sits'.act
        rcases Nat.eq_or_lt_of_le lower with rfl | later
        · cases here.symm.trans first
          exact first'
        · exact ih behind (next ▸ behind') later (by omega)
  | loop body rest ihBody ihRest =>
      obtain ⟨opening, inside, closing, behind⟩ := sits.loop
      obtain ⟨opening', inside', closing', behind'⟩ := sits'.loop
      have first : p.rank (i + 1) = p.rank i + 1 := Program.rank_succ opening
      have within : p.rank (i + 1 + body.length) = p.rank i + 1 + body.unmarked.length := by
        rw [inside.rank_behind, first]
      have last : p.rank (i + 1 + body.length + 1) = p.rank i + 1 + body.unmarked.length + 1 := by
        rw [Program.rank_succ closing, within]
        rfl
      rw [length_loop] at upper
      rcases Nat.eq_or_lt_of_le lower with rfl | later
      · cases here.symm.trans opening
        rw [opening', ← within]
        rfl
      · rcases Nat.lt_trichotomy k (i + 1 + body.length) with before | rfl | after
        · exact ihBody inside (first ▸ inside') later before
        · cases here.symm.trans closing
          rw [within, closing']
          rfl
        · exact ihRest behind (last ▸ behind') after (by omega)

theorem unmarks_program (b : Block) (origins origins' : Option (Array (Option Place))) :
    Program.Unmarks ⟨(b.instrs 0).toArray, origins⟩ ⟨(b.unmarked.instrs 0).toArray, origins'⟩ := by
  have sits := b.sits_program origins
  have sits' := b.unmarked.sits_program origins'
  refine ⟨fun {k x} here plain => ?_, fun {k} past => ?_⟩
  · have inside : k < 0 + b.length := by
      simpa [Program.size] using Program.lt_size_of_getElem? here
    exact sits.unmarks sits' (Nat.zero_le k) inside here plain
  · have outside : b.length ≤ k := by simpa using past
    have size : Program.size ⟨(b.instrs 0).toArray, origins⟩ = 0 + b.length := by simp [Program.size]
    have last := sits.rank_behind
    rw [Program.rank_of_size_le (by rw [size]; omega), size, last]
    simp [Program.rank]

end Block

/-- Two runs stop for the same reason, though perhaps at other indices. -/
inductive Outcome.Alike : Outcome → Outcome → Prop where
  | halted : Alike .halted .halted
  | noInput (ip ip' : Nat) (origin origin' : Place) :
    Alike (.fault (.noInput ip origin)) (.fault (.noInput ip' origin'))

theorem Outcome.Alike.finished {o o' : Outcome} (h : Alike o o') :
    o ≠ .unfinished ∧ o' ≠ .unfinished := by
  cases h <;> simp

namespace Machine

variable {p q : Program} {s : Settings} {m m' : Machine}

/-- Machine `m'` of the program without markers has come as far as machine `m`. -/
structure Shadows (p : Program) (m m' : Machine) : Prop where
  ip : m'.ip = p.rank m.ip
  memory : m'.memory = m.memory

/-- How two machines that have come equally far go on. -/
inductive Pace (p q : Program) (s : Settings) (m m' : Machine) : Prop where
  | still {x : Instr} {n : Machine} (here : p.instrs[m.ip]? = some x) (marker : x.op = .debug)
    (went : m.tick p s = .went n) (next : n.ip = m.ip + 1) (along : Shadows p n m')
  | together {x y : Instr} {n n' : Machine} (here : p.instrs[m.ip]? = some x) (plain : x.op ≠ .debug)
    (went : m.tick p s = .went n) (here' : q.instrs[m'.ip]? = some y) (same : y.op = x.op)
    (went' : m'.tick q s = .went n') (along : Shadows p n n')
  | stopped {n n' : Machine} {o o' : Outcome} (stop : m.tick p s = .stopped n o)
    (stop' : m'.tick q s = .stopped n' o') (alike : o.Alike o') (memory : n'.memory = n.memory)

theorem Shadows.acted (h : Shadows p m m') (unmarks : p.Unmarks q) (free : s.budget = none) {a : Act}
    {n : Machine} (here : p.instrs[m.ip]? = some ⟨a.op, none⟩)
    (memory : m.memory.after s.endOfInput a = some n.memory) (ip : n.ip = m.ip + 1)
    (went : m.tick p s = .went n) : Pace p q s m m' := by
  have next := Program.rank_succ here
  by_cases marker : a.op = .debug
  · obtain rfl := a.op_eq_debug_iff.mp marker
    refine .still here marker went ip ⟨?_, ?_⟩
    · rw [ip, next, if_pos marker]
      exact h.ip
    · rw [h.memory]
      exact Option.some.inj memory
  · have here' := unmarks.instr here marker
    rw [← h.ip] at here'
    rw [← h.memory] at memory
    obtain ⟨n', went', ip', same⟩ := tick_act (spent_unlimited free m') here' memory
    refine .together here marker went here' rfl went' ⟨?_, same⟩
    rw [ip', ip, next, if_neg marker, h.ip]

theorem Shadows.cell (h : Shadows p m m') : m'.cell = m.cell := congrArg Memory.cell h.memory

theorem Shadows.pace (h : Shadows p m m') (paired : p.Paired) (unmarks : p.Unmarks q)
    (free : s.budget = none) : Pace p q s m m' := by
  have turn := turn paired s m
  generalize ticked : m.tick p s = result at turn
  cases turn with
  | halted past =>
      have past' := unmarks.past past
      rw [← h.ip] at past'
      exact .stopped ticked (tick_halted past') .halted h.memory
  | spent here used =>
      rw [spent_unlimited free] at used
      cases used
  | acted here memory ip steps => exact h.acted unmarks free here memory ip ticked
  | @starved a here lacking =>
      have plain : a.op ≠ .debug := by
        intro marker
        obtain rfl := a.op_eq_debug_iff.mp marker
        cases lacking
      have here' := unmarks.instr here plain
      rw [← h.ip] at here'
      rw [← h.memory] at lacking
      have stop' := tick_starved (spent_unlimited free m') here' lacking
      exact .stopped ticked stop' (.noInput ..) (by rw [traced_memory, traced_memory, h.memory])
  | opened here memory ip steps =>
      have here' := unmarks.instr here (by simp)
      rw [← h.ip] at here'
      obtain ⟨n', went', ip', same⟩ := tick_loopOpen (spent_unlimited free m') here'
      refine .together here (by simp) ticked here' rfl went' ⟨?_, by rw [same, memory, h.memory]⟩
      rw [ip', ip, h.cell]
      split
      · exact ((paired _ _ here).rank_behind rfl).symm
      · rw [h.ip]
        exact (Program.rank_succ here).symm
  | closed here memory ip steps =>
      have here' := unmarks.instr here (by simp)
      rw [← h.ip] at here'
      obtain ⟨n', went', ip', same⟩ := tick_loopClose (spent_unlimited free m') here'
      refine .together here (by simp) ticked here' rfl went' ⟨?_, by rw [same, memory, h.memory]⟩
      rw [ip', ip, h.cell]
      split
      · rw [h.ip]
        exact (Program.rank_succ here).symm
      · exact ((paired _ _ here).rank_behind rfl).symm

/-- What the program does to its end, the program without markers does too, and it carries
out the same operations but for the markers. -/
theorem Shadows.run (h : Shadows p m m') (paired : p.Paired) (unmarks : p.Unmarks q)
    (free : s.budget = none) {fuel : Nat} {n : Machine} {o : Outcome}
    (ends : m.run p s fuel = (n, o)) (finished : o ≠ .unfinished) :
    ∃ fuel' n' o', m'.run q s fuel' = (n', o') ∧ o.Alike o' ∧ n'.memory = n.memory ∧
      m'.carried q s fuel' = (m.carried p s fuel).filter (· != .debug) := by
  induction fuel generalizing m m' with
  | zero =>
      cases ends
      exact absurd rfl finished
  | succ fuel ih =>
      cases h.pace paired unmarks free with
      | still here marker went next along =>
          rw [run_went went] at ends
          obtain ⟨fuel', n', o', ends', alike, memory, carried⟩ := ih along ends
          refine ⟨fuel', n', o', ends', alike, memory, ?_⟩
          rw [carried, carried_went here went]
          simp [marker]
      | together here plain went here' same went' along =>
          rw [run_went went] at ends
          obtain ⟨fuel', n', o', ends', alike, memory, carried⟩ := ih along ends
          refine ⟨fuel' + 1, n', o', ?_, alike, memory, ?_⟩
          · rwa [run_went went']
          · rw [carried_went here' went', carried, carried_went here went]
            simp [same, plain]
      | stopped stop stop' alike memory =>
          rw [run_stopped stop] at ends
          cases ends
          refine ⟨1, _, _, run_stopped stop' 0, alike, memory, ?_⟩
          rw [carried_stopped stop, carried_stopped stop', List.filter_nil]

/-- If the program without markers comes to an end, so does the program: it cannot go over
markers for ever, since each of them brings it closer to its last instruction. -/
theorem Shadows.finishes (h : Shadows p m m') (paired : p.Paired) (unmarks : p.Unmarks q)
    (free : s.budget = none) {fuel' : Nat} (finished : (m'.run q s fuel').2 ≠ .unfinished) :
    ∃ fuel, (m.run p s fuel).2 ≠ .unfinished := by
  induction fuel' generalizing m m' with
  | zero => exact absurd rfl finished
  | succ fuel' ih =>
      induction ahead : p.size - m.ip using Nat.strong_induction_on generalizing m with
      | _ ahead closer =>
          cases h.pace paired unmarks free with
          | @still _ n here marker went next along =>
              have inside := Program.lt_size_of_getElem? here
              obtain ⟨fuel, ends⟩ := closer (p.size - n.ip) (by omega) along rfl
              exact ⟨fuel + 1, by rwa [run_went went]⟩
          | together here plain went here' same went' along =>
              rw [run_went went'] at finished
              obtain ⟨fuel, ends⟩ := ih along finished
              exact ⟨fuel + 1, by rwa [run_went went]⟩
          | stopped stop stop' alike memory =>
              refine ⟨1, ?_⟩
              rw [run_stopped stop]
              exact alike.finished.1

end Machine

theorem Op.length_filter_add_count (ops : List Op) :
    (ops.filter (· != .debug)).length + ops.count .debug = ops.length := by
  have all := List.length_eq_countP_add_countP (· != Op.debug) (l := ops)
  rw [all, List.countP_eq_length_filter, List.count]
  congr 1
  apply List.countP_congr
  intro o _
  simp

namespace Program.Unmarks

variable {p q : Program} {s : Settings}

/-- From the same input, a program and the program without its markers come to the same
ending with the same memory, and the steps differ by the markers that were carried out. -/
theorem agrees (unmarks : p.Unmarks q) (paired : p.Paired) (paired' : q.Paired) (free : s.budget = none)
    {input : List UInt8} {fuel fuel' : Nat} {m m' : Machine} {o o' : Outcome}
    (ends : (Machine.start input).run p s fuel = (m, o)) (finished : o ≠ .unfinished)
    (ends' : (Machine.start input).run q s fuel' = (m', o')) (finished' : o' ≠ .unfinished) :
    o.Alike o' ∧ m.memory = m'.memory ∧
      m.steps = m'.steps + ((Machine.start input).carried p s fuel).count .debug := by
  have begin : Machine.Shadows p (.start input) (.start input) := ⟨rfl, rfl⟩
  obtain ⟨enough, n', _, shadowed, alike, memory, carried⟩ := begin.run paired unmarks free ends finished
  obtain ⟨rfl, rfl⟩ := Machine.Ends.unique ⟨finished', fuel', ends'⟩ ⟨alike.finished.2, enough, shadowed⟩
  refine ⟨alike, memory.symm, ?_⟩
  have steps := Machine.steps_run paired s fuel (.start input)
  have steps' := Machine.steps_run paired' s enough (.start input)
  have counted := Op.length_filter_add_count ((Machine.start input).carried p s fuel)
  rw [ends] at steps
  rw [shadowed, carried] at steps'
  dsimp only at steps steps'
  omega

theorem ends_without (unmarks : p.Unmarks q) (paired : p.Paired) (free : s.budget = none)
    {input : List UInt8} {fuel : Nat} {m : Machine} {o : Outcome}
    (ends : (Machine.start input).run p s fuel = (m, o)) (finished : o ≠ .unfinished) :
    ∃ fuel' m' o', (Machine.start input).run q s fuel' = (m', o') ∧ o.Alike o' := by
  have begin : Machine.Shadows p (.start input) (.start input) := ⟨rfl, rfl⟩
  obtain ⟨fuel', m', o', ends', alike, -⟩ := begin.run paired unmarks free ends finished
  exact ⟨fuel', m', o', ends', alike⟩

theorem ends_with (unmarks : p.Unmarks q) (paired : p.Paired) (paired' : q.Paired)
    (free : s.budget = none) {input : List UInt8} {fuel' : Nat} {m' : Machine} {o' : Outcome}
    (ends' : (Machine.start input).run q s fuel' = (m', o')) (finished' : o' ≠ .unfinished) :
    ∃ fuel m o, (Machine.start input).run p s fuel = (m, o) ∧ o.Alike o' := by
  have begin : Machine.Shadows p (.start input) (.start input) := ⟨rfl, rfl⟩
  obtain ⟨fuel, finished⟩ := begin.finishes paired unmarks free (by rwa [ends'])
  rcases ends : (Machine.start input).run p s fuel with ⟨m, o⟩
  rw [ends] at finished
  obtain ⟨alike, -⟩ := unmarks.agrees paired paired' free ends finished ends' finished'
  exact ⟨fuel, m, o, ends, alike⟩

theorem halts_iff (unmarks : p.Unmarks q) (paired : p.Paired) (paired' : q.Paired)
    (free : s.budget = none) (input : List UInt8) :
    (∃ fuel m, (Machine.start input).run p s fuel = (m, .halted)) ↔
      ∃ fuel m, (Machine.start input).run q s fuel = (m, .halted) := by
  constructor
  · rintro ⟨fuel, m, ends⟩
    obtain ⟨fuel', m', _, ends', alike⟩ := unmarks.ends_without paired free ends nofun
    cases alike
    exact ⟨fuel', m', ends'⟩
  · rintro ⟨fuel', m', ends'⟩
    obtain ⟨fuel, m, _, ends, alike⟩ := unmarks.ends_with paired paired' free ends' nofun
    cases alike
    exact ⟨fuel, m, ends⟩

theorem starves_iff (unmarks : p.Unmarks q) (paired : p.Paired) (paired' : q.Paired)
    (free : s.budget = none) (input : List UInt8) :
    (∃ fuel m i place, (Machine.start input).run p s fuel = (m, .fault (.noInput i place))) ↔
      ∃ fuel m i place, (Machine.start input).run q s fuel = (m, .fault (.noInput i place)) := by
  constructor
  · rintro ⟨fuel, m, i, place, ends⟩
    obtain ⟨fuel', m', _, ends', alike⟩ := unmarks.ends_without paired free ends nofun
    cases alike
    exact ⟨fuel', m', _, _, ends'⟩
  · rintro ⟨fuel', m', i', place', ends'⟩
    obtain ⟨fuel, m, _, ends, alike⟩ := unmarks.ends_with paired paired' free ends' nofun
    cases alike
    exact ⟨fuel, m, _, _, ends⟩

end Program.Unmarks

end ByteTape
