import ByteTape.Proofs.Bracket.Blame

/-! # Blocks inside programs

Operations that are balanced by themselves may be put anywhere into a balanced sequence,
also inside a loop, and there they are the block that they are alone. A machine that comes
to such a block passes it in as many steps as the block runs. It does not come to its end
any sooner, since up to there it can as well run on a program that ends with the block.
-/

namespace ByteTape

namespace Block

theorem instrs_append (b c : Block) (i : Nat) :
    (b.append c).instrs i = b.instrs i ++ c.instrs (i + b.length) := by
  induction b generalizing i with
  | done => rfl
  | act a rest ih =>
      rw [append, instrs, instrs, ih, length_act, List.cons_append]
      congr 3
      omega
  | loop body rest _ ih =>
      rw [append, instrs, instrs, ih, length_loop]
      simp only [List.cons_append, List.append_assoc]
      congr 5
      omega

theorem Sits.front {p : Program} {i : Nat} {b c : Block} (h : Sits p i (b.append c)) : Sits p i b := by
  unfold Sits at h
  rw [instrs_append] at h
  exact h.left

theorem cut_loop {body rest : Block} {pre post : List Op}
    (whole : body.ops ++ .loopClose :: rest.ops = pre ++ post) :
    (∃ tail, body.ops = pre ++ tail ∧ post = tail ++ .loopClose :: rest.ops) ∨
      ∃ tail, pre = body.ops ++ .loopClose :: tail ∧ rest.ops = tail ++ post := by
  rcases List.append_eq_append_iff.mp whole with ⟨tail, front, close⟩ | ⟨tail, front, close⟩
  · cases tail with
    | nil => exact .inl ⟨[], by simpa using front.symm, by simpa using close.symm⟩
    | cons op tail =>
        obtain ⟨rfl, behind⟩ := List.cons.inj close
        exact .inr ⟨tail, front, behind⟩
  · exact .inl ⟨tail, front, close⟩

theorem exists_inserted (b : Block) {c : Block} {pre post : List Op} (whole : c.ops = pre ++ post) :
    ∃ d : Block, d.ops = pre ++ b.ops ++ post ∧
      ∀ {p : Program} {i : Nat}, Sits p i d → Sits p (i + pre.length) b := by
  induction c generalizing pre post with
  | done =>
      obtain ⟨rfl, rfl⟩ := List.append_eq_nil_iff.mp whole.symm
      exact ⟨b, (List.append_nil _).symm, id⟩
  | act a rest ih =>
      cases pre with
      | nil => exact ⟨b.append (.act a rest), by rw [ops_append, whole]; rfl, Sits.front⟩
      | cons op pre =>
          obtain ⟨rfl, behind⟩ := List.cons.inj whole
          obtain ⟨d, spelled, inside⟩ := ih behind
          refine ⟨.act a d, by rw [ops, spelled]; rfl, fun {p i} sits => ?_⟩
          rw [List.length_cons, Nat.add_comm pre.length, ← Nat.add_assoc]
          exact inside sits.act.2
  | loop body rest ihBody ihRest =>
      cases pre with
      | nil => exact ⟨b.append (.loop body rest), by rw [ops_append, whole]; rfl, Sits.front⟩
      | cons op pre =>
          obtain ⟨rfl, behind⟩ := List.cons.inj whole
          rcases cut_loop behind with ⟨tail, front, rfl⟩ | ⟨tail, rfl, back⟩
          · obtain ⟨d, spelled, inside⟩ := ihBody front
            refine ⟨.loop d rest, by simp [ops, spelled], fun {p i} sits => ?_⟩
            rw [List.length_cons, Nat.add_comm pre.length, ← Nat.add_assoc]
            exact inside sits.loop.2.1
          · obtain ⟨d, spelled, inside⟩ := ihRest back
            refine ⟨.loop body d, by simp [ops, spelled], fun {p i} sits => ?_⟩
            have place : i + (.loopOpen :: (body.ops ++ .loopClose :: tail)).length =
                i + 1 + body.length + 1 + tail.length := by
              simp only [List.length_cons, List.length_append, length]
              omega
            rw [place]
            exact inside sits.loop.2.2.2

theorem Sits.exists_cut {p : Program} {i : Nat} {b : Block} (h : Sits p i b) :
    ∃ p', Sits p' i b ∧ p'.size = i + b.length ∧ ∀ j < p'.size, p.instrs[j]? = p'.instrs[j]? := by
  obtain ⟨front, back, start, whole⟩ := h
  refine ⟨⟨(front ++ b.instrs i).toArray, none⟩, ⟨front, [], start, by simp⟩, ?_, ?_⟩
  · simp [Program.size, start]
  · intro j inside
    have inside : j < (front ++ b.instrs i).length := inside
    rw [← Array.getElem?_toList, whole, ← List.append_assoc, List.getElem?_append_left inside,
      List.getElem?_toArray]

end Block

namespace Machine

variable {p p' : Program} {s : Settings} {m m' : Machine} {k : Nat}

theorem jump_elsewhere (p : Program) {target : Option Nat} (jumped : m.jump p' target = (m', none)) :
    m.jump p target = (m', none) := by
  cases target with
  | some t => exact jumped
  | none => cases jumped

theorem readInput_elsewhere (p : Program) {policy : EndOfInput}
    (got : m.readInput p' policy = (m', none)) : m.readInput p policy = (m', none) := by
  unfold readInput at got ⊢
  cases input : m.input with
  | cons b rest => rwa [input] at got
  | nil =>
      rw [input] at got
      cases policy with
      | zero | keep => exact got
      | fault => cases got

theorem exec_elsewhere (p : Program) {i : Instr} (carried : m.exec p' s i = (m', none)) :
    m.exec p s i = (m', none) := by
  unfold exec at carried ⊢
  cases op : i.op with
  | right | left | increment | decrement | output | debug => rwa [op] at carried
  | input =>
      rw [op] at carried
      exact readInput_elsewhere p carried
  | loopOpen =>
      rw [op] at carried
      by_cases zero : m.cell = 0
      · simp only [zero, if_true] at carried ⊢
        exact jump_elsewhere p carried
      · simp only [zero, if_false] at carried ⊢
        exact carried
  | loopClose =>
      rw [op] at carried
      by_cases zero : m.cell = 0
      · simp only [zero, if_true] at carried ⊢
        exact carried
      · simp only [zero, if_false] at carried ⊢
        exact jump_elsewhere p carried

theorem tick_elsewhere (same : p.instrs[m.ip]? = p'.instrs[m.ip]?) (went : m.tick p' s = .went m') :
    m.tick p s = .went m' := by
  obtain ⟨i, m₀, here, free, carried, rfl⟩ := exec_of_went went
  exact tick_went (same.trans here) free (exec_elsewhere p carried)

/-- Steps on a program are steps on every program that begins with it, and up to the last of
them the machine stays on the first program. -/
theorem Steps.elsewhere (same : ∀ j < p'.size, p.instrs[j]? = p'.instrs[j]?) (h : Steps p' s k m m') :
    Steps p s k m m' ∧ ∀ l m₁, l < k → Steps p s l m m₁ → m₁.ip < p'.size := by
  induction h with
  | refl m => exact ⟨.refl m, fun l m₁ sooner => absurd sooner (Nat.not_lt_zero l)⟩
  | next went _ ih =>
      obtain ⟨i, here⟩ := exists_of_went went
      have inside := Program.lt_size_of_getElem? here
      have went' := tick_elsewhere (same _ inside) went
      obtain ⟨steps, within⟩ := ih
      refine ⟨.next went' steps, fun l m₁ sooner path => ?_⟩
      cases path with
      | refl => exact inside
      | next first rest =>
          cases went'.symm.trans first
          exact within _ m₁ (Nat.lt_of_succ_lt_succ sooner) rest

end Machine

/-- A machine in front of a block that runs to its end passes it in as many steps, and is
inside before. -/
theorem Block.Runs.passed {p : Program} {s : Settings} {b : Block} {m : Machine} {k : Nat} {mem : Memory}
    (free : s.budget = none) (sits : b.Sits p m.ip)
    (runs : b.Runs s.endOfInput m.memory k (.finished mem)) :
    ∃ m', Machine.Steps p s k m m' ∧ m'.ip = m.ip + b.length ∧ m'.memory = mem ∧
      ∀ l m₁, l < k → Machine.Steps p s l m m₁ → m₁.ip < m.ip + b.length := by
  obtain ⟨p', sits', size, same⟩ := Sits.exists_cut sits
  obtain ⟨m', steps, atEnd, memory⟩ := runs.followed free sits' rfl rfl
  obtain ⟨steps, within⟩ := steps.elsewhere same
  rw [size] at within
  exact ⟨m', steps, atEnd, memory, within⟩

end ByteTape
