import ByteTape.Proofs.Machine.Turns

/-! # Matching brackets

A loop of a sequence is an open and a close with balanced operations between them. An
open begins one loop at most, and two loops nest or stand apart. In a balanced sequence
every open begins a loop and every close ends one, and the targets of its program are
these loops: nothing else matches its brackets.
-/

namespace ByteTape

/-- The operations strictly between two indices. -/
def between (ops : List Op) (i j : Nat) : List Op := (ops.take j).drop (i + 1)

theorem between_split {ops : List Op} {i k j : Nat} {x : Op} (behind : i < k) (before : k < j)
    (here : ops[k]? = some x) : between ops i j = between ops i k ++ x :: between ops k j := by
  obtain ⟨inside, rfl⟩ := List.getElem?_eq_some_iff.mp here
  have near : ops.take j = ops.take k ++ ops[k] :: between ops k j := by
    have length : k < (ops.take j).length := by
      rw [List.length_take]
      omega
    conv_lhs => rw [← List.take_append_drop k (ops.take j), List.drop_eq_getElem_cons length]
    rw [List.take_take, Nat.min_eq_left (Nat.le_of_lt before), List.getElem_take, between]
  have room : i + 1 ≤ (ops.take k).length := by
    rw [List.length_take]
    omega
  rw [between, near, List.drop_append_of_le_length room]
  rfl

/-- An open and a close with balanced operations between them. -/
structure LoopAt (ops : List Op) (i j : Nat) : Prop where
  before : i < j
  opens : ops[i]? = some .loopOpen
  closes : ops[j]? = some .loopClose
  body : Balanced .loopOpen .loopClose (between ops i j)

namespace LoopAt

variable {ops : List Op} {i j i' j' : Nat}

/-- Where balanced operations go on with a close, they end in front of it. -/
theorem not_balanced_past (h : LoopAt ops i j) (past : j < j') :
    ¬ Balanced .loopOpen .loopClose (between ops i j') := by
  intro longer
  rw [between_split h.before past h.closes] at longer
  have front := longer.1 (between ops i j ++ [.loopClose]) ⟨between ops j j', by simp⟩
  have even := h.body.2
  simp only [List.count_append, List.count_singleton_self,
    List.count_singleton, beq_iff_eq, reduceCtorEq, if_false] at front
  omega

theorem close_unique (h : LoopAt ops i j) (h' : LoopAt ops i j') : j = j' := by
  rcases Nat.lt_trichotomy j j' with less | same | more
  · exact absurd h'.body (h.not_balanced_past less)
  · exact same
  · exact absurd h.body (h'.not_balanced_past more)

/-- A loop that begins inside another ends inside it. -/
theorem nested (outer : LoopAt ops i j) (inner : LoopAt ops i' j') (behind : i < i')
    (inside : i' < j) : j' < j := by
  by_contra late
  -- the inner open is closed at the outer close or later, so the outer body has one open too many
  have split := between_split behind inside inner.opens
  have front := outer.body.1 (between ops i i') ⟨_, split.symm⟩
  have total := outer.body.2
  rw [split] at total
  have rest : (between ops i' j).count .loopClose ≤ (between ops i' j).count .loopOpen := by
    rcases Nat.eq_or_lt_of_le (Nat.not_lt.mp late) with rfl | past
    · exact Nat.le_of_eq inner.body.2
    · exact inner.body.1 _ ⟨_, (between_split inside past outer.closes).symm⟩
  simp only [List.count_append, List.count_cons_self, List.count_cons, beq_iff_eq, reduceCtorEq,
    if_false] at total
  omega

theorem apart_or_inside (h : LoopAt ops i j) (h' : LoopAt ops i' j') (behind : i < i') :
    j < i' ∨ j' < j := by
  rcases Nat.lt_trichotomy j i' with less | rfl | more
  · exact .inl less
  · cases h.closes.symm.trans h'.opens
  · exact .inr (h.nested h' behind more)

end LoopAt

namespace Block

/-- Every open in the stretch of a block is the first operation of a loop that stands there. -/
theorem Sits.loop_at {p : Program} {b : Block} {i : Nat} (sits : Sits p i b) {j t : Nat}
    (lower : i ≤ j) (upper : j < i + b.length) (here : p.instrs[j]? = some ⟨.loopOpen, some t⟩) :
    ∃ body rest, Sits p j (.loop body rest) ∧ t = j + 1 + body.length := by
  induction b generalizing i with
  | done =>
      rw [length_done] at upper
      omega
  | act a rest ih =>
      obtain ⟨first, behind⟩ := sits.act
      rw [length_act] at upper
      rcases Nat.eq_or_lt_of_le lower with rfl | later
      · exact absurd (congrArg Instr.op (Option.some.inj (first.symm.trans here))) a.op_ne_loopOpen
      · exact ih behind later (by omega)
  | loop body rest ihBody ihRest =>
      obtain ⟨opening, inside, closing, behind⟩ := sits.loop
      rw [length_loop] at upper
      rcases Nat.eq_or_lt_of_le lower with rfl | later
      · cases opening.symm.trans here
        exact ⟨body, rest, sits, rfl⟩
      · rcases Nat.lt_trichotomy j (i + 1 + body.length) with before | rfl | after
        · exact ihBody inside later before
        · cases closing.symm.trans here
        · exact ihRest behind after (by omega)

theorem Sits.loopAt {p : Program} {body rest : Block} {i : Nat} (sits : Sits p i (.loop body rest)) :
    LoopAt p.ops i (i + 1 + body.length) := by
  obtain ⟨opening, -, closing, -⟩ := sits.loop
  obtain ⟨front, back, start, whole⟩ := sits
  have spelled : p.ops =
      front.map Instr.op ++ .loopOpen :: (body.ops ++ .loopClose :: (rest.ops ++ back.map Instr.op)) := by
    simp only [Program.ops, whole, List.map_append, map_op_instrs, ops, List.cons_append,
      List.append_assoc]
  have offset : (front.map Instr.op).length = i := by rw [List.length_map, start]
  have inner : between p.ops i (i + 1 + body.length) = body.ops := by
    rw [between, spelled, List.drop_take, Nat.add_sub_cancel_left, ← offset,
      List.drop_length_add_append]
    simp [Block.length]
  refine ⟨by omega, ?_, ?_, inner ▸ balanced_iff.mpr ⟨body, rfl⟩⟩
  · simp [Program.ops, opening]
  · simp [Program.ops, closing]

end Block

/-- What gives every index its target so that the brackets are matched: each open has the
close of its loop as its target, and this close has the open. -/
structure Matching (ops : List Op) (targets : List (Option Nat)) : Prop where
  size : targets.length = ops.length
  act : ∀ {i : Nat} {op : Op}, ops[i]? = some op → op ≠ .loopOpen → op ≠ .loopClose →
    targets[i]? = some none
  opening : ∀ {i : Nat}, ops[i]? = some .loopOpen →
    ∃ j, LoopAt ops i j ∧ targets[i]? = some (some j) ∧ targets[j]? = some (some i)

namespace Matching

variable {ops : List Op} {targets : List (Option Nat)} {i j : Nat}

theorem target_open (h : Matching ops targets) (loop : LoopAt ops i j) :
    targets[i]? = some (some j) := by
  obtain ⟨j', there, target, -⟩ := h.opening loop.opens
  rwa [loop.close_unique there]

theorem target_close (h : Matching ops targets) (loop : LoopAt ops i j) :
    targets[j]? = some (some i) := by
  obtain ⟨j', there, -, target⟩ := h.opening loop.opens
  rwa [loop.close_unique there]

/-- Where every close ends a loop, there is one matching. -/
theorem unique {targets' : List (Option Nat)}
    (closed : ∀ {j : Nat}, ops[j]? = some .loopClose → ∃ i, LoopAt ops i j)
    (h : Matching ops targets) (h' : Matching ops targets') : targets = targets' := by
  apply List.ext_getElem?
  intro k
  cases here : ops[k]? with
  | none =>
      have out := List.getElem?_eq_none_iff.mp here
      rw [List.getElem?_eq_none (by rw [h.size]; exact out),
        List.getElem?_eq_none (by rw [h'.size]; exact out)]
  | some op =>
      obtain rfl | rfl | ⟨a, rfl⟩ := op.bracket_or_act
      · obtain ⟨j, loop, -, -⟩ := h.opening here
        rw [h.target_open loop, h'.target_open loop]
      · obtain ⟨i, loop⟩ := closed here
        rw [h.target_close loop, h'.target_close loop]
      · rw [h.act here a.op_ne_loopOpen a.op_ne_loopClose, h'.act here a.op_ne_loopOpen a.op_ne_loopClose]

end Matching

namespace Program

variable {ops : List Op} {origins : Option (Array (Option Place))} {p : Program} {i j : Nat}

theorem ops_of_ofOps (linked : ofOps ops origins = .ok p) : p.ops = ops := by
  obtain ⟨b, rfl, rfl⟩ := Block.exists_of_ofOps linked
  simp only [Program.ops, Block.map_op_instrs]

theorem exists_ofOps_iff : (∃ p, ofOps ops origins = .ok p) ↔ Balanced .loopOpen .loopClose ops := by
  rw [Block.balanced_iff]
  constructor
  · rintro ⟨p, linked⟩
    obtain ⟨b, spelled, -⟩ := Block.exists_of_ofOps linked
    exact ⟨b, spelled⟩
  · rintro ⟨b, rfl⟩
    exact ⟨_, b.ofOps_ops origins⟩

theorem loopAt_of_ofOps (linked : ofOps ops origins = .ok p)
    (here : p.instrs[i]? = some ⟨.loopOpen, some j⟩) : LoopAt ops i j := by
  rw [← ops_of_ofOps linked]
  obtain ⟨b, -, rfl⟩ := Block.exists_of_ofOps linked
  have inside : i < 0 + b.length := by simpa [Program.size] using lt_size_of_getElem? here
  obtain ⟨body, rest, sits, rfl⟩ :=
    (b.sits_program origins).loop_at (Nat.zero_le i) inside here
  exact sits.loopAt

theorem exists_instr {op : Op} (linked : ofOps ops origins = .ok p) (here : ops[i]? = some op) :
    ∃ x, p.instrs[i]? = some x ∧ x.op = op ∧ p.Fits i x := by
  rw [← ops_of_ofOps linked, Program.ops, List.getElem?_map, Array.getElem?_toList] at here
  obtain ⟨x, there, rfl⟩ := Option.map_eq_some_iff.mp here
  exact ⟨x, there, rfl, paired_of_ofOps linked i x there⟩

theorem getElem?_targets {x : Instr} (there : p.instrs[i]? = some x) :
    (p.instrs.toList.map Instr.target)[i]? = some x.target := by
  simp [there]

theorem matching_of_ofOps (linked : ofOps ops origins = .ok p) :
    Matching ops (p.instrs.toList.map Instr.target) where
  size := by
    rw [← ops_of_ofOps linked]
    simp [Program.ops]
  act here opens closes := by
    obtain ⟨x, there, rfl, fits⟩ := exists_instr linked here
    cases fits with
    | act a => exact getElem?_targets there
    | opening => exact absurd rfl opens
    | closing => exact absurd rfl closes
  opening here := by
    obtain ⟨x, there, kind, fits⟩ := exists_instr linked here
    cases fits with
    | act a => exact absurd kind a.op_ne_loopOpen
    | opening _ partner =>
        exact ⟨_, loopAt_of_ofOps linked there, getElem?_targets there, getElem?_targets partner⟩
    | closing => cases kind

theorem closes_loop (linked : ofOps ops origins = .ok p) (here : ops[j]? = some .loopClose) :
    ∃ i, LoopAt ops i j := by
  obtain ⟨x, there, kind, fits⟩ := exists_instr linked here
  cases fits with
  | act a => exact absurd kind a.op_ne_loopClose
  | opening => cases kind
  | closing _ partner => exact ⟨_, loopAt_of_ofOps linked partner⟩

/-- A sequence of operations is linked exactly if its brackets are balanced. Its program
has the same operations, and its targets are the one matching of its brackets: every open
and every close belongs to a loop, and loops nest or stand apart. -/
theorem ofOps_matching (ops : List Op) (origins : Option (Array (Option Place))) :
    ((∃ p, ofOps ops origins = .ok p) ↔ Balanced .loopOpen .loopClose ops) ∧
      ∀ p, ofOps ops origins = .ok p →
        p.ops = ops ∧ p.origins = origins ∧
          (∀ targets, Matching ops targets ↔ targets = p.instrs.toList.map Instr.target) ∧
          (∀ j, ops[j]? = some .loopClose → ∃ i, LoopAt ops i j) ∧
          ∀ i j i' j', LoopAt ops i j → LoopAt ops i' j' → i < i' → j < i' ∨ j' < j := by
  refine ⟨exists_ofOps_iff, fun p linked => ⟨ops_of_ofOps linked, ?_, fun targets => ⟨fun h => ?_, ?_⟩,
    fun j => closes_loop linked, fun i j i' j' h h' => h.apart_or_inside h'⟩⟩
  · obtain ⟨b, -, rfl⟩ := Block.exists_of_ofOps linked
    rfl
  · exact h.unique (closes_loop linked) (matching_of_ofOps linked)
  · rintro rfl
    exact matching_of_ofOps linked

/-- A loop with a loop and an action in it, and another loop behind it. -/
def twoLoops : List Op :=
  [.loopOpen, .increment, .loopOpen, .loopClose, .loopClose, .loopOpen, .loopClose]

theorem ofOps_matching_twoLoops :
    Balanced .loopOpen .loopClose twoLoops ∧
      ∀ targets, Matching twoLoops targets ↔
        targets = [some 4, none, some 3, some 2, some 0, some 6, some 5] := by
  obtain ⟨linked, program⟩ := ofOps_matching twoLoops none
  have balanced : Balanced .loopOpen .loopClose twoLoops := by decide
  obtain ⟨p, made⟩ := linked.mpr balanced
  have same : p = ⟨#[⟨.loopOpen, some 4⟩, ⟨.increment, none⟩, ⟨.loopOpen, some 3⟩, ⟨.loopClose, some 2⟩,
      ⟨.loopClose, some 0⟩, ⟨.loopOpen, some 6⟩, ⟨.loopClose, some 5⟩], none⟩ :=
    Except.ok.inj (made.symm.trans rfl)
  subst same
  exact ⟨balanced, (program _ made).2.2.1⟩

end Program

end ByteTape
