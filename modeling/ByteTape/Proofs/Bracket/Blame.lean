import ByteTape.Proofs.Bracket.Matching

/-! # The bracket that is blamed

A sequence that is not balanced has a bracket without a partner. The first close that
nothing is open for is blamed; without one, the last of the opens that begin no loop. Both
are said of the sequence alone. The link to the stack of the reader are sequences of blocks
with an open between each block and the next: the stack holds the indices of these opens.
-/

namespace ByteTape

namespace Block

theorem ops_append (b c : Block) : (b.append c).ops = b.ops ++ c.ops := by
  induction b with
  | done => rfl
  | act a rest ih => simp only [append, ops, ih, List.cons_append]
  | loop body rest _ ih => simp only [append, ops, ih, List.cons_append, List.append_assoc]

/-- Blocks with an open behind each of them, the innermost first in the list, and a block
behind all of these opens. -/
def nest : List Block → Block → List Op
  | [], b => b.ops
  | c :: outer, b => nest outer c ++ .loopOpen :: b.ops

/-- The indices of the opens behind the blocks, the innermost first. -/
def openings : List Block → List Nat
  | [] => []
  | c :: outer => (nest outer c).length :: openings outer

theorem nest_append (outer : List Block) (b c : Block) :
    nest outer (b.append c) = nest outer b ++ c.ops := by
  cases outer with
  | nil => exact ops_append b c
  | cons d outer => simp only [nest, ops_append, List.append_assoc, List.cons_append]

theorem nest_close (outer : List Block) (c b : Block) :
    nest outer (c.append (.loop b .done)) = nest (c :: outer) b ++ [.loopClose] := by
  rw [nest_append]
  simp only [nest, ops, List.append_assoc, List.cons_append]

theorem exists_nest_closed (outer : List Block) (b : Block) :
    ∃ c : Block, nest outer b ++ List.replicate outer.length .loopClose = c.ops := by
  induction outer generalizing b with
  | nil => exact ⟨b, List.append_nil _⟩
  | cons d outer ih =>
      obtain ⟨c, closed⟩ := ih (d.append (.loop b .done))
      rw [nest_close, List.append_assoc, List.singleton_append, ← List.replicate_succ] at closed
      exact ⟨c, closed⟩

theorem count_le_of_prefix_nest {outer : List Block} {b : Block} {front : List Op}
    (begins : front <+: nest outer b) : front.count .loopClose ≤ front.count .loopOpen := by
  obtain ⟨c, closed⟩ := exists_nest_closed outer b
  have whole : front <+: c.ops := begins.trans ⟨_, closed⟩
  exact (balanced_iff.mpr ⟨c, rfl⟩).1 front whole

theorem opens_loop {b : Block} {i : Nat} (here : b.ops[i]? = some .loopOpen) :
    ∃ j, LoopAt b.ops i j := by
  obtain ⟨j, loop, -⟩ := (Program.matching_of_ofOps (b.ofOps_ops none)).opening here
  exact ⟨j, loop⟩

end Block

open Block (nest openings)

/-- The bracket that has no partner, by the blocks around it. -/
inductive Unmatched.Stands : Unmatched → List Op → Prop where
  | closing (b : Block) (back : List Op) : Stands (.closing b.length) (b.ops ++ .loopClose :: back)
  | opening (outer : List Block) (c b : Block) :
    Stands (.opening (nest outer c).length) (nest (c :: outer) b)

/-- What is behind the reader are blocks with the opens of its stack between them. -/
theorem stands_of_pairBrackets (outer : List Block) (b : Block) (known : List (Nat × Nat))
    (ops : List Op) {u : Unmatched}
    (failed : pairBrackets (nest outer b).length (openings outer) known ops = .error u) :
    u.Stands (nest outer b ++ ops) := by
  induction ops generalizing outer b known with
  | nil =>
      cases outer with
      | nil => cases failed
      | cons c outer =>
          cases failed
          rw [List.append_nil]
          exact .opening outer c b
  | cons op ops ih =>
      obtain rfl | rfl | ⟨a, rfl⟩ := op.bracket_or_act
      · have next : nest (b :: outer) .done = nest outer b ++ [.loopOpen] := rfl
        have whole := ih (b :: outer) .done known (by rwa [next, List.length_append])
        rwa [next, List.append_assoc] at whole
      · cases outer with
        | nil =>
            cases failed
            exact .closing b ops
        | cons c outer =>
            have next := Block.nest_close outer c b
            have whole := ih outer (c.append (.loop b .done)) _ (by rwa [next, List.length_append])
            rwa [next, List.append_assoc] at whole
      · have next := Block.nest_append outer b (.act a .done)
        rw [pairBrackets_act] at failed
        have whole := ih outer (b.append (.act a .done)) known (by rwa [next, List.length_append])
        rwa [next, List.append_assoc] at whole

/-- The front part that ends with the operation at `i` closes more than it opens. -/
def Overdrawn (ops : List Op) (i : Nat) : Prop :=
  i < ops.length ∧ (ops.take (i + 1)).count .loopOpen < (ops.take (i + 1)).count .loopClose

instance (ops : List Op) (i : Nat) : Decidable (Overdrawn ops i) := inferInstanceAs (Decidable (_ ∧ _))

/-- An open that begins no loop. -/
def Unclosed (ops : List Op) (i : Nat) : Prop :=
  ops[i]? = some .loopOpen ∧ ∀ j, ¬ LoopAt ops i j

theorem not_overdrawn_of_prefix {ops front : List Op} {i : Nat}
    (fronts : ∀ part, part <+: front → part.count .loopClose ≤ part.count .loopOpen)
    (within : ops.take (i + 1) <+: front) : ¬ Overdrawn ops i :=
  fun more => Nat.not_le.mpr more.2 (fronts _ within)

section
variable (b : Block) (front back : List Op)

theorem overdrawn_behind_block : Overdrawn (b.ops ++ .loopClose :: back) b.length := by
  have even := (Block.balanced_iff.mpr ⟨b, rfl⟩).2
  have part : (b.ops ++ .loopClose :: back).take (b.length + 1) = b.ops ++ [.loopClose] := by
    rw [Block.length, List.take_length_add_append]
    rfl
  refine ⟨by simp [Block.length], ?_⟩
  rw [part, List.count_append, List.count_append, even]
  simp

theorem not_overdrawn_in_block {i : Nat} (inside : i < b.length) :
    ¬ Overdrawn (b.ops ++ .loopClose :: back) i := by
  refine not_overdrawn_of_prefix (Block.balanced_iff.mpr ⟨b, rfl⟩).1 ?_
  rw [List.take_append_of_le_length inside]
  exact List.take_prefix ..

/-- What stands behind the open is balanced to the end, and a loop would end before that. -/
theorem unclosed_before_block : Unclosed (front ++ .loopOpen :: b.ops) front.length := by
  refine ⟨by simp, fun j loop => ?_⟩
  have inside := (List.getElem?_eq_some_iff.mp loop.closes).1
  refine loop.not_balanced_past inside ?_
  rw [between, List.take_length, List.drop_length_add_append]
  exact Block.balanced_iff.mpr ⟨b, rfl⟩

end

theorem LoopAt.behind {ops : List Op} {i j : Nat} (h : LoopAt ops i j) (front : List Op) :
    LoopAt (front ++ ops) (front.length + i) (front.length + j) where
  before := Nat.add_lt_add_left h.before _
  opens := by rw [List.getElem?_append_right (Nat.le_add_right ..), Nat.add_sub_cancel_left, h.opens]
  closes := by rw [List.getElem?_append_right (Nat.le_add_right ..), Nat.add_sub_cancel_left, h.closes]
  body := by
    rw [between, List.take_length_add_append, Nat.add_assoc, List.drop_length_add_append]
    exact h.body

theorem not_unclosed_in_block (front : List Op) (b : Block) {i : Nat} (behind : front.length ≤ i) :
    ¬ Unclosed (front ++ b.ops) i := by
  rintro ⟨here, alone⟩
  obtain ⟨k, rfl⟩ := Nat.exists_eq_add_of_le behind
  rw [List.getElem?_append_right behind, Nat.add_sub_cancel_left] at here
  obtain ⟨j, loop⟩ := Block.opens_loop here
  exact alone _ (loop.behind front)

/-- The bracket by its place in the sequence alone. -/
def Unmatched.Blamed (ops : List Op) : Unmatched → Prop
  | closing i => Overdrawn ops i ∧ ∀ j < i, ¬ Overdrawn ops j
  | opening i => (∀ j, ¬ Overdrawn ops j) ∧ Unclosed ops i ∧ ∀ j, i < j → ¬ Unclosed ops j

theorem Unmatched.Stands.blamed {u : Unmatched} {ops : List Op} (h : u.Stands ops) :
    u.Blamed ops := by
  cases h with
  | closing b back => exact ⟨overdrawn_behind_block b back, fun j => not_overdrawn_in_block b back⟩
  | opening outer c b =>
      have fronts (i : Nat) : ¬ Overdrawn (nest (c :: outer) b) i :=
        not_overdrawn_of_prefix (fun _ => Block.count_le_of_prefix_nest) (List.take_prefix ..)
      refine ⟨fronts, unclosed_before_block b _, fun j later => ?_⟩
      have split : nest (c :: outer) b = (nest outer c ++ [.loopOpen]) ++ b.ops := by
        rw [List.append_assoc]
        rfl
      rw [split]
      exact not_unclosed_in_block _ b (by simpa using Nat.succ_le_of_lt later)

namespace Program

variable {ops : List Op} {origins : Option (Array (Option Place))}

/-- Where the operation at an index comes from, or the index itself. -/
def placeOf (origins : Option (Array (Option Place))) (i : Nat) : Place :=
  ((origins.bind (·[i]?)).join).getD (.instruction i)

theorem blame_eq {i : Nat} (known : ∀ places, origins = some places → i < places.size)
    (cause : Place → BracketError) : blame origins i cause = cause (placeOf origins i) := by
  cases origins with
  | none => rfl
  | some places =>
      obtain ⟨origin, here⟩ : ∃ origin, places[i]? = some origin :=
        ⟨_, Array.getElem?_eq_getElem (known places rfl)⟩
      cases origin with
      | none => simp [blame, placeOf, here]
      | some place => simp [blame, placeOf, here]

/-- Operations whose brackets are not balanced are refused, and the report is of the kind
that was asked for. If some front part closes more than it opens, it is about the close
that ends the first such part, and if none does, about the last open that begins no loop. -/
theorem ofOps_blames (unbalanced : ¬ Balanced .loopOpen .loopClose ops)
    (known : ∀ places, origins = some places → places.size = ops.length) (kind : Report.Kind) :
    ∃ e i, ofOps ops origins = .error e ∧
      ((Overdrawn ops i ∧ (∀ j < i, ¬ Overdrawn ops j) ∧
          e.report kind = ⟨kind, "Unmatched ']' at " ++ (placeOf origins i).render,
            some (placeOf origins i)⟩) ∨
        ((∀ j, ¬ Overdrawn ops j) ∧ Unclosed ops i ∧ (∀ j, i < j → ¬ Unclosed ops j) ∧
          e.report kind = ⟨kind, "Unmatched '[' at " ++ (placeOf origins i).render,
            some (placeOf origins i)⟩)) := by
  cases paired : pairBrackets 0 [] [] ops with
  | ok pairs =>
      have linked : ∃ p, ofOps ops origins = .ok p := by simp [ofOps, paired]
      exact absurd (exists_ofOps_iff.mp linked) unbalanced
  | error u =>
      have stands : u.Stands ops := stands_of_pairBrackets [] .done [] ops paired
      have inside : u.index < ops.length := by
        simpa using index_lt_of_pairBrackets (by simp) paired
      have located : ∀ cause, blame origins u.index cause = cause (placeOf origins u.index) :=
        blame_eq fun places given => (known places given).symm ▸ inside
      cases u with
      | closing i =>
          obtain ⟨more, first⟩ := stands.blamed
          have failed : ofOps ops origins = .error (.closing (placeOf origins i)) := by
            simp only [ofOps, paired]
            exact congrArg _ (located .closing)
          exact ⟨_, i, failed, .inl ⟨more, first, rfl⟩⟩
      | opening i =>
          obtain ⟨fronts, unclosed, last⟩ := stands.blamed
          have failed : ofOps ops origins = .error (.opening (placeOf origins i)) := by
            simp only [ofOps, paired]
            exact congrArg _ (located .opening)
          exact ⟨_, i, failed, .inr ⟨fronts, unclosed, last, rfl⟩⟩

/-- Two opens begin no loop, each with a loop behind it. -/
def halfOpen : List Op :=
  [.loopOpen, .loopOpen, .increment, .loopClose, .loopOpen, .loopOpen, .loopClose]

/-- Only two of the operations are known to come from somewhere. -/
def halfOpenOrigins : Array (Option Place) :=
  #[some (.label "outer"), none, none, none, some (.label "inner"), none, none]

theorem ofOps_blames_halfOpen :
    ∃ e i, ofOps halfOpen (some halfOpenOrigins) = .error e ∧ Unclosed halfOpen i ∧
      (∀ j, i < j → ¬ Unclosed halfOpen j) ∧
      e.report .artifact = ⟨.artifact, "Unmatched '[' at inner", some (.label "inner")⟩ := by
  have known (places : Array (Option Place)) (given : some halfOpenOrigins = some places) :
      places.size = halfOpen.length := by
    cases given
    rfl
  have enough : ∀ i < 7, ¬ Overdrawn halfOpen i := by decide
  obtain ⟨e, i, failed, ⟨more, -⟩ | ⟨-, unclosed, last, -⟩⟩ :=
    ofOps_blames (by decide : ¬ Balanced .loopOpen .loopClose halfOpen) known .artifact
  · exact absurd more (enough i more.1)
  · obtain rfl : e = .opening (.label "inner") := Except.error.inj (failed.symm.trans rfl)
    exact ⟨_, i, failed, unclosed, last, rfl⟩

end Program

end ByteTape
