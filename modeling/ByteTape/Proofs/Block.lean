import ByteTape.Program
import ByteTape.Proofs.Balance

/-! # Blocks

A sequence of operations with balanced brackets, read as a tree: actions and
loops, each loop with its body. Blocks are exactly the balanced sequences, every
sequence is the spelling of at most one block, and the program of a block is
known instruction by instruction, jump targets included.
-/

namespace ByteTape

/-- An operation that is no bracket. -/
inductive Act where
  | right
  | left
  | increment
  | decrement
  | output
  | input
  | debug
deriving DecidableEq

namespace Act

def op : Act → Op
  | right => .right
  | left => .left
  | increment => .increment
  | decrement => .decrement
  | output => .output
  | input => .input
  | debug => .debug

/-- The action of an operation; brackets are none. -/
def ofOp? : Op → Option Act
  | .right => some right
  | .left => some left
  | .increment => some increment
  | .decrement => some decrement
  | .output => some output
  | .input => some input
  | .debug => some debug
  | .loopOpen | .loopClose => none

theorem op_ne_loopOpen (a : Act) : a.op ≠ .loopOpen := by
  cases a <;> decide

theorem op_ne_loopClose (a : Act) : a.op ≠ .loopClose := by
  cases a <;> decide

end Act

theorem Op.bracket_or_act (op : Op) : op = .loopOpen ∨ op = .loopClose ∨ ∃ a : Act, op = a.op := by
  cases op with
  | loopOpen => exact .inl rfl
  | loopClose => exact .inr (.inl rfl)
  | right => exact .inr (.inr ⟨.right, rfl⟩)
  | left => exact .inr (.inr ⟨.left, rfl⟩)
  | increment => exact .inr (.inr ⟨.increment, rfl⟩)
  | decrement => exact .inr (.inr ⟨.decrement, rfl⟩)
  | output => exact .inr (.inr ⟨.output, rfl⟩)
  | input => exact .inr (.inr ⟨.input, rfl⟩)
  | debug => exact .inr (.inr ⟨.debug, rfl⟩)

theorem pairBrackets_act (a : Act) (i : Nat) (stack : List Nat) (known : List (Nat × Nat))
    (ops : List Op) :
    pairBrackets i stack known (a.op :: ops) = pairBrackets (i + 1) stack known ops := by
  cases a <;> rfl

/-- Operations with their loops. -/
inductive Block where
  /-- Nothing more. -/
  | done
  | act (a : Act) (rest : Block)
  | loop (body rest : Block)
deriving DecidableEq

namespace Block

/-- The operations in the order in which they are written. -/
def ops : Block → List Op
  | done => []
  | act a rest => a.op :: rest.ops
  | loop body rest => .loopOpen :: (body.ops ++ .loopClose :: rest.ops)

/-- The number of operations. -/
def length (b : Block) : Nat := b.ops.length

@[simp]
theorem length_done : done.length = 0 := rfl

@[simp]
theorem length_act (a : Act) (rest : Block) : (act a rest).length = rest.length + 1 := rfl

@[simp]
theorem length_loop (body rest : Block) :
    (loop body rest).length = body.length + rest.length + 2 := by
  simp only [length, ops, List.length_cons, List.length_append]
  omega

/-- One block behind another. -/
def append : Block → Block → Block
  | done, c => c
  | act a rest, c => act a (rest.append c)
  | loop body rest, c => loop body (rest.append c)

theorem append_done (b : Block) : b.append done = b := by
  induction b with
  | done => rfl
  | act a rest ih => rw [append, ih]
  | loop body rest _ ih => rw [append, ih]

/-- The block at the front of a sequence and, behind each close that has no open
in it, the block that follows there. -/
def read : List Op → Option (Block × List Block)
  | [] => some (done, [])
  | .loopOpen :: ops =>
    match read ops with
    | some (body, rest :: outer) => some (loop body rest, outer)
    | _ => none
  | .loopClose :: ops => (read ops).map fun (b, outer) => (done, b :: outer)
  | op :: ops => (Act.ofOp? op).bind fun a => (read ops).map fun (b, outer) => (act a b, outer)

/-- The block that a sequence of operations spells. -/
def ofOps? (ops : List Op) : Option Block :=
  match read ops with
  | some (b, []) => some b
  | _ => none

theorem read_act (a : Act) (ops : List Op) :
    read (a.op :: ops) = (read ops).map fun (b, outer) => (act a b, outer) := by
  cases a <;> rfl

theorem read_ops_append (b : Block) {ops : List Op} {c : Block} {outer : List Block}
    (tail : read ops = some (c, outer)) : read (b.ops ++ ops) = some (b.append c, outer) := by
  induction b generalizing ops c outer with
  | done => exact tail
  | act a rest ih =>
      rw [Block.ops, List.cons_append, read_act, ih tail]
      rfl
  | loop body rest ihBody ihRest =>
      have closed : read (.loopClose :: (rest.ops ++ ops)) = some (done, rest.append c :: outer) := by
        rw [read, ihRest tail]
        rfl
      rw [Block.ops, List.cons_append, List.append_assoc, List.cons_append, read, ihBody closed,
        append_done]
      rfl

theorem ofOps?_ops (b : Block) : ofOps? b.ops = some b := by
  have whole := read_ops_append b (show read [] = some (done, []) from rfl)
  rw [List.append_nil, append_done] at whole
  rw [ofOps?, whole]

/-- The sequence of a block and, behind a close each, of further blocks. -/
def spell : Block → List Block → List Op
  | b, [] => b.ops
  | b, c :: outer => b.ops ++ .loopClose :: spell c outer

theorem spell_act (a : Act) (b : Block) (outer : List Block) :
    spell (act a b) outer = a.op :: spell b outer := by
  cases outer <;> rfl

theorem spell_loop (body rest : Block) (outer : List Block) :
    spell (loop body rest) outer = .loopOpen :: spell body (rest :: outer) := by
  cases outer with
  | nil => rfl
  | cons c outer => simp only [spell, ops, List.cons_append, List.append_assoc]

/-- What closes `depth` brackets is a block, and behind each of these closes a block. -/
theorem exists_spell {depth : Nat} {ops : List Op} (h : Closes .loopOpen .loopClose depth ops) :
    ∃ b outer, outer.length = depth ∧ spell b outer = ops := by
  induction ops generalizing depth with
  | nil => exact ⟨done, [], (Closes.nil_iff.mp h).symm, rfl⟩
  | cons op ops ih =>
      obtain rfl | rfl | ⟨a, rfl⟩ := op.bracket_or_act
      · obtain ⟨body, outer, count, spelled⟩ := ih ((Closes.cons_opening_iff (by decide)).mp h)
        cases outer with
        | nil => cases count
        | cons rest outer =>
            exact ⟨loop body rest, outer, Nat.succ.inj count, by rw [spell_loop, spelled]⟩
      · obtain ⟨less, rfl, inner⟩ := (Closes.cons_closing_iff (by decide)).mp h
        obtain ⟨b, outer, count, spelled⟩ := ih inner
        exact ⟨done, b :: outer, congrArg Nat.succ count, congrArg _ spelled⟩
      · obtain ⟨b, outer, count, spelled⟩ :=
          ih ((Closes.cons_other_iff a.op_ne_loopOpen a.op_ne_loopClose).mp h)
        exact ⟨act a b, outer, count, by rw [spell_act, spelled]⟩

theorem closes_ops_append (b : Block) (depth : Nat) (ops : List Op) :
    Closes .loopOpen .loopClose depth (b.ops ++ ops) ↔ Closes .loopOpen .loopClose depth ops := by
  induction b generalizing depth ops with
  | done => rfl
  | act a rest ih =>
      rw [Block.ops, List.cons_append, Closes.cons_other_iff a.op_ne_loopOpen a.op_ne_loopClose, ih]
  | loop body rest ihBody ihRest =>
      rw [Block.ops, List.cons_append, List.append_assoc, List.cons_append,
        Closes.cons_opening_iff (by decide), ihBody, Closes.cons_closing_iff (by decide)]
      constructor
      · rintro ⟨outer, same, h⟩
        obtain rfl := Nat.succ.inj same
        exact (ihRest _ _).mp h
      · intro h
        exact ⟨depth, rfl, (ihRest _ _).mpr h⟩

/-- Balanced sequences are the spellings of blocks. -/
theorem balanced_iff {ops : List Op} :
    Balanced .loopOpen .loopClose ops ↔ ∃ b : Block, b.ops = ops := by
  rw [balanced_iff_closes]
  constructor
  · intro h
    obtain ⟨b, outer, count, spelled⟩ := exists_spell h
    obtain rfl := List.length_eq_zero_iff.mp count
    exact ⟨b, spelled⟩
  · rintro ⟨b, rfl⟩
    have empty := (closes_ops_append b 0 []).mpr (Closes.nil_iff.mpr rfl)
    rwa [List.append_nil] at empty

/-- The instructions of a block whose first operation has index `i`. -/
def instrs (i : Nat) : Block → List Instr
  | done => []
  | act a rest => ⟨a.op, none⟩ :: rest.instrs (i + 1)
  | loop body rest =>
    ⟨.loopOpen, some (i + 1 + body.length)⟩ :: (body.instrs (i + 1) ++
      ⟨.loopClose, some i⟩ :: rest.instrs (i + 1 + body.length + 1))

theorem map_op_instrs (b : Block) (i : Nat) : (b.instrs i).map Instr.op = b.ops := by
  induction b generalizing i with
  | done => rfl
  | act a rest ih => simp only [instrs, ops, List.map_cons, ih]
  | loop body rest ihBody ihRest =>
      simp only [instrs, ops, List.map_cons, List.map_append, ihBody, ihRest]

@[simp]
theorem length_instrs (b : Block) (i : Nat) : (b.instrs i).length = b.length := by
  rw [length, ← map_op_instrs b i, List.length_map]

/-- The pairs of brackets of a block, the one that closes last first. -/
def pairs (i : Nat) : Block → List (Nat × Nat)
  | done => []
  | act _ rest => rest.pairs (i + 1)
  | loop body rest =>
    rest.pairs (i + 1 + body.length + 1) ++ (i, i + 1 + body.length) :: body.pairs (i + 1)

theorem pairBrackets_ops_append (b : Block) (i : Nat) (stack : List Nat) (known : List (Nat × Nat))
    (ops : List Op) :
    pairBrackets i stack known (b.ops ++ ops) =
      pairBrackets (i + b.length) stack (b.pairs i ++ known) ops := by
  induction b generalizing i stack known ops with
  | done => rfl
  | act a rest ih =>
      rw [Block.ops, List.cons_append, pairBrackets_act, ih, pairs, length_act]
      congr 1
      omega
  | loop body rest ihBody ihRest =>
      rw [Block.ops, List.cons_append, List.append_assoc, List.cons_append, pairBrackets, ihBody,
        pairBrackets, ihRest, pairs, length_loop, List.append_assoc, List.cons_append]
      congr 1
      omega

/-- Note a pair of brackets in the table of targets. -/
private def enter (table : List (Option Nat)) (pair : Nat × Nat) : List (Option Nat) :=
  (table.set pair.1 (some pair.2)).set pair.2 (some pair.1)

private theorem toList_foldl_enter (pairs : List (Nat × Nat)) (table : Array (Option Nat)) :
    (pairs.foldl (fun table pair =>
      (table.setIfInBounds pair.1 (some pair.2)).setIfInBounds pair.2 (some pair.1)) table).toList =
        pairs.foldl enter table.toList := by
  induction pairs generalizing table with
  | nil => rfl
  | cons pair pairs ih =>
      rw [List.foldl_cons, ih, List.foldl_cons, enter, Array.toList_setIfInBounds,
        Array.toList_setIfInBounds]

/-- Entering the pairs of a block fills in the targets of its own stretch of the
table and leaves the rest of the table alone. -/
private theorem foldl_enter_pairs (b : Block) (i : Nat) (front back : List (Option Nat))
    (start : front.length = i) :
    (b.pairs i).foldl enter (front ++ (List.replicate b.length none ++ back)) =
      front ++ ((b.instrs i).map Instr.target ++ back) := by
  induction b generalizing i front back with
  | done => rfl
  | act a rest ih =>
      have next := ih (i + 1) (front ++ [none]) back (by simp [start])
      simpa only [pairs, length_act, List.replicate_succ, List.append_assoc, List.cons_append,
        List.nil_append, instrs, List.map_cons] using next
  | loop body rest ihBody ihRest =>
      have spread : List.replicate (loop body rest).length (none : Option Nat) =
          none :: (List.replicate body.length none ++ none :: List.replicate rest.length none) := by
        rw [← List.replicate_succ, List.replicate_append_replicate, ← List.replicate_succ, length_loop]
        congr 1
      -- the stretch behind the close is filled in first, then the two brackets, then the body
      have behind := ihRest (i + 1 + body.length + 1)
        (front ++ none :: (List.replicate body.length none ++ [none])) back
        (by simp [start]; omega)
      have within := ihBody (i + 1) (front ++ [some (i + 1 + body.length)])
        (some i :: ((rest.instrs (i + 1 + body.length + 1)).map Instr.target ++ back))
        (by simp [start])
      have brackets : ∀ tail, enter (front ++ none :: (List.replicate body.length none ++
          none :: tail)) (i, i + 1 + body.length) =
            front ++ some (i + 1 + body.length) :: (List.replicate body.length none ++
              some i :: tail) := by
        intro tail
        have offset : i + 1 + body.length = i + (body.length + 1) := by omega
        simp [enter, start, offset]
      simp only [List.append_assoc, List.cons_append, List.nil_append] at behind within
      simp only [pairs, spread, List.foldl_append, List.foldl_cons, List.append_assoc,
        List.cons_append, behind, brackets, within, instrs, List.map_cons, List.map_append]

theorem ofOps_ops (b : Block) (origins : Option (Array (Option Place))) :
    Program.ofOps b.ops origins = .ok ⟨(b.instrs 0).toArray, origins⟩ := by
  have paired : pairBrackets 0 [] [] b.ops = .ok (b.pairs 0) := by
    have all := pairBrackets_ops_append b 0 [] [] []
    rwa [List.append_nil, List.append_nil] at all
  have table : (partners b.ops.length (b.pairs 0)).toList = (b.instrs 0).map Instr.target := by
    have filled := foldl_enter_pairs b 0 [] [] rfl
    rw [List.append_nil, List.append_nil] at filled
    rw [partners, toList_foldl_enter, Array.toList_replicate]
    exact filled
  simp only [Program.ofOps, paired, table]
  rw [← map_op_instrs b 0, List.zipWith_map]
  simp

private theorem closes_of_pairBrackets {i : Nat} {stack : List Nat} {known pairs : List (Nat × Nat)}
    {ops : List Op} (h : pairBrackets i stack known ops = .ok pairs) :
    Closes .loopOpen .loopClose stack.length ops := by
  induction ops generalizing i stack known with
  | nil =>
      cases stack with
      | nil => exact Closes.nil_iff.mpr rfl
      | cons j stack => cases h
  | cons op ops ih =>
      obtain rfl | rfl | ⟨a, rfl⟩ := op.bracket_or_act
      · exact (Closes.cons_opening_iff (by decide)).mpr (ih h)
      · cases stack with
        | nil => cases h
        | cons j stack => exact (Closes.cons_closing_iff (by decide)).mpr ⟨_, rfl, ih h⟩
      · rw [pairBrackets_act] at h
        exact (Closes.cons_other_iff a.op_ne_loopOpen a.op_ne_loopClose).mpr (ih h)

theorem exists_of_ofOps {ops : List Op} {origins : Option (Array (Option Place))} {p : Program}
    (h : Program.ofOps ops origins = .ok p) :
    ∃ b : Block, b.ops = ops ∧ p = ⟨(b.instrs 0).toArray, origins⟩ := by
  have balanced : Balanced .loopOpen .loopClose ops := by
    cases paired : pairBrackets 0 [] [] ops with
    | ok pairs => exact balanced_iff_closes.mpr (closes_of_pairBrackets paired)
    | error u => cases u <;> simp only [Program.ofOps, paired, reduceCtorEq] at h
  obtain ⟨b, rfl⟩ := balanced_iff.mp balanced
  rw [ofOps_ops] at h
  exact ⟨b, rfl, (Except.ok.inj h).symm⟩

end Block

/-- The index of a bracket without a partner. -/
def Unmatched.index : Unmatched → Nat
  | closing i | opening i => i

theorem index_lt_of_pairBrackets {i : Nat} {stack : List Nat} {known : List (Nat × Nat)}
    {ops : List Op} {u : Unmatched} (earlier : ∀ j ∈ stack, j < i)
    (h : pairBrackets i stack known ops = .error u) : u.index < i + ops.length := by
  induction ops generalizing i stack known with
  | nil =>
      cases stack with
      | nil => cases h
      | cons j stack =>
          cases h
          exact earlier j List.mem_cons_self
  | cons op ops ih =>
      rw [List.length_cons, show i + (ops.length + 1) = i + 1 + ops.length by omega]
      obtain rfl | rfl | ⟨a, rfl⟩ := op.bracket_or_act
      · refine ih (fun j member => ?_) h
        obtain rfl | member := List.mem_cons.mp member
        · exact Nat.lt_succ_self j
        · exact Nat.lt_succ_of_lt (earlier j member)
      · cases stack with
        | nil =>
            cases h
            exact Nat.lt_add_right _ (Nat.lt_succ_self i)
        | cons j stack =>
            exact ih (fun k member => Nat.lt_succ_of_lt (earlier k (List.mem_cons_of_mem j member))) h
      · rw [pairBrackets_act] at h
        exact ih (fun j member => Nat.lt_succ_of_lt (earlier j member)) h

/-- With an origin for every operation, a bracket that is blamed has one too. -/
theorem Program.ofOps_error_located {ops : List Op} {known : Array (Option Place)} {e : BracketError}
    (enough : ops.length ≤ known.size) (h : ofOps ops (some known) = .error e) :
    e ≠ .originMissing := by
  cases paired : pairBrackets 0 [] [] ops with
  | ok pairs => simp only [ofOps, paired, reduceCtorEq] at h
  | error u =>
      have inside := index_lt_of_pairBrackets (by simp) paired
      have bound : u.index < known.size := by omega
      obtain ⟨origin, found⟩ : ∃ origin, known[u.index]? = some origin :=
        ⟨_, Array.getElem?_eq_getElem bound⟩
      cases u with
      | closing i | opening i =>
          simp only [Unmatched.index] at found
          cases origin <;> simp only [ofOps, paired, blame, found, Except.error.injEq] at h <;>
            simp only [← h, ne_eq, reduceCtorEq, not_false_eq_true]

end ByteTape
