import ByteTape.Op

/-! # The longest block of two sequences

Shared runs are followed through the first sequence, and the longest one is kept.
In a long second sequence, operations that occur often cannot begin a run; the
block that is found is extended over them. Whatever is popular, the block lies in
both sequences and holds the same operations in both.
-/

namespace ByteTape.Patch

/-- A stretch of `size` operations that begins at `i` in one sequence and at `j`
in the other. -/
structure Block where
  i : Nat
  j : Nat
  size : Nat

/-- The places of an operation, the first place having number `j`. -/
def placesFrom (op : Op) (j : Nat) : List Op → List Nat
  | [] => []
  | other :: rest => if other = op then j :: placesFrom op (j + 1) rest else placesFrom op (j + 1) rest

/-- The lengths of the shared runs that end at an operation, by their end in the
second sequence: the places of that operation, and the runs that end one
operation earlier. -/
def extendRuns (places : List Nat) (runs : List (Nat × Nat)) : List (Nat × Nat) :=
  match places, runs with
  | [], _ => []
  | j :: places, [] => (j, 1) :: extendRuns places []
  | j :: places, (stop, size) :: runs =>
    if stop + 1 < j then extendRuns (j :: places) runs
    else if stop + 1 = j then (j, size + 1) :: extendRuns places runs
    else (j, 1) :: extendRuns places ((stop, size) :: runs)
termination_by places.length + runs.length

/-- The longer of a block and of the runs that end at place `i`; of equally long
ones the earlier. -/
def better (i : Nat) (best : Block) (runs : List (Nat × Nat)) : Block :=
  runs.foldl
    (fun best run => if best.size < run.2 then ⟨i + 1 - run.2, run.1 + 1 - run.2, run.2⟩ else best)
    best

/-- The longest shared run, given the places that may begin one. -/
def longestRun (places : Op → List Nat) (i : Nat) (runs : List (Nat × Nat)) (best : Block) :
    List Op → Block
  | [] => best
  | op :: ops =>
    let runs := extendRuns (places op) runs
    longestRun places (i + 1) runs (better i best runs) ops

/-- The number of operations with which both sequences begin. -/
def common : List Op → List Op → Nat
  | x :: xs, y :: ys => if x = y then common xs ys + 1 else 0
  | _, _ => 0

/-- A block with the equal operations before and behind it. -/
def Block.extend (block : Block) (a b : List Op) : Block :=
  let before := common (a.take block.i).reverse (b.take block.j).reverse
  let behind := common (a.drop (block.i + block.size)) (b.drop (block.j + block.size))
  ⟨block.i - before, block.j - before, before + block.size + behind⟩

/-- The longest block of two sequences that does not begin with a popular
operation, extended. -/
def longest (popular : List Op) (a b : List Op) : Block :=
  let table := Op.all.map fun op => (op, if popular.contains op then [] else placesFrom op 0 b)
  let places := fun op => (table.lookup op).getD []
  (longestRun places 0 [] ⟨0, 0, 0⟩ a).extend a b

/-! ## What is found is shared -/

/-- Both sequences hold the block, with the same operations in it. -/
def Block.Shared (block : Block) (a b : List Op) : Prop :=
  ∃ before ops behind before' behind', a = before ++ ops ++ behind ∧ b = before' ++ ops ++ behind' ∧
    block = ⟨before.length, before'.length, ops.length⟩

section Shared

variable {a b : List Op} {i j size : Nat} {op : Op} {runs : List (Nat × Nat)}

theorem Block.Shared.le_length {block : Block} (shared : block.Shared a b) :
    block.i + block.size ≤ a.length := by
  obtain ⟨before, ops, behind, before', behind', rfl, -, rfl⟩ := shared
  simp

theorem Block.shared_zero (left : i ≤ a.length) (right : j ≤ b.length) : Block.Shared ⟨i, j, 0⟩ a b :=
  ⟨a.take i, [], a.drop i, b.take j, b.drop j, by simp, by simp, by
    simp [Nat.min_eq_left left, Nat.min_eq_left right]⟩

/-- A shared block goes on over an operation that follows it in both sequences. -/
theorem Block.Shared.succ (shared : Block.Shared ⟨i, j, size⟩ a b) (first : a[i + size]? = some op)
    (second : b[j + size]? = some op) : Block.Shared ⟨i, j, size + 1⟩ a b := by
  obtain ⟨before, ops, behind, before', behind', rfl, rfl, place⟩ := shared
  obtain ⟨rfl, rfl, rfl⟩ := Block.mk.inj place
  rw [← List.length_append, List.getElem?_append_right (Nat.le_refl _), Nat.sub_self] at first second
  cases behind with
  | nil => cases first
  | cons x behind =>
      cases behind' with
      | nil => cases second
      | cons y behind' =>
          obtain rfl : x = op := Option.some.inj first
          obtain rfl : y = x := Option.some.inj second
          exact ⟨before, ops ++ [y], behind, before', behind', by simp, by simp, by simp⟩

theorem mem_placesFrom {k : Nat} {ops : List Op} :
    k ∈ placesFrom op j ops ↔ j ≤ k ∧ ops[k - j]? = some op := by
  induction ops generalizing j with
  | nil => simp [placesFrom]
  | cons other rest ih =>
    by_cases later : j + 1 ≤ k
    · have next : k - j = k - (j + 1) + 1 := by omega
      have apart : k ≠ j := by omega
      have after : j ≤ k := by omega
      by_cases here : other = op <;> simp [placesFrom, here, ih, next, apart, later, after]
    · by_cases here : other = op <;> grind [placesFrom]

theorem of_mem_extendRuns {places : List Nat} (found : (j, size) ∈ extendRuns places runs) :
    j ∈ places ∧ (size = 1 ∨ ∃ stop k, (stop, k) ∈ runs ∧ stop + 1 = j ∧ k + 1 = size) := by
  fun_induction extendRuns places runs <;> grind

/-- A shared run that ends right before place `i` of the first sequence. -/
def EndsAt (a b : List Op) (i : Nat) (run : Nat × Nat) : Prop :=
  ∃ first second, Block.Shared ⟨first, second, run.2⟩ a b ∧ first + run.2 = i ∧
    second + run.2 = run.1 + 1

theorem endsAt_extendRuns {places : List Nat} (here : a[i]? = some op)
    (there : ∀ j ∈ places, b[j]? = some op) (ends : ∀ run ∈ runs, EndsAt a b i run) :
    ∀ run ∈ extendRuns places runs, EndsAt a b (i + 1) run := by
  rintro ⟨j, size⟩ found
  obtain ⟨place, origin⟩ := of_mem_extendRuns found
  have second := there j place
  rcases origin with rfl | ⟨stop, k, run, rfl, rfl⟩
  · have left := (List.getElem?_eq_some_iff.mp here).1
    have right := (List.getElem?_eq_some_iff.mp second).1
    exact ⟨i, j, (Block.shared_zero (Nat.le_of_lt left) (Nat.le_of_lt right)).succ here second, rfl, rfl⟩
  · obtain ⟨x, y, shared, rfl, stops⟩ := ends _ run
    rw [← stops] at second
    exact ⟨x, y, shared.succ here second, rfl, by simp only at stops ⊢; omega⟩

theorem shared_better {best : Block} (shared : best.Shared a b)
    (ends : ∀ run ∈ runs, EndsAt a b (i + 1) run) : (better i best runs).Shared a b := by
  induction runs generalizing best with
  | nil => exact shared
  | cons run runs ih =>
      obtain ⟨first, others⟩ := List.forall_mem_cons.mp ends
      refine ih ?_ others
      dsimp only
      split
      · obtain ⟨x, y, found, left, right⟩ := first
        rw [← left, ← right, Nat.add_sub_cancel, Nat.add_sub_cancel]
        exact found
      · exact shared

theorem shared_longestRun {places : Op → List Nat} (known : ∀ op, ∀ j ∈ places op, b[j]? = some op)
    {left : List Op} {best : Block} (rest : a.drop i = left) (ends : ∀ run ∈ runs, EndsAt a b i run)
    (shared : best.Shared a b) : (longestRun places i runs best left).Shared a b := by
  induction left generalizing i runs best with
  | nil => exact shared
  | cons op left ih =>
      have here : a[i]? = some op := by rw [← List.head?_drop, rest, List.head?_cons]
      have behind : a.drop (i + 1) = left := by rw [← List.tail_drop, rest, List.tail_cons]
      have next := endsAt_extendRuns here (known op) ends
      exact ih behind next (shared_better shared next)

theorem common_split (a b : List Op) : ∃ ops behind behind', a = ops ++ behind ∧ b = ops ++ behind' ∧
    ops.length = common a b := by
  fun_induction common a b with
  | case1 xs y ys ih =>
      obtain ⟨ops, behind, behind', rfl, rfl, size⟩ := ih
      exact ⟨y :: ops, behind, behind', rfl, rfl, by rw [List.length_cons, size]⟩
  | case2 x xs y ys different => exact ⟨[], x :: xs, y :: ys, rfl, rfl, rfl⟩
  | case3 a b other => exact ⟨[], a, b, rfl, rfl, rfl⟩

theorem Block.extend_eq (before before' ops behind behind' : List Op) :
    Block.extend ⟨before.length, before'.length, ops.length⟩ (before ++ ops ++ behind)
        (before' ++ ops ++ behind') =
      ⟨before.length - common before.reverse before'.reverse,
        before'.length - common before.reverse before'.reverse,
        common before.reverse before'.reverse + ops.length + common behind behind'⟩ := by
  have front (before behind : List Op) : (before ++ ops ++ behind).take before.length = before := by
    rw [List.append_assoc, List.take_left]
  have back (before behind : List Op) :
      (before ++ ops ++ behind).drop (before.length + ops.length) = behind := by
    rw [← List.length_append, List.drop_left]
  simp only [Block.extend, front, back]

/-- A shared block is extended over what the sequences have in common on both sides of it. -/
theorem Block.Shared.extend {block : Block} (shared : block.Shared a b) :
    (block.extend a b).Shared a b := by
  obtain ⟨before, ops, behind, before', behind', rfl, rfl, rfl⟩ := shared
  obtain ⟨front, start, start', first, second, width⟩ := common_split before.reverse before'.reverse
  obtain ⟨back, stop, stop', third, fourth, depth⟩ := common_split behind behind'
  rw [Block.extend_eq, ← width, ← depth, third, fourth]
  obtain rfl : before = start.reverse ++ front.reverse := by
    rw [← List.reverse_append, ← first, List.reverse_reverse]
  obtain rfl : before' = start'.reverse ++ front.reverse := by
    rw [← List.reverse_append, ← second, List.reverse_reverse]
  exact ⟨start.reverse, front.reverse ++ ops ++ back, stop, start'.reverse, stop', by simp, by simp, by
    simp [Nat.add_assoc]⟩

/-- The places where a run may begin with an operation. -/
def openings (popular b : List Op) (op : Op) : List Nat :=
  if op ∈ popular then [] else placesFrom op 0 b

theorem longest_eq (popular a b : List Op) :
    longest popular a b = (longestRun (openings popular b) 0 [] ⟨0, 0, 0⟩ a).extend a b := by
  have table (places : Op → List Nat) (op : Op) :
      (Op.all.map fun op => (op, places op)).lookup op = some (places op) := by
    cases op <;> rfl
  simp only [longest, table, Option.getD_some, List.contains_iff_mem]
  rfl

theorem mem_openings {popular : List Op} (found : j ∈ openings popular b op) : b[j]? = some op := by
  unfold openings at found
  split at found
  · cases found
  · exact (mem_placesFrom.mp found).2

/-- The block that is found holds the same operations in both sequences. -/
theorem longest_shared (popular a b : List Op) : (longest popular a b).Shared a b := by
  rw [longest_eq]
  refine Block.Shared.extend ?_
  refine shared_longestRun (fun op j found => mem_openings found) List.drop_zero ?_ ?_
  · exact fun run none => by cases none
  · exact Block.shared_zero (Nat.zero_le _) (Nat.zero_le _)

end Shared

end ByteTape.Patch
