import Mathlib.Data.List.Basic
import ByteTape.Patch.Segment

/-! # What the segments of two sequences hold

The block that is looked for first holds the same operations in both sequences,
so the segments give both back. In a sequence compared with itself the search
stays on the diagonal: the block it finds extends over everything, also where
every operation is too popular to begin one.
-/

namespace ByteTape.Patch

namespace Segment

@[simp] theorem before_keep (ops : List Op) : (keep ops).before = ops := rfl

@[simp] theorem after_keep (ops : List Op) : (keep ops).after = ops := rfl

@[simp] theorem before_change (removed added : List Op) :
    (change removed added).before = removed := rfl

@[simp] theorem after_change (removed added : List Op) : (change removed added).after = added := rfl

end Segment

/-! ## Both sequences are kept -/

theorem before_cut (popular a b : List Op) : (cut popular a b).flatMap Segment.before = a := by
  fun_induction cut popular a b with
  | case1 a b empty => simp_all
  | case2 a b _ block _ left right =>
    simp only [List.flatMap_append, List.flatMap_cons, left, right, Segment.before_keep]
    rw [← List.drop_drop, List.take_append_drop, List.take_append_drop]
  | case3 a b => simp

theorem Block.Shared.take_drop {block : Block} {a b : List Op} (shared : block.Shared a b) :
    (a.drop block.i).take block.size = (b.drop block.j).take block.size := by
  obtain ⟨before, ops, behind, before', behind', rfl, rfl, rfl⟩ := shared
  simp only [List.append_assoc, List.drop_left, List.take_left]

theorem after_cut (popular a b : List Op) : (cut popular a b).flatMap Segment.after = b := by
  fun_induction cut popular a b with
  | case1 a b empty => simp_all
  | case2 a b _ block _ left right =>
    have same := (longest_shared popular a b).take_drop
    simp only [List.flatMap_append, List.flatMap_cons, left, right, Segment.after_keep]
    rw [same, ← List.drop_drop, List.take_append_drop, List.take_append_drop]
  | case3 a b => simp

theorem before_join (list : List Segment) :
    (join list).flatMap Segment.before = list.flatMap Segment.before := by
  fun_induction join list <;> simp_all

theorem after_join (list : List Segment) :
    (join list).flatMap Segment.after = list.flatMap Segment.after := by
  fun_induction join list <;> simp_all

@[simp] theorem before_segments (a b : List Op) :
    (segments a b).flatMap Segment.before = a := by
  rw [segments, before_join, before_cut]

@[simp] theorem after_segments (a b : List Op) :
    (segments a b).flatMap Segment.after = b := by
  rw [segments, after_join, after_cut]

/-! ## The runs that end at an operation -/

theorem ascending_placesFrom (op : Op) (j : Nat) (ops : List Op) :
    (placesFrom op j ops).Pairwise (· < ·) := by
  induction ops generalizing j with
  | nil => exact List.Pairwise.nil
  | cons other rest ih =>
    rw [placesFrom]
    split
    · exact List.Pairwise.cons (fun k found => (mem_placesFrom.1 found).1) (ih (j + 1))
    · exact ih (j + 1)

theorem map_fst_extendRuns (places : List Nat) (runs : List (Nat × Nat)) :
    (extendRuns places runs).map Prod.fst = places := by
  fun_induction extendRuns places runs <;> simp_all

theorem mem_extendRuns {places : List Nat} {runs : List (Nat × Nat)} {stop size : Nat}
    (ascending : places.Pairwise (· < ·)) (ordered : runs.Pairwise (·.1 < ·.1))
    (place : stop + 1 ∈ places) (run : (stop, size) ∈ runs) :
    (stop + 1, size + 1) ∈ extendRuns places runs := by
  induction places, runs using extendRuns.induct with
  | case1 runs => cases place
  | case2 j places => cases run
  | case3 j places stop' size' runs early ih =>
    -- the run ends too early for this place and so for all later ones
    rw [extendRuns, if_pos early]
    grind [List.pairwise_cons]
  | case4 places stop' size' runs late ih =>
    rw [extendRuns, if_neg late, if_pos rfl]
    grind [List.pairwise_cons]
  | case5 j places stop' size' runs late apart ih =>
    rw [extendRuns, if_neg late, if_neg apart]
    grind [List.pairwise_cons]

theorem ascending_extendRuns {places : List Nat} (ascending : places.Pairwise (· < ·))
    (runs : List (Nat × Nat)) : (extendRuns places runs).Pairwise (·.1 < ·.1) := by
  rw [← map_fst_extendRuns places runs] at ascending
  exact List.pairwise_map.1 ascending

theorem better_of_le {i : Nat} {best : Block} {runs : List (Nat × Nat)}
    (short : ∀ run ∈ runs, run.2 ≤ best.size) : better i best runs = best := by
  induction runs with
  | nil => rfl
  | cons run rest ih =>
    have here : ¬ best.size < run.2 := Nat.not_lt.2 (short run (by simp))
    rw [better, List.foldl_cons, if_neg here]
    exact ih fun run there => short run (by simp [there])

theorem better_singleton (i j size : Nat) (best : Block) :
    better i best [(j, size)] =
      if best.size < size then ⟨i + 1 - size, j + 1 - size, size⟩ else best :=
  rfl

/-- Of the runs in order, only one matters that all others are too short to replace. -/
theorem better_append_cons {i : Nat} {best : Block} {left right : List (Nat × Nat)}
    {run : Nat × Nat} (before : ∀ run ∈ left, run.2 ≤ best.size)
    (behind : ∀ other ∈ right, other.2 ≤ run.2) :
    better i best (left ++ run :: right) = better i best [run] := by
  have unmoved : better i best left = best := better_of_le before
  have short : ∀ other ∈ right, other.2 ≤ (better i best [run]).size := by
    intro other there
    have := behind other there
    simp only [better, List.foldl_cons, List.foldl_nil]
    split <;> simp_all; omega
  calc better i best (left ++ run :: right)
      = better i (better i best left) (run :: right) := List.foldl_append
    _ = better i best (run :: right) := by rw [unmoved]
    _ = better i (better i best [run]) right := List.foldl_cons ..
    _ = better i best [run] := better_of_le short

/-! ## A sequence compared with itself -/

section Diagonal

variable (popular ops : List Op)

/-- The number of operations right before a place that may begin a block. -/
def stretch : Nat → Nat
  | 0 => 0
  | i + 1 => if ops[i]?.any (· ∉ popular) then stretch i + 1 else 0

/-- How far the search for the longest run of a sequence in itself has come when
it has read `i` operations. No run is longer than the stretches it ends, so one
on the diagonal is always found first. -/
structure Diagonal (i : Nat) (runs : List (Nat × Nat)) (best : Block) : Prop where
  ascending : runs.Pairwise (·.1 < ·.1)
  bounded : ∀ run ∈ runs, run.2 ≤ stretch popular ops (run.1 + 1) ∧ run.2 ≤ stretch popular ops i
  present : 0 < stretch popular ops i → (i - 1, stretch popular ops i) ∈ runs
  straight : best.i = best.j
  within : best.i + best.size ≤ ops.length
  longest : ∀ k ≤ i, stretch popular ops k ≤ best.size

theorem stretch_le (i : Nat) : stretch popular ops i ≤ i := by
  induction i with
  | zero => simp [stretch]
  | succ i ih =>
    rw [stretch]
    split <;> omega

theorem Diagonal.start : Diagonal popular ops 0 [] ⟨0, 0, 0⟩ := by
  constructor <;> simp [stretch]

variable {popular ops} {i : Nat} {op : Op} {runs : List (Nat × Nat)} {best : Block}

theorem stretch_succ_of_mem (here : ops[i]? = some op) (common : op ∈ popular) :
    stretch popular ops (i + 1) = 0 := by
  simp [stretch, here, common]

theorem stretch_succ_of_not_mem (here : ops[i]? = some op) (rare : op ∉ popular) :
    stretch popular ops (i + 1) = stretch popular ops i + 1 := by
  simp [stretch, here, rare]

theorem openings_of_mem (b : List Op) (common : op ∈ popular) : openings popular b op = [] :=
  if_pos common

theorem openings_of_not_mem (b : List Op) (rare : op ∉ popular) :
    openings popular b op = placesFrom op 0 b :=
  if_neg rare

theorem Diagonal.bounded_step (d : Diagonal popular ops i runs best) (here : ops[i]? = some op)
    (rare : op ∉ popular) :
    ∀ run ∈ extendRuns (placesFrom op 0 ops) runs,
      run.2 ≤ stretch popular ops (run.1 + 1) ∧ run.2 ≤ stretch popular ops (i + 1) := by
  intro (j, k) found
  obtain ⟨place, origin⟩ := of_mem_extendRuns found
  have there : ops[j]? = some op := by simpa using (mem_placesFrom.1 place).2
  rw [stretch_succ_of_not_mem here rare, stretch_succ_of_not_mem there rare]
  rcases origin with rfl | ⟨stop, size, run, rfl, rfl⟩
  · simp
  · have := d.bounded _ run
    simp only at this ⊢
    omega

theorem Diagonal.present_step (d : Diagonal popular ops i runs best) (here : ops[i]? = some op)
    (rare : op ∉ popular) :
    (i, stretch popular ops (i + 1)) ∈ extendRuns (placesFrom op 0 ops) runs := by
  have place : i ∈ placesFrom op 0 ops := mem_placesFrom.2 (by simpa using here)
  rw [stretch_succ_of_not_mem here rare]
  rcases Nat.eq_zero_or_pos (stretch popular ops i) with none | some
  · -- nothing ends before this place, so its run is new
    rw [← map_fst_extendRuns (placesFrom op 0 ops) runs] at place
    obtain ⟨⟨j, k⟩, found, rfl⟩ := List.mem_map.1 place
    rcases (of_mem_extendRuns found).2 with rfl | ⟨stop, size, run, _, rfl⟩
    · rwa [none]
    · have new : size = 0 := by simpa [none] using (d.bounded _ run).2
      subst new
      rwa [none]
  · have positive : i ≠ 0 := by
      rintro rfl
      simp [stretch] at some
    obtain ⟨i, rfl⟩ := Nat.exists_eq_succ_of_ne_zero positive
    exact mem_extendRuns (ascending_placesFrom op 0 ops) d.ascending place (d.present some)

theorem Diagonal.better_step (d : Diagonal popular ops i runs best) (here : ops[i]? = some op)
    (rare : op ∉ popular) :
    better i best (extendRuns (placesFrom op 0 ops) runs) =
      better i best [(i, stretch popular ops (i + 1))] := by
  have ordered := ascending_extendRuns (ascending_placesFrom op 0 ops) runs
  have bounded := d.bounded_step here rare
  obtain ⟨left, right, split⟩ := List.append_of_mem (d.present_step here rare)
  rw [split] at ordered bounded ⊢
  apply better_append_cons
  · intro run there
    have earlier : run.1 < i := (List.pairwise_append.1 ordered).2.2 run there _ List.mem_cons_self
    have short := (bounded run (by simp [there])).1
    exact Nat.le_trans short (d.longest _ earlier)
  · intro run there
    exact (bounded run (by simp [there])).2

theorem Diagonal.longest_succ (d : Diagonal popular ops i runs best) {size : Nat}
    (grown : best.size ≤ size) (last : stretch popular ops (i + 1) ≤ size) :
    ∀ k ≤ i + 1, stretch popular ops k ≤ size := by
  intro k inside
  rcases Nat.le_succ_iff.1 inside with earlier | rfl
  · exact Nat.le_trans (d.longest k earlier) grown
  · exact last

theorem Diagonal.step (d : Diagonal popular ops i runs best) (here : ops[i]? = some op) :
    Diagonal popular ops (i + 1) (extendRuns (openings popular ops op) runs)
      (better i best (extendRuns (openings popular ops op) runs)) := by
  by_cases common : op ∈ popular
  · have none := stretch_succ_of_mem here common
    rw [openings_of_mem ops common, extendRuns]
    exact ⟨List.Pairwise.nil, by simp, by simp [none], d.straight, d.within,
      d.longest_succ (Nat.le_refl _) (by simp [none])⟩
  · have ordered := ascending_extendRuns (ascending_placesFrom op 0 ops) runs
    have bounded := d.bounded_step here common
    have present := d.present_step here common
    rw [openings_of_not_mem ops common, d.better_step here common, better_singleton]
    split
    case isTrue longer =>
      have short := stretch_le popular ops (i + 1)
      have inside : i < ops.length := (List.getElem?_eq_some_iff.1 here).1
      exact ⟨ordered, bounded, fun _ => present, rfl, by simp only; omega,
        d.longest_succ (Nat.le_of_lt longer) (Nat.le_refl _)⟩
    case isFalse shorter =>
      exact ⟨ordered, bounded, fun _ => present, d.straight, d.within,
        d.longest_succ (Nat.le_refl _) (Nat.not_lt.1 shorter)⟩

theorem Diagonal.run (d : Diagonal popular ops i runs best) {left : List Op}
    (rest : ops.drop i = left) :
    ∃ k size, longestRun (openings popular ops) i runs best left = ⟨k, k, size⟩ ∧
      k + size ≤ ops.length := by
  induction left generalizing i runs best with
  | nil =>
    have straight : best = ⟨best.i, best.i, best.size⟩ :=
      congrArg (Block.mk best.i · best.size) d.straight.symm
    exact ⟨best.i, best.size, straight, d.within⟩
  | cons op left ih =>
    have here : ops[i]? = some op := by rw [← List.head?_drop, rest, List.head?_cons]
    have behind : ops.drop (i + 1) = left := by rw [← List.tail_drop, rest, List.tail_cons]
    exact ih (d.step here) behind

end Diagonal

@[simp] theorem common_self (ops : List Op) : common ops ops = ops.length := by
  induction ops with
  | nil => rfl
  | cons op rest ih => simp [common, ih]

theorem longest_self (popular ops : List Op) : longest popular ops ops = ⟨0, 0, ops.length⟩ := by
  obtain ⟨k, size, found, inside⟩ :=
    (Diagonal.start popular ops).run List.drop_zero
  rw [longest_eq, found, Block.extend]
  simp only [common_self, List.length_reverse, List.length_take, List.length_drop, Block.mk.injEq]
  omega

theorem cut_self {ops : List Op} (popular : List Op) (nonempty : ops ≠ []) :
    cut popular ops ops = [.keep ops] := by
  have filled : 0 < ops.length := List.length_pos_iff.2 nonempty
  have none : cut popular [] [] = [] := by simp [cut]
  rw [cut, longest_self]
  simp [filled, none, nonempty]

theorem segments_self (ops : List Op) : segments ops ops = [] ∨ segments ops ops = [.keep ops] := by
  by_cases empty : ops = []
  · subst empty
    simp [segments, cut, join]
  · simp [segments, cut_self _ empty, join]

end ByteTape.Patch
