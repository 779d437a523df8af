import ByteTape.Patch.Hunk
import ByteTape.Proofs.Patch.Segments

/-! # What hunks hold and what lies between them

Hunks hold every difference of two sequences. They are cut out of long shared
segments, so there is always something left between two of them.
-/

namespace ByteTape.Patch

namespace Hunk

/-- Where a hunk ends in the first sequence. -/
def oldStop (h : Hunk) : Nat := h.i + h.before.length

/-- Where a hunk ends in the second sequence. -/
def newStop (h : Hunk) : Nat := h.j + h.after.length

/-- One hunk ends before another begins, and not right before it. -/
def Precedes (h next : Hunk) : Prop := h.oldStop < next.i ∧ h.newStop < next.j

end Hunk

/-- The hunks of what two sequences have from places `i` and `j` on: before each
hunk and behind the last one both have the same. -/
inductive Covers : Nat → Nat → List Op → List Op → List Hunk → Prop where
  | same (i j : Nat) (ops : List Op) : Covers i j ops ops []
  | hunk {i j : Nat} {a b : List Op} {h : Hunk} {rest : List Hunk} (gap : List Op)
      (old : h.i = i + gap.length) (new : h.j = j + gap.length)
      (behind : Covers h.oldStop h.newStop a b rest) :
      Covers i j (gap ++ h.before ++ a) (gap ++ h.after ++ b) (h :: rest)

theorem Covers.append_left {i j i' j' : Nat} {a b : List Op} {list : List Hunk} (gap : List Op)
    (old : i' = i + gap.length) (new : j' = j + gap.length) (c : Covers i' j' a b list) :
    Covers i j (gap ++ a) (gap ++ b) list := by
  subst old new
  cases c with
  | same => exact .same i j _
  | @hunk _ _ a b h rest inner old new behind =>
    rw [Nat.add_assoc, ← List.length_append] at old new
    simpa only [List.append_assoc] using Covers.hunk (gap ++ inner) old new behind

/-! ## Gathering -/

theorem unchanged_iff (list : List Segment) :
    unchanged list = true ↔ list = [] ∨ ∃ ops, list = [.keep ops] := by
  fun_cases unchanged list <;> simp_all

/-- A long shared segment is what one hunk takes of it, what lies between the
hunks and what the next one takes. -/
theorem take_append_gap {ops : List Op} (long : 2 * context < ops.length) :
    ops.take context ++ ((ops.drop context).take (ops.length - 2 * context) ++
      ops.drop (ops.length - context)) = ops := by
  have back : ops.length - context = context + (ops.length - 2 * context) := by omega
  rw [back, ← List.drop_drop, List.take_append_drop, List.take_append_drop]

section Gather

variable {i j : Nat} {start : Nat × Nat} {done : List Segment}

/-- The hunk that is being gathered. -/
def opened (start : Nat × Nat) (done : List Segment) : Hunk := ⟨start.1, start.2, done.reverse⟩

/-- The hunk that is being gathered ends at the places reached. -/
structure Reaches (start : Nat × Nat) (done : List Segment) (i j : Nat) : Prop where
  old : (opened start done).oldStop = i
  new : (opened start done).newStop = j

theorem Reaches.nil (i j : Nat) : Reaches (i, j) [] i j := ⟨rfl, rfl⟩

theorem Reaches.cons (r : Reaches start done i j) (segment : Segment) :
    Reaches start (segment :: done) (i + segment.before.length) (j + segment.after.length) := by
  constructor
  · simp [← r.old, opened, Hunk.oldStop, Hunk.before, -List.length_flatMap, Nat.add_assoc]
  · simp [← r.new, opened, Hunk.newStop, Hunk.after, -List.length_flatMap, Nat.add_assoc]

theorem Reaches.front (r : Reaches start done i j) {ops : List Op}
    (long : 2 * context < ops.length) :
    Reaches start (.keep (ops.take context) :: done) (i + context) (j + context) := by
  have size : (ops.take context).length = context := List.length_take_of_le (by omega)
  simpa only [Segment.before_keep, Segment.after_keep, size] using r.cons (.keep (ops.take context))

theorem Reaches.next {ops : List Op} (long : 2 * context < ops.length) (i j : Nat) :
    Reaches (i + ops.length - context, j + ops.length - context)
      [.keep (ops.drop (ops.length - context))] (i + ops.length) (j + ops.length) := by
  constructor <;> simp [opened, Hunk.oldStop, Hunk.newStop, Hunk.before, Hunk.after] <;> omega

theorem Reaches.close (r : Reaches start done i j) {ops : List Op}
    (long : 2 * context < ops.length) {a b : List Op} {list : List Hunk}
    (behind : Covers (i + ops.length - context) (j + ops.length - context)
      (ops.drop (ops.length - context) ++ a) (ops.drop (ops.length - context) ++ b) list) :
    Covers start.1 start.2 (done.reverse.flatMap Segment.before ++ (ops ++ a))
      (done.reverse.flatMap Segment.after ++ (ops ++ b))
      (opened start (.keep (ops.take context) :: done) :: list) := by
  let gap := (ops.drop context).take (ops.length - 2 * context)
  have size : gap.length = ops.length - 2 * context := by simp [gap]; omega
  have here := r.front long
  have between := behind.append_left gap (i := (opened start (.keep (ops.take context) :: done)).oldStop)
    (j := (opened start (.keep (ops.take context) :: done)).newStop)
    (by rw [here.old]; omega) (by rw [here.new]; omega)
  have whole (rest : List Op) :
      ops.take context ++ (gap ++ (ops.drop (ops.length - context) ++ rest)) = ops ++ rest := by
    simp only [← List.append_assoc, gap]
    rw [List.append_assoc (ops.take context), take_append_gap long]
  have closed := Covers.hunk [] rfl rfl between
  simpa [opened, Hunk.before, Hunk.after, whole] using closed

theorem covers_gather (rest : List Segment) (back : List Op) (r : Reaches start done i j) :
    Covers start.1 start.2 ((done.reverse ++ rest).flatMap Segment.before ++ back)
      ((done.reverse ++ rest).flatMap Segment.after ++ back) (gather i j start done rest) := by
  fun_induction gather i j start done rest with
  | case1 i j start done plain =>
    rcases (unchanged_iff done).1 plain with rfl | ⟨ops, rfl⟩ <;> exact .same ..
  | case2 i j start done changed =>
    rw [List.append_nil]
    exact .hunk (h := opened start done) [] rfl rfl (.same _ _ back)
  | case3 i j start done ops rest n long ih =>
    have behind := ih (.next long i j)
    simp only [List.reverse_singleton, List.singleton_append, List.flatMap_cons,
      Segment.before_keep, Segment.after_keep, List.append_assoc] at behind
    simpa [opened] using r.close long behind
  | case4 i j start done ops rest n short ih =>
    simpa using ih (r.cons (.keep ops))
  | case5 i j start done removed added rest ih =>
    simpa using ih (r.cons (.change removed added))

theorem start_le_of_mem_gather {rest : List Segment} (r : Reaches start done i j) :
    ∀ h ∈ gather i j start done rest, start.1 ≤ h.i ∧ start.2 ≤ h.j := by
  fun_induction gather i j start done rest with
  | case1 => simp
  | case2 => simp
  | case3 i j start done ops rest n long ih =>
    have old : start.1 ≤ i := r.old ▸ Nat.le_add_right ..
    have new : start.2 ≤ j := r.new ▸ Nat.le_add_right ..
    intro h found
    rcases List.mem_cons.1 found with rfl | later
    · simp
    · have := ih (.next long i j) h later
      simp only at this
      omega
  | case4 i j start done ops rest n short ih => exact ih (r.cons (.keep ops))
  | case5 i j start done removed added rest ih => exact ih (r.cons (.change removed added))

theorem precedes_gather (rest : List Segment) (r : Reaches start done i j) :
    (gather i j start done rest).Pairwise Hunk.Precedes := by
  fun_induction gather i j start done rest with
  | case1 => exact .nil
  | case2 => exact List.pairwise_singleton ..
  | case3 i j start done ops rest n long ih =>
    have here := r.front long
    apply List.Pairwise.cons ?_ (ih (.next long i j))
    intro h later
    have behind := start_le_of_mem_gather (.next long i j) h later
    simp only at behind
    constructor
    · exact Nat.lt_of_le_of_lt (Nat.le_of_eq here.old) (by omega)
    · exact Nat.lt_of_le_of_lt (Nat.le_of_eq here.new) (by omega)
  | case4 i j start done ops rest n short ih => exact ih (r.cons (.keep ops))
  | case5 i j start done removed added rest ih => exact ih (r.cons (.change removed added))

end Gather

/-! ## Trimming -/

theorem trimFront_spec (list : List Segment) :
    ∃ front : List Op, front.length = skipped list ∧
      list.flatMap Segment.before = front ++ (trimFront list).flatMap Segment.before ∧
      list.flatMap Segment.after = front ++ (trimFront list).flatMap Segment.after := by
  match list with
  | [] => exact ⟨[], rfl, rfl, rfl⟩
  | .change removed added :: rest => exact ⟨[], rfl, rfl, rfl⟩
  | .keep ops :: rest =>
    refine ⟨ops.take (ops.length - context), by simp [skipped], ?_, ?_⟩ <;>
      simp [trimFront, ← List.append_assoc]

theorem trimBack_spec (list : List Segment) :
    ∃ back : List Op,
      list.flatMap Segment.before = (trimBack list).flatMap Segment.before ++ back ∧
      list.flatMap Segment.after = (trimBack list).flatMap Segment.after ++ back := by
  fun_induction trimBack list with
  | case1 => exact ⟨[], rfl, rfl⟩
  | case2 ops => exact ⟨ops.drop context, by simp, by simp⟩
  | case3 segment rest _ ih =>
    obtain ⟨back, old, new⟩ := ih
    exact ⟨back, by simp [old], by simp [new]⟩

theorem covers_hunks (list : List Segment) :
    Covers 0 0 (list.flatMap Segment.before) (list.flatMap Segment.after) (hunks list) := by
  obtain ⟨front, size, oldFront, newFront⟩ := trimFront_spec list
  obtain ⟨back, oldBack, newBack⟩ := trimBack_spec (trimFront list)
  have trimmed := covers_gather (trimBack (trimFront list)) back
    (.nil (skipped list) (skipped list))
  rw [oldFront, newFront, oldBack, newBack]
  exact trimmed.append_left front (by simp [size]) (by simp [size])

theorem precedes_hunks (list : List Segment) : (hunks list).Pairwise Hunk.Precedes :=
  precedes_gather _ (.nil ..)

theorem covers_hunks_segments (a b : List Op) : Covers 0 0 a b (hunks (segments a b)) := by
  simpa using covers_hunks (segments a b)

theorem hunks_segments_eq_nil_iff (a b : List Op) : hunks (segments a b) = [] ↔ a = b := by
  constructor
  · intro none
    have covered := covers_hunks_segments a b
    rw [none] at covered
    cases covered
    rfl
  · rintro rfl
    rcases segments_self a with none | same
    · rw [none]
      rfl
    · rw [same]
      simp [hunks, trimFront, trimBack, gather, unchanged]
      omega

end ByteTape.Patch
