import ByteTape.Proofs.Disk

/-! # Lines

A line that holds no line feed can be told apart from what follows it in a text. So lines that are
written one after the other, each ended by a line feed, are read back.
-/

namespace ByteTape.Text

variable {line : List Char}

theorem pieces_eq_splitOn (text : List Char) : pieces (· == '\n') text = text.splitOn '\n' := by
  rw [pieces_eq_splitOnP, List.splitOn_eq_splitOnP]

theorem pieces_whole (whole : '\n' ∉ line) : pieces (· == '\n') line = [line] := by
  rw [pieces_eq_splitOn, List.splitOn_eq_singleton whole]

theorem pieces_break (whole : '\n' ∉ line) (text : List Char) :
    pieces (· == '\n') (line ++ '\n' :: text) = line :: pieces (· == '\n') text := by
  rw [pieces_eq_splitOn, List.splitOn_append_cons_self_of_not_mem whole, ← pieces_eq_splitOn]

theorem lines_flatMap {all : List (List Char)} (whole : ∀ line ∈ all, '\n' ∉ line) :
    lines (all.flatMap (· ++ ['\n'])) = all := by
  have cut : pieces (· == '\n') (all.flatMap (· ++ ['\n'])) = all ++ [[]] := by
    induction all with
    | nil => rfl
    | cons line all ih =>
        obtain ⟨first, others⟩ := List.forall_mem_cons.mp whole
        rw [List.flatMap_cons, List.append_assoc, List.singleton_append, pieces_break first, ih others,
          List.cons_append]
  simp [lines, cut]

end ByteTape.Text
