import ByteTape.Proofs.Disk
import ByteTape.Proofs.Token.Spelling

/-! # Paths that stand alone

A path over words is read back from the way it is written. The carets end where the first
word begins, and the words hold no slash.
-/

namespace ByteTape.Path

variable {step : String} {steps : List String}

theorem toList_render (p : Path) :
    p.render.toList = List.replicate p.up '^' ++ ['/'].intercalate (p.steps.map String.toList) := by
  rw [render, String.toList_append, String.toList_ofList, String.toList_intercalate]
  rfl

theorem isLetter_of_isNameChar {c : Char} (h : Token.isNameChar c) : c = '_' ∨ Text.isLetter c := by
  have letter (small : c.toNat < 0x80) (known : c.isUpper ∨ c.isLower) : Text.isLetter c := by
    have alpha : c.isAlpha = (c.isUpper || c.isLower) := rfl
    rw [Text.isLetter_ascii small, alpha]
    simpa using known
  simp only [Token.isNameChar, Bool.or_eq_true, Bool.and_eq_true, decide_eq_true_eq] at h
  rcases h with (mark | lower) | upper
  · exact .inl mark
  · have small : c.toNat ≤ 122 := Text.char_le_iff.mp lower.2
    have within : (decide ('a' ≤ c) && decide (c ≤ 'z')) = true := by simp [lower]
    exact .inr (letter (by omega) (.inr within))
  · have small : c.toNat ≤ 90 := Text.char_le_iff.mp upper.2
    exact .inr (letter (by omega) (.inl (decide_eq_true upper)))

theorem isStep_of_isName (h : IsName step) : isStep step.toList := by
  obtain ⟨nonempty, letters⟩ := h
  simp only [isStep, Bool.and_eq_true, Bool.not_eq_true', List.isEmpty_eq_false_iff, List.all_eq_true,
    Bool.or_eq_true, decide_eq_true_eq]
  exact ⟨nonempty, fun c there => isLetter_of_isNameChar (letters c there)⟩

theorem pieces_intercalate (named : ∀ step ∈ steps, IsName step) (nonempty : steps ≠ []) :
    Text.pieces (· == '/') (['/'].intercalate (steps.map String.toList)) = steps.map String.toList := by
  rw [Text.pieces_eq_splitOnP]
  apply List.splitOn_intercalate
  · intro text among slash
    obtain ⟨step, there, rfl⟩ := List.mem_map.mp among
    cases (named step there).2 '/' slash
  · simpa using nonempty

theorem intercalate_cons (named : ∀ step ∈ steps, IsName step) (nonempty : steps ≠ []) :
    ∃ c text, ['/'].intercalate (steps.map String.toList) = c :: text ∧ Token.isNameChar c := by
  obtain ⟨step, steps, rfl⟩ := List.exists_cons_of_ne_nil nonempty
  obtain ⟨filled, letters⟩ := named step List.mem_cons_self
  obtain ⟨c, text, spelled⟩ := List.exists_cons_of_ne_nil filled
  have written := toList_render ⟨0, step :: steps⟩
  rw [Token.toList_render_cons, spelled] at written
  exact ⟨c, _, written.symm, letters c (by simp [spelled])⟩

theorem parse_render {p : Path} (h : p.Writable) : parse p.render = .ok p := by
  obtain ⟨up, steps⟩ := p
  have named : ∀ step ∈ steps, IsName step := h.named
  have leads : 0 < up + steps.length := h.leads
  have carets : ∀ c ∈ List.replicate up '^', (c == '^') = true := by
    intro c there
    simp [List.eq_of_mem_replicate there]
  have none : (steps.map String.toList).find? (fun step => !isStep step) = none := by
    rw [List.find?_eq_none]
    intro text among
    obtain ⟨step, there, rfl⟩ := List.mem_map.mp among
    simp [isStep_of_isName (named step there)]
  have same : (steps.map String.toList).map String.ofList = steps := by simp
  unfold parse
  rw [toList_render]
  by_cases bare : steps = []
  · subst bare
    have climbs : up ≠ 0 := Nat.pos_iff_ne_zero.mp leads
    simp [climbs]
  · obtain ⟨c, text, spelled, letter⟩ := intercalate_cons named bare
    have stop : ∀ d ∈ (c :: text).head?, ¬ (d == '^') = true := by
      intro d first caret
      cases first
      cases eq_of_beq caret
      cases letter
    have cut := pieces_intercalate named bare
    rw [spelled] at cut ⊢
    simp only [Token.takeWhile_append_of_stop carets stop, Token.dropWhile_append_of_stop carets stop,
      List.isEmpty_cons, Bool.false_eq_true, if_false, cut, none, same]
    simp [bare]

end ByteTape.Path
