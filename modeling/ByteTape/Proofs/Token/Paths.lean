import ByteTape.Proofs.Path
import ByteTape.Proofs.Token.Layout

/-! # Paths alone and in a text

A path that stands alone is cut at its slashes, and then each piece is looked at. In a text the
scanner goes over a path character by character, and stops where it ends. In ASCII the two agree:
what is read alone is what is scanned behind a reference mark, provided that nothing is left over.
Whatever is read is printed as it was written.
-/

namespace ByteTape.Path

/-- The pieces between the slashes, of which an empty text has none. -/
def components (body : List Char) : List (List Char) :=
  if body.isEmpty then [] else Text.pieces (· == '/') body

theorem intercalate_components (body : List Char) : ['/'].intercalate (components body) = body := by
  cases body with
  | nil => rfl
  | cons c body =>
      have split : components (c :: body) = (c :: body).splitOn '/' := Text.pieces_eq_splitOnP _ _
      rw [split]
      exact List.intercalate_splitOn '/'

/-- What is read is printed as it was written. It is made of steps, and it leads somewhere. -/
theorem parse_cases {text : String} {p : Path} (h : parse text = .ok p) :
    p.render = text ∧ (∀ step ∈ p.steps, isStep step.toList) ∧ 0 < p.up + p.steps.length := by
  have carets := Token.takeWhile_eq_replicate '^' text.toList
  unfold parse at h
  dsimp only at h
  generalize cut : (if (text.toList.dropWhile (· == '^')).isEmpty then []
    else Text.pieces (· == '/') (text.toList.dropWhile (· == '^'))) = steps at h
  have joined : ['/'].intercalate steps = text.toList.dropWhile (· == '^') := by
    rw [← cut]
    exact intercalate_components _
  split at h
  · cases h
  · next sound =>
      split at h
      · cases h
      · next leads =>
          cases h
          refine ⟨?_, ?_, ?_⟩
          · apply String.toList_inj.mp
            rw [toList_render, ← carets]
            simp only [List.map_map, Function.comp_def, String.toList_ofList, List.map_id', joined]
            exact List.takeWhile_append_dropWhile
          · intro step there
            obtain ⟨piece, among, rfl⟩ := List.mem_map.mp there
            have found := List.find?_eq_none.mp sound piece among
            rw [String.toList_ofList]
            simpa using found
          · cases steps with
            | nil =>
                apply Nat.pos_of_ne_zero
                simpa using leads
            | cons => exact Nat.add_pos_right _ (Nat.succ_pos _)

theorem isNameChar_of_isLetter {c : Char} (ascii : c.toNat < 0x80) (h : c = '_' ∨ Text.isLetter c) :
    Token.isNameChar c := by
  rcases h with rfl | letter
  · rfl
  · rw [Text.isLetter_ascii ascii] at letter
    have alpha : c.isAlpha = (c.isUpper || c.isLower) := rfl
    rw [alpha, Bool.or_eq_true] at letter
    rcases letter with upper | lower
    · have range : 'A' ≤ c ∧ c ≤ 'Z' := of_decide_eq_true upper
      simp [Token.isNameChar, range]
    · have range : (decide ('a' ≤ c) && decide (c ≤ 'z')) = true := lower
      simp [Token.isNameChar, range]

theorem mem_render {p : Path} {step : String} (there : step ∈ p.steps) {c : Char}
    (inside : c ∈ step.toList) : c ∈ p.render.toList := by
  obtain ⟨up, steps⟩ := p
  cases steps with
  | nil => cases there
  | cons first rest =>
      rw [Token.toList_render_cons, List.mem_append, List.mem_append]
      right
      rcases List.mem_cons.mp there with rfl | later
      · exact .inl inside
      · right
        apply List.mem_flatMap.mpr
        exact ⟨step, later, List.mem_cons_of_mem _ inside⟩

theorem writable_of_parse {text : String} {p : Path} (h : parse text = .ok p)
    (ascii : ∀ c ∈ text.toList, c.toNat < 0x80) : p.Writable := by
  obtain ⟨printed, steps, leads⟩ := parse_cases h
  refine ⟨?_, leads⟩
  intro step there
  have sound := steps step there
  simp only [isStep, Bool.and_eq_true, Bool.not_eq_true', List.isEmpty_eq_false_iff,
    List.all_eq_true, Bool.or_eq_true, decide_eq_true_eq] at sound
  refine ⟨sound.1, ?_⟩
  intro c inside
  apply isNameChar_of_isLetter
  · apply ascii
    rw [← printed]
    exact mem_render there inside
  · exact sound.2 c inside

end ByteTape.Path

namespace ByteTape.Token

/-- The text is a single token, with nothing around it. -/
def IsToken (file text : String) (token : Token) : Prop :=
  scan file text = .ok [token] ∧ Span.Shows file text.toList ⟨0, text.toList.length⟩ token

theorem toList_mark (text : String) : ("#" ++ text).toList = '#' :: text.toList := by
  rw [String.toList_append]
  rfl

theorem isToken_render {p : Path} (writable : p.Writable) (file : String) :
    IsToken file ("#" ++ p.render) ⟨.ref p, .start file⟩ := by
  constructor
  · have ends : (Value.ref p).Ends [] := by
      intro c first
      cases first
    have scanned := scanFrom_spelling (show (Value.ref p).Writable from writable) ends (.start file)
    rw [List.append_nil, scanFrom_nil] at scanned
    rw [scan, toList_mark]
    exact scanned
  · refine ⟨by simp, Nat.le_refl _, rfl, writable, ?_⟩
    rw [Span.chars, List.take_length, List.drop_zero, toList_mark]
    rfl

theorem IsToken.path {file text : String} {p : Path} {loc : Location}
    (h : IsToken file ("#" ++ text) ⟨.ref p, loc⟩) : p.Writable ∧ p.render = text := by
  obtain ⟨writable, spelled⟩ := h.2.spelled
  refine ⟨writable, ?_⟩
  rw [Span.chars, List.take_length, List.drop_zero, toList_mark] at spelled
  apply String.toList_inj.mp
  exact (List.cons.inj spelled).2.symm

end ByteTape.Token

namespace ByteTape.Path

/-- In ASCII a text is read as a path exactly if it is one reference behind the mark, and that
reference holds the same path. What is read of any text is printed as it was written. -/
theorem parse_agrees_scan (text : String) :
    ((∀ c ∈ text.toList, c.toNat < 0x80) → ∀ file p,
      parse text = .ok p ↔ ∃ loc, Token.IsToken file ("#" ++ text) ⟨.ref p, loc⟩) ∧
    ∀ p loc, parse text = .ok p → Reference.render ⟨p, false, loc⟩ = "#" ++ text := by
  constructor
  · intro ascii file p
    constructor
    · intro read
      have printed := (parse_cases read).1
      refine ⟨.start file, ?_⟩
      rw [← printed]
      exact Token.isToken_render (writable_of_parse read ascii) file
    · rintro ⟨loc, token⟩
      obtain ⟨writable, rfl⟩ := token.path
      exact parse_render writable
  · intro p loc read
    have printed := (parse_cases read).1
    simp [Reference.render, printed]

theorem parse_agrees_scan_climbing :
    (∃ loc, Token.IsToken "m" "#^^util/print_" ⟨.ref ⟨2, ["util", "print_"]⟩, loc⟩) ∧
      (∀ file p loc, ¬ Token.IsToken file "#^^util/print_ " ⟨.ref p, loc⟩) ∧
      Reference.render ⟨⟨0, ["λ"]⟩, false, .start "m"⟩ = "#λ" := by
  have read : parse "^^util/print_" = .ok ⟨2, ["util", "print_"]⟩ := by decide +kernel
  have refused : parse "^^util/print_ " = .error (.badStep "print_ " "^^util/print_ ") := by
    decide +kernel
  have foreign : parse "λ" = .ok ⟨0, ["λ"]⟩ := by decide +kernel
  have ascii {text : String} (all : text.toList.all fun c => decide (c.toNat < 0x80)) :
      ∀ c ∈ text.toList, c.toNat < 0x80 := by
    intro c there
    exact of_decide_eq_true (List.all_eq_true.mp all c there)
  refine ⟨?_, ?_, ?_⟩
  · exact ((parse_agrees_scan "^^util/print_").1 (ascii (by decide +kernel)) "m" _).mp read
  · intro file p loc token
    have agrees := (parse_agrees_scan "^^util/print_ ").1 (ascii (by decide +kernel)) file p
    have other := agrees.mpr ⟨loc, token⟩
    rw [refused] at other
    cases other
  · exact (parse_agrees_scan "λ").2 _ _ foreign

end ByteTape.Path
