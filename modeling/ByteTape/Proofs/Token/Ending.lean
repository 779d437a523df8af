import ByteTape.Proofs.Token.Layout

/-! # Where tokens end

A token goes on as long as its characters do: what follows it does not belong to it. The
converse holds as well. Characters that spell a value are cut as this value if what follows
does not belong to it, and a count needs its place besides. So the texts that can be scanned
are described without the scanner: they consist of blanks, of comments and of spelled values,
and positions have no part in it.
-/

namespace ByteTape.Token

section
variable {loc : Location} {text : List Char} {piece : Cut}

theorem cutHexCount_ends {c : Char} (h : cutHexCount loc c text = .ok piece) :
    piece.value.Ends piece.rest := by
  unfold cutHexCount at h
  split at h
  · split at h
    · split at h
      · cases h
      · next other =>
          cases h
          intro c first
          cases first
          exact other
    · next other =>
        cases h
        intro c first
        cases first
        exact other
  · split at h
    · cases h
      intro c first
      cases first
    · next other =>
        cases h
        intro c first
        cases first
        exact other
  · cases h
    intro c first
    cases first

theorem not_isNameChar_behind (text : List Char) :
    ∀ c ∈ (text.dropWhile isNameChar).head?, ¬ isNameChar c := by
  intro c first
  have other := List.head?_dropWhile_not isNameChar text
  rw [Option.mem_def.mp first] at other
  simpa using other

theorem cutSteps_ends {steps : List String} {spelling rest : List Char}
    (h : cutSteps loc text = .ok (steps, spelling, rest)) (begins : ∀ c ∈ text.head?, ¬ isNameChar c) :
    EndsPath '/' rest := by
  fun_induction cutSteps loc text generalizing steps spelling with
  | case1 | case2 => cases h
  | case3 loc text name behind nonempty =>
      rename_i done ih
      cases h
      apply ih done
      exact not_isNameChar_behind text
  | case4 loc text unmarked =>
      cases h
      intro c first
      refine ⟨begins c first, ?_⟩
      rintro rfl
      obtain ⟨behind, spelled⟩ := List.head?_eq_some_iff.mp first
      exact unmarked behind spelled

theorem cutReference_ends (h : cutReference loc text = .ok piece) : piece.value.Ends piece.rest := by
  unfold cutReference at h
  dsimp only at h
  split at h
  · next nameless =>
      split at h
      · cases h
      · cases h
        intro c first
        obtain ⟨body, spelled⟩ := List.head?_eq_some_iff.mp first
        have caret := List.head?_dropWhile_not (· == '^') text
        dsimp only at spelled
        rw [spelled] at nameless caret
        refine ⟨?_, by simpa [pathMark] using caret⟩
        intro letter
        simp [letter] at nameless
  · split at h
    · cases h
    · next done =>
        cases h
        apply cutSteps_ends done
        exact not_isNameChar_behind _

theorem cutDefine_ends (h : cutDefine loc text = .ok piece) : piece.value.Ends piece.rest := by
  unfold cutDefine at h
  dsimp only at h
  split at h
  · cases h
  · cases h
    exact not_isNameChar_behind text

end

theorem ends_of_bracket? {c : Char} {value : Value} (h : bracket? c = some value) (rest : List Char) :
    value.Ends rest := by
  unfold bracket? at h
  split at h <;> cases h <;> trivial

theorem cut_ends {loc : Location} {tight : Bool} {c : Char} {text : List Char} {piece : Cut}
    (h : cut loc tight c text = .ok piece) : piece.value.Ends piece.rest := by
  have branch := cut_branch loc tight c text
  generalize cut loc tight c text = result at branch h
  cases branch with
  | hexCount => exact cutHexCount_ends h
  | charCount =>
      obtain ⟨d, -, -, same, -⟩ := cutCharCount_char h
      rw [same]
      trivial
  | loose | badText | stray => cases h
  | op | debug | text =>
      cases h
      trivial
  | reference => exact cutReference_ends h
  | define => exact cutDefine_ends h
  | bracket known =>
      cases h
      exact ends_of_bracket? known _
  | use _ _ closed =>
      cases h
      exact closed

/-- Whether a token ends before a text is a matter of its first character. -/
theorem Value.Ends.of_head {value : Value} {rest rest' : List Char} (ends : value.Ends rest)
    (same : rest'.head? = rest.head?) : value.Ends rest' := by
  cases value with
  | op | debug | text | openBody | closeBody | openGroup | closeGroup | other => trivial
  | ref | define =>
      intro c first
      rw [same] at first
      exact ends c first
  | count number =>
      cases number with
      | hex =>
          intro c first
          rw [same] at first
          exact ends c first
      | char | other => trivial
  | use =>
      cases rest <;> cases rest' <;> cases same
      · rfl
      · exact ends

theorem cutText_of_unescape? {inner : List Char} {bytes : List UInt8}
    (read : unescape? inner = some bytes) (start loc : Location) (rest : List Char) :
    cutText start loc (inner ++ '\x22' :: rest) = .ok (bytes, inner ++ ['\x22'], rest) := by
  fun_induction unescape? inner generalizing loc bytes with
  | case1 =>
      cases read
      simp [cutText]
  | case2 c text ih =>
      obtain ⟨byte, known, tail⟩ := Option.bind_eq_some_iff.mp read
      obtain ⟨more, inside, rfl⟩ := Option.map_eq_some_iff.mp tail
      simp [cutText, known, ih inside]
  | case3 => cases read
  | case4 c text _ ordinary ih =>
      obtain ⟨more, inside, rfl⟩ := Option.map_eq_some_iff.mp read
      have narrow : c.toNat ≤ 0xff := by
        apply Nat.le_of_not_lt
        intro wide
        exact ordinary (.inr (.inr wide))
      apply cutText_plain (fun quote => ordinary (.inl quote))
        (fun mark => ordinary (.inr (.inl mark))) narrow
      exact ih inside _

/-- Where no count begins it makes no difference whether one could stand there. -/
theorem cut_loose {c : Char} (digit : ¬ Text.isHexDigit c) (quote : c ≠ '\x27') (loc : Location)
    (tight : Bool) (text : List Char) : cut loc tight c text = cut loc false c text := by
  simp [cut, digit, quote]

theorem Value.Opens.not_count {value : Value} {c : Char} (opens : value.Opens c)
    (other : value.isCount = false) : ¬ Text.isHexDigit c ∧ c ≠ '\x27' := by
  cases value with
  | op o =>
      obtain rfl : o.symbol = c := opens
      cases o <;> decide
  | debug | text | ref | define | openBody | closeBody | openGroup | closeGroup | use =>
      obtain rfl : c = _ := opens
      decide
  | count => cases other
  | other => cases opens

/-- Characters that spell a value are cut as this value, whatever the position. -/
theorem Value.SpelledBy.cut {value : Value} {chars rest : List Char} (spelled : value.SpelledBy chars)
    (ends : value.Ends rest) :
    ∃ c tail, chars = c :: tail ∧ ¬ Text.isBlank c ∧ c ≠ '%' ∧
      ∀ loc tight, (value.isCount → tight = true) →
        Token.cut loc tight c (tail ++ rest) = .ok ⟨value, chars, rest⟩ := by
  have found : ∃ c tail, chars = c :: tail ∧ ¬ Text.isBlank c ∧ c ≠ '%' ∧
      ∀ loc, Token.cut loc value.isCount c (tail ++ rest) = .ok ⟨value, chars, rest⟩ := by
    cases value with
    | text bytes =>
        obtain ⟨inner, rfl, read⟩ := spelled
        refine ⟨'\x22', inner ++ ['\x22'], rfl, by decide, by decide, ?_⟩
        intro loc
        have done := cutText_of_unescape? read loc (loc.next '\x22') rest
        have none : Op.ofPrimitive? '\x22' = none := rfl
        simp [Token.cut, isCount, none, done]
    | op | debug | ref | count | define | openBody | closeBody | openGroup | closeGroup | use | other =>
        obtain ⟨writable, rfl⟩ := spelled
        obtain ⟨c, tail, same, visible, plain, done⟩ := cut_spelling writable ends
        refine ⟨c, tail, same, visible, plain, ?_⟩
        rw [same]
        exact done
  obtain ⟨c, tail, same, visible, plain, done⟩ := found
  refine ⟨c, tail, same, visible, plain, ?_⟩
  intro loc tight place
  cases counts : value.isCount with
  | true =>
      rw [place counts, ← counts]
      exact done loc
  | false =>
      have apart := (cut_opens (done loc)).not_count counts
      rw [cut_loose apart.1 apart.2, ← counts]
      exact done loc

/-- The text consists of blanks, comments and characters that spell these values one after
another. A count may stand in front if the text is `tight`. -/
inductive Scans : Bool → List Char → List Value → Prop where
  | done (tight : Bool) : Scans tight [] []
  | blank {tight : Bool} {c : Char} {text : List Char} {values : List Value} (blank : Text.isBlank c)
    (rest : Scans false text values) : Scans tight (c :: text) values
  | comment {tight : Bool} {line text : List Char} {values : List Value} (within : '\n' ∉ line)
    (ends : ∀ c ∈ text.head?, c = '\n') (rest : Scans false text values) :
    Scans tight ('%' :: (line ++ text)) values
  | value {tight : Bool} {value : Value} {chars text : List Char} {values : List Value}
    (spelled : value.SpelledBy chars) (ends : value.Ends text) (place : value.isCount → tight = true)
    (rest : Scans value.isCountable text values) : Scans tight (chars ++ text) (value :: values)

theorem scanFrom_comment {line text : List Char} (within : '\n' ∉ line)
    (ends : ∀ c ∈ text.head?, c = '\n') (loc : Location) (tight : Bool) :
    scanFrom loc tight ('%' :: (line ++ text)) = scanFrom (loc.after ('%' :: line)) false text := by
  have all : ∀ c ∈ line, (c != '\n') = true := by
    intro c there
    simp only [bne_iff_ne, ne_eq]
    rintro rfl
    exact within there
  have stop : ∀ c ∈ text.head?, ¬ (c != '\n') = true := by
    intro c first
    simp [ends c first]
  rw [scanFrom.eq_def]
  simp only [takeWhile_append_of_stop all stop, dropWhile_append_of_stop all stop, if_true]
  exact if_neg (by decide)

theorem tight_of_cut {loc : Location} {tight : Bool} {c : Char} {text : List Char} {piece : Cut}
    (found : cut loc tight c text = .ok piece) (counts : piece.value.isCount) : tight = true := by
  cases value : piece.value with
  | count count => exact (valued_of_cut found value).1
  | _ =>
      rw [value] at counts
      cases counts

/-- What is scanned is made of the values that come of it. -/
theorem scans_of_scanFrom {loc : Location} {tight : Bool} {text : List Char} {tokens : List Token}
    (h : scanFrom loc tight text = .ok tokens) : Scans tight text (tokens.map Token.value) := by
  fun_induction scanFrom loc tight text generalizing tokens with
  | case1 loc tight =>
      cases h
      exact .done tight
  | case2 loc tight c text blank ih => exact .blank blank (ih h)
  | case3 loc tight text _ comment =>
      rename_i ih
      have rest := ih h
      rw [← line_append text]
      exact .comment (not_mem_line text) (feed_behind_line text) rest
  | case4 | case5 => cases h
  | case6 loc tight c text _ _ piece found tokens scanned ih =>
      cases h
      rw [← (cut_of found).append]
      exact .value (cut_spelled found) (cut_ends found) (tight_of_cut found) (ih scanned)

/-- What is made of values is scanned as these values from every position. -/
theorem Scans.scanFrom {tight : Bool} {text : List Char} {values : List Value}
    (h : Scans tight text values) (loc : Location) :
    ∃ tokens, Token.scanFrom loc tight text = .ok tokens ∧ tokens.map Token.value = values := by
  induction h generalizing loc with
  | done tight => exact ⟨[], scanFrom_nil loc tight, rfl⟩
  | @blank tight c text values blank _ ih =>
      rw [scanFrom_blank blank]
      exact ih _
  | comment within ends _ ih =>
      rw [scanFrom_comment within ends]
      exact ih _
  | @value tight value chars text values spelled ends place _ ih =>
      obtain ⟨c, tail, rfl, visible, plain, done⟩ := spelled.cut ends
      obtain ⟨tokens, scanned, same⟩ := ih (loc.after (c :: tail))
      refine ⟨⟨value, loc⟩ :: tokens, ?_, by rw [List.map_cons, same]⟩
      rw [List.cons_append, scanFrom_cut visible plain (done loc tight place), scanned]
      rfl

end ByteTape.Token
