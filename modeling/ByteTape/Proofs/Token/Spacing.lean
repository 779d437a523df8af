import ByteTape.Proofs.Token.Ending

/-! # Spaces between tokens

Where a token ends a text can be opened: blanks and whole comments may be put in without any
change to what the text says. A count is the exception, since it has to stand directly behind
what it counts. What is put in begins with a blank, because the keyword of an import would not
be seen with a percent sign directly behind it.
-/

namespace ByteTape.Token

/-- Blanks and whole comments, each comment with the line feed that ends it. -/
inductive Spacing : List Char → Prop where
  | nil : Spacing []
  | blank {c : Char} {text : List Char} (blank : Text.isBlank c) (rest : Spacing text) :
    Spacing (c :: text)
  | comment {line text : List Char} (within : '\n' ∉ line) (rest : Spacing text) :
    Spacing ('%' :: (line ++ '\n' :: text))

theorem Spacing.scans {gap text : List Char} {values : List Value} (spacing : Spacing gap)
    (h : Scans false text values) : Scans false (gap ++ text) values := by
  induction spacing with
  | nil => exact h
  | blank blank _ ih => exact .blank blank ih
  | @comment line gap within _ ih =>
      have rest : Scans false ('\n' :: (gap ++ text)) values := .blank rfl ih
      rw [List.cons_append, List.append_assoc]
      apply Scans.comment within _ rest
      intro c first
      cases first
      rfl

theorem Scans.loosen {tight : Bool} {text : List Char} {values : List Value}
    (h : Scans tight text values) (other : ∀ value ∈ values.head?, value.isCount = false) :
    Scans false text values := by
  cases h with
  | done => exact .done false
  | blank blank rest => exact .blank blank rest
  | comment within ends rest => exact .comment within ends rest
  | @value _ value _ _ _ spelled ends _ rest =>
      apply Scans.value spelled ends _ rest
      intro counts
      have apart := other value rfl
      simp [counts] at apart

/-- The characters begin with a blank. -/
def Begins (gap : List Char) : Prop := ∃ c ∈ gap.head?, Text.isBlank c

theorem Begins.spaced {gap text : List Char} {values : List Value} (begins : Begins gap)
    (spacing : Spacing gap) (h : Scans false text values) (tight : Bool) :
    Scans tight (gap ++ text) values := by
  obtain ⟨c, first, visible⟩ := begins
  cases spacing with
  | nil => cases first
  | blank blank rest => exact .blank blank (rest.scans h)
  | comment =>
      cases first
      cases visible

/-- The text, which stands behind a front part of the file, can be opened at the end of the
token. -/
def OpensBehind (file : String) (front : List Char) (tight : Bool) (text : List Char)
    (values : List Value) (token : Token) : Prop :=
  ∃ start before after, text = before ++ after ∧ before ≠ [] ∧
    Span.Shows file (front ++ text) ⟨start, (front ++ before).length⟩ token ∧
    ∀ gap, Spacing gap → Begins gap → Scans tight (before ++ (gap ++ after)) values

/-- If the text can be opened further on, it can be opened there with something before it. -/
theorem OpensBehind.later {file : String} {front first text : List Char} {tight tight' : Bool}
    {values values' : List Value} {token : Token}
    (h : OpensBehind file (front ++ first) tight text values token)
    (step : ∀ rest, rest.head? = text.head? → Scans tight rest values →
      Scans tight' (first ++ rest) values') :
    OpensBehind file front tight' (first ++ text) values' token := by
  obtain ⟨start, before, after, rfl, nonempty, shows, opened⟩ := h
  refine ⟨start, first ++ before, after, by rw [List.append_assoc], by simp [nonempty], ?_, ?_⟩
  · simpa only [List.append_assoc] using shows
  · intro gap spacing begins
    obtain ⟨c, more, rfl⟩ := List.exists_cons_of_ne_nil nonempty
    rw [List.append_assoc]
    apply step
    · rfl
    · exact opened gap spacing begins

/-- A text is scanned with open places: at the end of each token that is not counted. -/
theorem opensBehind_of_scanFrom {loc : Location} {tight : Bool} {text : List Char}
    {tokens : List Token} (h : scanFrom loc tight text = .ok tokens) {file : String}
    (front : List Char) (place : loc = (Location.start file).after front) {k : Nat} {token : Token}
    (here : tokens[k]? = some token) (free : ∀ next ∈ tokens[k + 1]?, next.value.isCount = false) :
    OpensBehind file front tight text (tokens.map Token.value) token := by
  fun_induction scanFrom loc tight text generalizing front tokens k with
  | case1 =>
      cases h
      cases here
  | case2 loc tight c text blank ih =>
      have further := ih h (front ++ [c]) (by rw [place, Location.after_append]; rfl) here free
      apply further.later
      intro rest _ scans
      exact .blank blank scans
  | case3 loc tight text _ comment =>
      rename_i ih
      have further := ih h (front ++ comment) (by rw [place, Location.after_append]) here free
      rw [← line_append text]
      apply further.later
      intro rest same scans
      apply Scans.comment (not_mem_line text) _ scans
      intro c first
      rw [same] at first
      exact feed_behind_line text c first
  | case4 | case5 => cases h
  | case6 loc tight c text _ _ piece found tokens scanned ih =>
      cases h
      have whole := (cut_of found).append
      cases k with
      | zero =>
          cases here
          have shows := shows_of_cut found place
          obtain ⟨tail, spelled, -⟩ := cut_of found
          refine ⟨_, piece.spelling, piece.rest, whole.symm, by simp [spelled], shows, ?_⟩
          intro gap spacing begins
          have loose : Scans false piece.rest (tokens.map Token.value) := by
            apply (scans_of_scanFrom scanned).loosen
            intro value first
            rw [List.head?_map] at first
            obtain ⟨next, ahead, rfl⟩ := Option.map_eq_some_iff.mp first
            apply free
            rwa [List.getElem?_cons_succ, ← List.head?_eq_getElem?]
          apply Scans.value (cut_spelled found) _ (tight_of_cut found) (begins.spaced spacing loose _)
          apply Value.ends_of_blank
          intro d first
          obtain ⟨e, same, blank⟩ := begins
          obtain ⟨more, rfl⟩ := List.head?_eq_some_iff.mp same
          cases first
          exact blank
      | succ k =>
          have further := ih scanned (front ++ piece.spelling)
            (by rw [place, Location.after_append]) here free
          rw [← whole]
          apply further.later
          intro rest same scans
          exact .value (cut_spelled found) ((cut_ends found).of_head same) (tight_of_cut found) scans

theorem Value.SpelledBy.unique {value : Value} {chars chars' rest rest' : List Char}
    (h : value.SpelledBy chars) (h' : value.SpelledBy chars') (same : chars ++ rest = chars' ++ rest') :
    chars = chars' := by
  cases value with
  | text bytes =>
      obtain ⟨inner, rfl, read⟩ := h
      obtain ⟨inner', rfl, read'⟩ := h'
      have cut := cutText_of_unescape? read (.start "") (.start "") rest
      have cut' := cutText_of_unescape? read' (.start "") (.start "") rest'
      have whole : inner ++ '\x22' :: rest = inner' ++ '\x22' :: rest' := by simpa using same
      rw [whole] at cut
      have equal := Except.ok.inj (cut.symm.trans cut')
      rw [(Prod.mk.inj (Prod.mk.inj equal).2).1]
  | op | debug | ref | count | define | openBody | closeBody | openGroup | closeGroup | use | other =>
      exact h.2.trans h'.2.symm

theorem Span.Shows.unique {file : String} {text : List Char} {a b : Span} {token : Token}
    (h : Shows file text a token) (h' : Shows file text b token) : a = b := by
  obtain ⟨i, j⟩ := a
  obtain ⟨i', j'⟩ := b
  have ordered : i < j := h.nonempty
  have ordered' : i' < j' := h'.nonempty
  have inside : j ≤ text.length := h.inside
  have inside' : j' ≤ text.length := h'.inside
  have places : (Location.start file).after (text.take i) = (Location.start file).after (text.take i') := by
    rw [Location.after_start, Location.after_start]
    exact h.place.symm.trans h'.place
  obtain rfl : i = i' := Location.take_unique (by omega) (by omega) places
  have split (j : Nat) (later : i ≤ j) :
      chars ⟨i, j⟩ text ++ text.drop j = text.drop i := by
    rw [chars, ← List.drop_append_of_le_length (by simp; omega), List.take_append_drop]
  have same := h.spelled.unique h'.spelled
    ((split j (by omega)).trans (split j' (by omega)).symm)
  have lengths := congrArg List.length same
  simp only [chars, List.length_drop, List.length_take] at lengths
  obtain rfl : j = j' := by omega
  rfl

theorem exists_shown {file : String} {text : List Char} {spans : List Span} {tokens : List Token}
    (shown : List.Forall₂ (Span.Shows file text) spans tokens) {k : Nat} {span : Span}
    (here : spans[k]? = some span) : ∃ token, tokens[k]? = some token ∧ span.Shows file text token := by
  induction shown generalizing k with
  | nil => cases here
  | cons shows _ ih =>
      cases k with
      | zero =>
          cases here
          exact ⟨_, rfl, shows⟩
      | succ k => exact ih here

/-- One of the tokens is a count that stands at this index of the text. -/
def CountAt (spans : List Span) (tokens : List Token) (p : Nat) : Prop :=
  ∃ (k : Nat) (span : Span) (count : Count) (loc : Location), spans[k]? = some span ∧
    tokens[k]? = some ⟨.count count, loc⟩ ∧ span.start = p

theorem Layout.uncounted {file : String} {text : List Char} {spans : List Span} {tokens : List Token}
    (layout : Layout file text spans tokens) {k : Nat} {span : Span} (here : spans[k]? = some span)
    (free : ¬ CountAt spans tokens span.stop) :
    ∀ next ∈ tokens[k + 1]?, next.value.isCount = false := by
  rintro ⟨value, loc⟩ ahead
  cases value with
  | count count =>
      obtain ⟨j, -, a, b, same, -, -, spanned, spanned', tied⟩ := layout.tied (k + 1) count loc ahead
      cases same
      cases here.symm.trans spanned
      exact absurd ⟨k + 1, b, count, loc, spanned', ahead, tied⟩ free
  | _ => rfl

/-- Spaces may be put into a text at its beginning and at the end of each token, unless a count
follows there. The text is scanned as before, but for the positions. -/
theorem scan_spaced {file text : String} {tokens : List Token} (scanned : scan file text = .ok tokens)
    {spans : List Span} (layout : Layout file text.toList spans tokens) {p : Nat}
    (place : p = 0 ∨ ∃ span ∈ spans, p = span.stop) (free : ¬ CountAt spans tokens p)
    {gap : List Char} (spacing : Spacing gap) (begins : Begins gap) :
    ∃ tokens', scan file (String.ofList (text.toList.take p ++ (gap ++ text.toList.drop p))) = .ok tokens' ∧
      tokens'.map Token.value = tokens.map Token.value := by
  have spaced : Scans false (text.toList.take p ++ (gap ++ text.toList.drop p))
      (tokens.map Token.value) := by
    rcases place with rfl | ⟨span, there, rfl⟩
    · exact spacing.scans (scans_of_scanFrom scanned)
    · obtain ⟨k, here⟩ := List.mem_iff_getElem?.mp there
      obtain ⟨token, named, shows⟩ := exists_shown layout.shown here
      obtain ⟨start, before, after, whole, -, shows', opened⟩ :=
        opensBehind_of_scanFrom scanned [] rfl named (layout.uncounted here free)
      obtain rfl := shows.unique shows'
      rw [whole, List.nil_append, List.take_left, List.drop_left]
      exact opened gap spacing begins
  rw [scan, String.toList_ofList]
  exact spaced.scanFrom _

/-- An operation with a count, and an import, without any spaces. -/
def crammed : List Char := ['+', '2', 'u', 's', 'e', '#', 'e']

def crammedTokens : List Token :=
  [⟨.op .increment, ⟨"m", 1, 1⟩⟩, ⟨.count (.hex "2"), ⟨"m", 1, 2⟩⟩, ⟨.use, ⟨"m", 1, 3⟩⟩,
    ⟨.ref ⟨0, ["e"]⟩, ⟨"m", 1, 6⟩⟩]

def crammedSpans : List Span := [⟨0, 1⟩, ⟨1, 2⟩, ⟨2, 5⟩, ⟨5, 7⟩]

theorem laid_crammed : Laid "m" crammed 0 false crammedSpans crammedTokens := by
  refine .token ⟨by decide, by decide, rfl, ?_⟩ (by simp) ?_
  · exact ⟨show Op.increment ≠ Op.debug by decide, rfl⟩
  refine .token ⟨by decide, by decide, rfl, ?_⟩ (fun _ _ => rfl) ?_
  · exact ⟨⟨by decide, List.all_eq_true.mp (by decide)⟩, by decide⟩
  refine .token ⟨by decide, by decide, rfl, trivial, rfl⟩ (by simp) ?_
  refine .token ⟨by decide, by decide, rfl, ?_⟩ (by simp) (.done _)
  exact ⟨⟨by simp [IsName, isNameChar], by decide⟩, by decide⟩

theorem scan_spaced_crammed :
    scan "m" (String.ofList crammed) = .ok crammedTokens ∧
      Layout "m" crammed crammedSpans crammedTokens ∧
      ∃ tokens, scan "m" "+2use\t%2\n#e" = .ok tokens ∧
        tokens.map Token.value = crammedTokens.map Token.value := by
  have scanned : scan "m" (String.ofList crammed) = .ok crammedTokens := by decide +kernel
  have layout : Layout "m" (String.ofList crammed).toList crammedSpans crammedTokens := by
    rw [String.toList_ofList]
    exact laid_crammed.layout
  have free : ¬ CountAt crammedSpans crammedTokens 5 := by
    rintro ⟨k, span, count, loc, here, counts, start⟩
    rcases k with _ | _ | _ | _ | k
    · cases counts
    · cases here
      cases start
    · cases counts
    · cases counts
    · cases counts
  have spacing : Spacing ['\t', '%', '2', '\n'] :=
    .blank rfl (@Spacing.comment ['2'] [] (by decide) .nil)
  have place : 5 = 0 ∨ ∃ span ∈ crammedSpans, 5 = span.stop :=
    .inr ⟨⟨2, 5⟩, by simp [crammedSpans], rfl⟩
  have spaced := scan_spaced scanned layout place free spacing ⟨'\t', rfl, rfl⟩
  rw [String.toList_ofList] at spaced layout
  exact ⟨scanned, layout, spaced⟩

end ByteTape.Token
