import Mathlib.Data.List.Forall2
import Mathlib.Data.List.Induction
import Mathlib.Data.List.TakeWhile
import ByteTape.Proofs.Token.Places
import ByteTape.Proofs.Token.Spelling

/-! # How tokens are laid out

The tokens of a text take up stretches of it that follow one another. Each of them is
spelled by its stretch and has the line and the column at which the stretch begins, and a
count stands at the very end of what it counts. All that is left of the text is blank or
part of a comment.
-/

namespace ByteTape

/-- The position behind a front part of a file: its line is found by counting line feeds,
and its column by counting back to the last of them. -/
def Location.behind (file : String) (front : List Char) : Location :=
  ⟨file, 1 + front.count '\n', 1 + (front.reverse.takeWhile (· != '\n')).length⟩

theorem Location.after_start (file : String) (front : List Char) :
    (start file).after front = behind file front := by
  induction front using List.reverseRecOn with
  | nil => rfl
  | append_singleton front c ih =>
      rw [after_append, ih, after_cons, after_nil, next]
      split
      · next feed =>
          subst feed
          simp [behind, Int.add_assoc]
      · next plain => simp [behind, plain, Int.add_assoc]

namespace Token

/-- The bytes of a string, from what stands between its quotes. -/
def unescape? : List Char → Option (List UInt8)
  | [] => some []
  | '\\' :: c :: text => (escape? c).bind fun byte => (unescape? text).map (byte :: ·)
  | c :: text =>
    if c = '\x22' ∨ c = '\\' ∨ 0xff < c.toNat then none
    else (unescape? text).map (UInt8.ofNat c.toNat :: ·)

/-- The characters are a spelling of the value. Strings are the only values that have
more than one. -/
def Value.SpelledBy (chars : List Char) : Value → Prop
  | .text bytes => ∃ inner, chars = '\x22' :: (inner ++ ['\x22']) ∧ unescape? inner = some bytes
  | value => value.Writable ∧ chars = value.spelling

theorem unescape?_plain {c : Char} {text : List Char} (quote : c ≠ '\x22') (mark : c ≠ '\\')
    (narrow : c.toNat ≤ 0xff) :
    unescape? (c :: text) = (unescape? text).map (UInt8.ofNat c.toNat :: ·) := by
  have within : ¬ 0xff < c.toNat := by omega
  rw [unescape?.eq_def]
  split
  · next none => cases none
  · next same =>
      cases same
      exact absurd rfl mark
  · next same =>
      cases same
      rw [if_neg (by simp [quote, mark, within])]

theorem takeWhile_eq_replicate (mark : Char) (text : List Char) :
    text.takeWhile (· == mark) = List.replicate (text.takeWhile (· == mark)).length mark := by
  apply List.eq_replicate_of_mem
  intro c there
  have same := List.mem_takeWhile_imp there
  exact eq_of_beq same

theorem isName_takeWhile {text : List Char} (nonempty : ¬ (text.takeWhile isNameChar).isEmpty) :
    IsName (String.ofList (text.takeWhile isNameChar)) := by
  rw [IsName, String.toList_ofList]
  refine ⟨by simpa using nonempty, ?_⟩
  intro c there
  exact List.mem_takeWhile_imp there

section
variable {loc : Location} {text : List Char} {piece : Cut}

theorem cutHexCount_spelled {c : Char} (digit : Text.isHexDigit c)
    (h : cutHexCount loc c text = .ok piece) : piece.value.SpelledBy piece.spelling := by
  obtain ⟨digits, few, same, spelled⟩ := cutHexCount_digits h
  rw [same, spelled]
  refine ⟨?_, by rw [Value.spelling, Count.spelling, String.toList_ofList]⟩
  rcases few with rfl | ⟨d, rfl, digit'⟩
  · simp [Value.Writable, Count.Writable, digit]
  · simp [Value.Writable, Count.Writable, digit, digit']

theorem cutCharCount_spelled (h : cutCharCount loc text = .ok piece) :
    piece.value.SpelledBy piece.spelling := by
  obtain ⟨c, line, narrow, same, spelled⟩ := cutCharCount_char h
  rw [same, spelled]
  refine ⟨⟨c, String.toList_ofList, narrow, line⟩, ?_⟩
  rw [Value.spelling, Count.spelling, String.toList_ofList]

theorem not_escape {c : Char} {text : List Char} (alone : c = '\\' → text = [] → False)
    (escape : ∀ d more, c = '\\' → text = d :: more → False) : c ≠ '\\' := by
  intro mark
  cases text with
  | nil => exact alone mark rfl
  | cons d text => exact escape d text mark rfl

theorem unescape?_of_cutText {start : Location} {bytes : List UInt8} {spelling rest : List Char}
    (h : cutText start loc text = .ok (bytes, spelling, rest)) :
    ∃ inner, spelling = inner ++ ['\x22'] ∧ unescape? inner = some bytes := by
  fun_induction cutText start loc text generalizing bytes spelling with
  | case1 | case2 | case4 | case5 | case7 | case8 => cases h
  | case3 =>
      cases h
      exact ⟨[], rfl, rfl⟩
  | case6 loc c text byte known bytes spelling rest done ih =>
      cases h
      obtain ⟨inner, rfl, read⟩ := ih done
      refine ⟨'\\' :: c :: inner, rfl, ?_⟩
      simp [unescape?, known, read]
  | case9 loc c text alone quote escape wide bytes spelling rest done ih =>
      cases h
      obtain ⟨inner, rfl, read⟩ := ih done
      have mark : c ≠ '\\' := not_escape alone escape
      refine ⟨c :: inner, rfl, ?_⟩
      rw [unescape?_plain quote mark (by omega), read]
      rfl

theorem cutSteps_spelled {steps : List String} {spelling rest : List Char}
    (h : cutSteps loc text = .ok (steps, spelling, rest)) :
    (∀ step ∈ steps, IsName step) ∧ spelling = stepsSpelling steps := by
  fun_induction cutSteps loc text generalizing steps spelling with
  | case1 | case2 => cases h
  | case3 loc text name rest nonempty =>
      rename_i done ih
      cases h
      obtain ⟨named, rfl⟩ := ih done
      have first : IsName (String.ofList name) := isName_takeWhile nonempty
      refine ⟨List.forall_mem_cons.mpr ⟨first, named⟩, ?_⟩
      simp [stepsSpelling]
  | case4 =>
      cases h
      exact ⟨List.forall_mem_nil _, rfl⟩

theorem cutReference_spelled (h : cutReference loc text = .ok piece) :
    piece.value.SpelledBy piece.spelling := by
  have carets := takeWhile_eq_replicate '^' text
  unfold cutReference at h
  dsimp only at h
  split at h
  · split at h
    · cases h
    · next some =>
        cases h
        refine ⟨⟨List.forall_mem_nil _, ?_⟩, ?_⟩
        · simpa [List.length_pos_iff] using some
        · simp [Value.spelling, Path.render, ← carets]
  · next nonempty =>
      split at h
      · cases h
      · next steps spelling rest done =>
          cases h
          obtain ⟨named, rfl⟩ := cutSteps_spelled done
          refine ⟨⟨List.forall_mem_cons.mpr ⟨isName_takeWhile nonempty, named⟩, ?_⟩, ?_⟩
          · exact Nat.add_pos_right _ (Nat.succ_pos _)
          · rw [Value.spelling, toList_render_cons, String.toList_ofList, ← carets]
            simp

theorem cutDefine_spelled (h : cutDefine loc text = .ok piece) :
    piece.value.SpelledBy piece.spelling := by
  unfold cutDefine at h
  dsimp only at h
  split at h
  · cases h
  · next nonempty =>
      cases h
      refine ⟨isName_takeWhile nonempty, ?_⟩
      rw [Value.spelling, String.toList_ofList]

end

theorem spelled_of_bracket? {c : Char} {value : Value} (h : bracket? c = some value) :
    value.SpelledBy [c] := by
  unfold bracket? at h
  split at h <;> cases h <;> exact ⟨trivial, rfl⟩

theorem spelled_of_ofPrimitive? {c : Char} {o : Op} (h : Op.ofPrimitive? c = some o) :
    (Value.op o).SpelledBy [c] := by
  unfold Op.ofPrimitive? at h
  split at h <;> cases h <;> exact ⟨nofun, rfl⟩

theorem cut_spelled {loc : Location} {tight : Bool} {c : Char} {text : List Char} {piece : Cut}
    (h : cut loc tight c text = .ok piece) : piece.value.SpelledBy piece.spelling := by
  have branch := cut_branch loc tight c text
  generalize cut loc tight c text = result at branch h
  cases branch with
  | hexCount _ digit => exact cutHexCount_spelled digit h
  | charCount => exact cutCharCount_spelled h
  | loose | badText | stray => cases h
  | op known =>
      cases h
      exact spelled_of_ofPrimitive? known
  | debug mark =>
      cases h
      exact ⟨trivial, by rw [mark]; rfl⟩
  | text mark done =>
      cases h
      obtain ⟨inner, rfl, read⟩ := unescape?_of_cutText done
      exact ⟨inner, by rw [mark], read⟩
  | reference => exact cutReference_spelled h
  | define => exact cutDefine_spelled h
  | bracket known =>
      cases h
      exact spelled_of_bracket? known
  | use =>
      cases h
      exact ⟨trivial, rfl⟩

/-- A stretch of a text, from one index to before another. -/
structure Span where
  start : Nat
  stop : Nat

namespace Span

def Has (span : Span) (k : Nat) : Prop := span.start ≤ k ∧ k < span.stop

def Apart (a b : Span) : Prop := a.stop ≤ b.start ∨ b.stop ≤ a.start

def chars (span : Span) (text : List Char) : List Char := (text.take span.stop).drop span.start

/-- The token stands on the span. -/
structure Shows (file : String) (text : List Char) (span : Span) (token : Token) : Prop where
  nonempty : span.start < span.stop
  inside : span.stop ≤ text.length
  place : token.loc = .behind file (text.take span.start)
  spelled : token.value.SpelledBy (span.chars text)

/-- The span is a percent sign with the rest of its line. -/
structure IsComment (text : List Char) (span : Span) : Prop where
  nonempty : span.start < span.stop
  mark : text[span.start]? = some '%'
  line : '\n' ∉ span.chars text
  ends : span.stop = text.length ∨ text[span.stop]? = some '\n'

end Span

/-- A count that is token `k` stands directly behind a token that it can count. -/
def Tied (spans : List Span) (tokens : List Token) (k : Nat) : Prop :=
  ∃ j before a b, k = j + 1 ∧ tokens[j]? = some before ∧ before.value.isCountable ∧
    spans[j]? = some a ∧ spans[k]? = some b ∧ b.start = a.stop

/-- The tokens of a text stand on these spans of it. -/
structure Layout (file : String) (text : List Char) (spans : List Span) (tokens : List Token) :
    Prop where
  shown : List.Forall₂ (Span.Shows file text) spans tokens
  ordered : spans.Pairwise fun a b => a.stop ≤ b.start
  tied : ∀ k count loc, tokens[k]? = some ⟨.count count, loc⟩ → Tied spans tokens k
  left : ∀ k c, text[k]? = some c → (∀ span ∈ spans, ¬ span.Has k) →
    Text.isBlank c ∨ ∃ comment : Span, comment.IsComment text ∧ comment.Has k ∧
      ∀ span ∈ spans, comment.Apart span

/-- The text is gone through from index `i` on, where a count can stand if it is `tight`:
blanks and comments are skipped, and tokens are met on spans. -/
inductive Laid (file : String) (text : List Char) :
    Nat → Bool → List Span → List Token → Prop where
  | done (tight : Bool) : Laid file text text.length tight [] []
  | blank {i : Nat} {tight : Bool} {c : Char} {spans : List Span} {tokens : List Token}
    (here : text[i]? = some c) (blank : Text.isBlank c)
    (rest : Laid file text (i + 1) false spans tokens) :
    Laid file text i tight spans tokens
  | comment {i stop : Nat} {tight : Bool} {spans : List Span} {tokens : List Token}
    (comment : Span.IsComment text ⟨i, stop⟩) (rest : Laid file text stop false spans tokens) :
    Laid file text i tight spans tokens
  | token {i stop : Nat} {tight : Bool} {token : Token} {spans : List Span} {tokens : List Token}
    (shows : Span.Shows file text ⟨i, stop⟩ token)
    (place : ∀ count, token.value = .count count → tight = true)
    (rest : Laid file text stop token.value.isCountable spans tokens) :
    Laid file text i tight (⟨i, stop⟩ :: spans) (token :: tokens)

namespace Laid

variable {file : String} {text : List Char} {i : Nat} {tight : Bool} {spans : List Span}
  {tokens : List Token}

theorem shown (h : Laid file text i tight spans tokens) :
    List.Forall₂ (Span.Shows file text) spans tokens := by
  induction h with
  | done => exact .nil
  | blank _ _ _ ih => exact ih
  | comment _ _ ih => exact ih
  | token shows _ _ ih => exact .cons shows ih

theorem start_le (h : Laid file text i tight spans tokens) : ∀ span ∈ spans, i ≤ span.start := by
  induction h with
  | done => exact List.forall_mem_nil _
  | blank _ _ _ ih =>
      intro span there
      have later := ih span there
      omega
  | @comment i stop _ _ _ comment _ ih =>
      intro span there
      have later := ih span there
      have nonempty : i < stop := comment.nonempty
      omega
  | @token i stop _ _ _ _ shows _ _ ih =>
      intro span there
      rcases List.mem_cons.mp there with rfl | there
      · exact Nat.le_refl _
      · have later := ih span there
        have nonempty : i < stop := shows.nonempty
        omega

theorem ordered (h : Laid file text i tight spans tokens) :
    spans.Pairwise fun a b => a.stop ≤ b.start := by
  induction h with
  | done => exact .nil
  | blank _ _ _ ih => exact ih
  | comment _ _ ih => exact ih
  | token _ _ rest ih => exact .cons rest.start_le ih

/-- A count is the first of the tokens, with the span that begins at once, or it is tied to
the token before it. -/
theorem tied (h : Laid file text i tight spans tokens) {k : Nat} {count : Count} {loc : Location}
    (here : tokens[k]? = some ⟨.count count, loc⟩) :
    (k = 0 ∧ tight = true ∧ ∃ first, spans[0]? = some first ∧ first.start = i) ∨
      Tied spans tokens k := by
  induction h generalizing k with
  | done => cases here
  | blank _ _ _ ih =>
      rcases ih here with ⟨_, loose, _⟩ | tied
      · cases loose
      · exact .inr tied
  | comment _ _ ih =>
      rcases ih here with ⟨_, loose, _⟩ | tied
      · cases loose
      · exact .inr tied
  | token _ place _ ih =>
      cases k with
      | zero =>
          cases here
          exact .inl ⟨rfl, place count rfl, _, rfl, rfl⟩
      | succ k =>
          right
          rcases ih here with ⟨rfl, countable, first, next, begins⟩ | ⟨j, before, a, b, rfl, rest⟩
          · exact ⟨0, _, _, first, rfl, rfl, countable, rfl, next, begins⟩
          · exact ⟨j + 1, before, a, b, rfl, rest⟩

/-- What no token takes up is blank or commented out. -/
theorem left (h : Laid file text i tight spans tokens) {k : Nat} {c : Char} (later : i ≤ k)
    (here : text[k]? = some c) (out : ∀ span ∈ spans, ¬ span.Has k) :
    Text.isBlank c ∨ ∃ comment : Span, i ≤ comment.start ∧ comment.IsComment text ∧ comment.Has k ∧
      ∀ span ∈ spans, comment.Apart span := by
  induction h with
  | done =>
      rw [List.getElem?_eq_none later] at here
      cases here
  | @blank i _ _ _ _ there blank _ ih =>
      rcases Nat.eq_or_lt_of_le later with rfl | beyond
      · cases here.symm.trans there
        exact .inl blank
      · refine (ih beyond out).imp_right ?_
        rintro ⟨comment, after, rest⟩
        exact ⟨comment, by omega, rest⟩
  | @comment i stop _ _ _ comment rest ih =>
      have nonempty : i < stop := comment.nonempty
      rcases Nat.lt_or_ge k stop with inside | beyond
      · -- the tokens come behind this comment
        refine .inr ⟨⟨i, stop⟩, Nat.le_refl i, comment, ⟨later, inside⟩, ?_⟩
        intro span there
        exact .inl (rest.start_le span there)
      · refine (ih beyond out).imp_right ?_
        rintro ⟨comment, after, rest⟩
        exact ⟨comment, by omega, rest⟩
  | @token i stop _ _ _ _ shows _ _ ih =>
      have nonempty : i < stop := shows.nonempty
      obtain ⟨outside, out⟩ := List.forall_mem_cons.mp out
      have beyond : stop ≤ k := by
        by_contra inside
        exact outside ⟨later, by simpa using inside⟩
      refine (ih beyond out).imp_right ?_
      rintro ⟨comment, after, isComment, has, apart⟩
      refine ⟨comment, by omega, isComment, has, ?_⟩
      exact List.forall_mem_cons.mpr ⟨.inr after, apart⟩

theorem layout (h : Laid file text 0 false spans tokens) : Layout file text spans tokens := by
  refine ⟨h.shown, h.ordered, ?_, ?_⟩
  · intro k count loc here
    rcases h.tied here with ⟨_, loose, _⟩ | tied
    · cases loose
    · exact tied
  · intro k c here out
    refine (h.left (Nat.zero_le k) here out).imp_right ?_
    rintro ⟨comment, -, rest⟩
    exact ⟨comment, rest⟩

end Laid

theorem Span.chars_middle (front middle back : List Char) :
    chars ⟨front.length, (front ++ middle).length⟩ ((front ++ middle) ++ back) = middle := by
  rw [chars, List.take_left, List.drop_left]

theorem line_append (text : List Char) :
    '%' :: text.takeWhile (· != '\n') ++ text.dropWhile (· != '\n') = '%' :: text := by
  rw [List.cons_append, List.takeWhile_append_dropWhile]

theorem not_mem_line (text : List Char) : '\n' ∉ text.takeWhile (· != '\n') := by
  intro feed
  have other := List.mem_takeWhile_imp feed
  cases other

theorem feed_behind_line (text : List Char) : ∀ c ∈ (text.dropWhile (· != '\n')).head?, c = '\n' := by
  intro c first
  have feed := List.head?_dropWhile_not (· != '\n') text
  rw [Option.mem_def.mp first] at feed
  simpa using feed

theorem isComment_line (front text : List Char) :
    Span.IsComment (front ++ '%' :: text)
      ⟨front.length, (front ++ '%' :: text.takeWhile (· != '\n')).length⟩ := by
  have whole : front ++ '%' :: text =
      (front ++ '%' :: text.takeWhile (· != '\n')) ++ text.dropWhile (· != '\n') := by
    rw [List.append_assoc, line_append]
  refine ⟨by simp, by simp, ?_, ?_⟩
  · rw [whole, Span.chars_middle]
    intro feed
    rcases List.mem_cons.mp feed with mark | feed
    · cases mark
    · exact not_mem_line text feed
  · have feed := feed_behind_line text
    rw [whole]
    cases ahead : text.dropWhile (· != '\n') with
    | nil => exact .inl (by rw [List.append_nil])
    | cons c back =>
        rw [ahead] at feed
        obtain rfl := feed c rfl
        exact .inr (by simp)

theorem shows_of_cut {loc : Location} {tight : Bool} {c : Char} {text : List Char} {piece : Cut}
    (found : cut loc tight c text = .ok piece) {file : String} {front : List Char}
    (place : loc = (Location.start file).after front) :
    Span.Shows file (front ++ c :: text) ⟨front.length, (front ++ piece.spelling).length⟩
      ⟨piece.value, loc⟩ := by
  have whole := (cut_of found).append
  refine ⟨?_, ?_, ?_, ?_⟩
  · obtain ⟨tail, spelled, -⟩ := cut_of found
    simp [spelled]
  · rw [← whole]
    simp
  · rw [place, Location.after_start]
    simp
  · rw [← whole, ← List.append_assoc, Span.chars_middle]
    exact cut_spelled found

/-- Scanning goes through the text. The induction follows the scanner, behind the front
part that it has gone over already. -/
theorem laid_of_scanFrom {loc : Location} {tight : Bool} {text : List Char} {tokens : List Token}
    (h : scanFrom loc tight text = .ok tokens) {file : String} (front : List Char)
    (place : loc = (Location.start file).after front) :
    ∃ spans, Laid file (front ++ text) front.length tight spans tokens := by
  fun_induction scanFrom loc tight text generalizing front tokens with
  | case1 =>
      cases h
      exact ⟨[], by rw [List.append_nil]; exact .done _⟩
  | case2 loc tight c text blank ih =>
      obtain ⟨spans, rest⟩ := ih h (front ++ [c]) (by rw [place, Location.after_append]; rfl)
      rw [List.append_assoc, List.singleton_append, List.length_append] at rest
      exact ⟨spans, .blank (by simp) blank rest⟩
  | case3 loc tight text _ comment =>
      rename_i ih
      obtain ⟨spans, rest⟩ := ih h (front ++ comment) (by rw [place, Location.after_append])
      rw [List.append_assoc, line_append] at rest
      exact ⟨spans, .comment (isComment_line front text) rest⟩
  | case4 | case5 => cases h
  | case6 loc tight c text _ _ piece found tokens scanned ih =>
      cases h
      have whole := (cut_of found).append
      obtain ⟨spans, rest⟩ := ih scanned (front ++ piece.spelling) (by rw [place, Location.after_append])
      rw [List.append_assoc, whole] at rest
      exact ⟨_, .token (shows_of_cut found place)
        (fun count counts => (valued_of_cut found counts).1) rest⟩

/-- A text that is scanned is laid out in its tokens, with nothing left but blanks and
comments. -/
theorem scan_layout {file text : String} {tokens : List Token} (scanned : scan file text = .ok tokens) :
    ∃ spans, Layout file text.toList spans tokens := by
  obtain ⟨spans, laid⟩ := laid_of_scanFrom scanned [] rfl
  exact ⟨spans, laid.layout⟩

/-- A text with a quoted percent sign, a comment and a string over two lines. -/
def winding : String := "+\x27% % c\n\x22x\ny\x222 #^a/b:m"

def windingTokens : List Token :=
  [⟨.op .increment, ⟨"m", 1, 1⟩⟩, ⟨.count (.char "%"), ⟨"m", 1, 2⟩⟩,
    ⟨.text [120, 10, 121], ⟨"m", 2, 1⟩⟩, ⟨.count (.hex "2"), ⟨"m", 3, 3⟩⟩,
    ⟨.ref ⟨1, ["a", "b"]⟩, ⟨"m", 3, 5⟩⟩, ⟨.define "m", ⟨"m", 3, 10⟩⟩]

theorem scan_layout_winding :
    scan "m" winding = .ok windingTokens ∧ ∃ spans, Layout "m" winding.toList spans windingTokens ∧
      Tied spans windingTokens 1 ∧ Tied spans windingTokens 3 := by
  have scanned : scan "m" winding = .ok windingTokens := by decide +kernel
  obtain ⟨spans, layout⟩ := scan_layout scanned
  exact ⟨scanned, spans, layout, layout.tied 1 _ _ rfl, layout.tied 3 _ _ rfl⟩

end Token

end ByteTape
