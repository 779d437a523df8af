import Mathlib.Data.List.Basic
import ByteTape.Proofs.Text.Numeral
import ByteTape.Token.Scan

/-! # Spelling

How tokens are written: each with a space before it, but a count directly behind what
it counts. Tokens that are written so are scanned back one by one. A token ends where
the next space or count begins, and this is all that has to be known of what follows.
-/

namespace ByteTape

/-- A word of letters and underscores. -/
def IsName (name : String) : Prop := name.toList ≠ [] ∧ ∀ c ∈ name.toList, Token.isNameChar c

/-- A path over names that goes somewhere. -/
structure Path.Writable (p : Path) : Prop where
  named : ∀ step ∈ p.steps, IsName step
  leads : 0 < p.up + p.steps.length

namespace Count

/-- One or two hexadecimal digits, or a single byte that does not end its line. -/
def Writable : Count → Prop
  | hex digits => (1 ≤ digits.length ∧ digits.length ≤ 2) ∧ ∀ c ∈ digits.toList, Text.isHexDigit c
  | char text => ∃ c, text.toList = [c] ∧ c.toNat ≤ 0xff ∧ c ≠ '\n'
  | other .. => False

/-- The count does not begin with a letter. -/
def Decimal : Count → Prop
  | hex digits => ∀ c ∈ digits.toList.head?, '0' ≤ c ∧ c ≤ '9'
  | char _ | other .. => True

def spelling : Count → List Char
  | hex digits => digits.toList
  | char text => '\x27' :: text.toList
  | other _ text => text.toList

end Count

/-- A byte as it is written between quotes. -/
def Text.escaped (b : UInt8) : List Char :=
  if b = 34 then ['\\', '\x22'] else if b = 92 then ['\\', '\\'] else [Char.ofNat b.toNat]

namespace Token

namespace Value

def spelling : Value → List Char
  | .op o => [o.symbol]
  | .debug => ['?']
  | .text bytes => '\x22' :: (bytes.flatMap Text.escaped ++ ['\x22'])
  | .ref path => '#' :: path.render.toList
  | .count number => number.spelling
  | .define name => ':' :: name.toList
  | .openBody => ['\x7b']
  | .closeBody => ['\x7d']
  | .openGroup => ['(']
  | .closeGroup => [')']
  | .use => ['u', 's', 'e']
  | .other _ => []

/-- There is a spelling of the value. -/
def Writable : Value → Prop
  | .op o => o ≠ .debug
  | .ref path => path.Writable
  | .count number => number.Writable
  | .define name => IsName name
  | .other _ => False
  | .debug | .text _ | .openBody | .closeBody | .openGroup | .closeGroup | .use => True

/-- The count may stand directly behind the value. -/
def Takes (count : Count) : Value → Prop
  | .ref _ => count.Decimal
  | value => value.isCountable

def isCount : Value → Bool
  | .count _ => true
  | _ => false

/-- The value with the space before it. -/
def written (value : Value) : List Char := (if value.isCount then [] else [' ']) ++ value.spelling

end Value

/-- Values one behind the other. -/
def spelled (values : List Value) : List Char := values.flatMap Value.written

/-- The values can be written, and each count behind what is before it. -/
def Fits : List Value → Prop
  | [] => True
  | value :: rest =>
    value.Writable ∧ (∀ count, rest.head? = some (.count count) → value.Takes count) ∧ Fits rest

theorem spelled_cons (value : Value) (rest : List Value) :
    spelled (value :: rest) = value.written ++ spelled rest := by
  simp [spelled]

theorem spelled_append (front back : List Value) :
    spelled (front ++ back) = spelled front ++ spelled back := by
  simp [spelled]

theorem Fits.append {front back : List Value} (h : Fits front) (h' : Fits back)
    (joint : ∀ count, back.head? = some (.count count) →
      ∃ value, front.getLast? = some value ∧ value.Takes count) : Fits (front ++ back) := by
  induction front with
  | nil => exact h'
  | cons value rest ih =>
      obtain ⟨writable, taken, fits⟩ := h
      cases rest with
      | nil =>
          refine ⟨writable, ?_, h'⟩
          intro count ahead
          obtain ⟨last, same, takes⟩ := joint count ahead
          cases same
          exact takes
      | cons next rest =>
          refine ⟨writable, taken, ih fits ?_⟩
          intro count ahead
          obtain ⟨last, same, takes⟩ := joint count ahead
          rw [List.getLast?_cons_cons] at same
          exact ⟨last, same, takes⟩

section
variable {p : Char → Bool} {front rest : List Char}

theorem takeWhile_append_of_stop (all : ∀ c ∈ front, p c) (stop : ∀ c ∈ rest.head?, ¬ p c) :
    (front ++ rest).takeWhile p = front := by
  rw [List.takeWhile_append_of_pos all]
  cases rest with
  | nil => simp
  | cons c rest =>
      have out := stop c rfl
      simp [out]

theorem dropWhile_append_of_stop (all : ∀ c ∈ front, p c) (stop : ∀ c ∈ rest.head?, ¬ p c) :
    (front ++ rest).dropWhile p = rest := by
  rw [List.dropWhile_append_of_pos all]
  cases rest with
  | nil => simp
  | cons c rest =>
      have out := stop c rfl
      simp [out]

end

theorem cutText_ordinary {c : Char} (quote : c ≠ '\x22') (mark : c ≠ '\\') (start loc : Location)
    (text : List Char) :
    cutText start loc (c :: text) =
      if 0xff < c.toNat then .error (.wideText c start)
      else (cutText start (loc.next c) text).map fun (bytes, spelling, rest) =>
        (UInt8.ofNat c.toNat :: bytes, c :: spelling, rest) := by
  rw [cutText.eq_def]
  split
  · next none => cases none
  · next same => cases same; exact absurd rfl mark
  · next same => cases same; exact absurd rfl quote
  · next same => cases same; exact absurd rfl mark
  · next same =>
      cases same
      cases cutText start (loc.next c) text <;> rfl

theorem cutText_plain {start loc : Location} {c : Char} {text : List Char} {bytes : List UInt8}
    {spelling rest : List Char} (quote : c ≠ '\x22') (mark : c ≠ '\\') (narrow : c.toNat ≤ 0xff)
    (h : cutText start (loc.next c) text = .ok (bytes, spelling, rest)) :
    cutText start loc (c :: text) = .ok (UInt8.ofNat c.toNat :: bytes, c :: spelling, rest) := by
  have within : ¬ 0xff < c.toNat := by omega
  rw [cutText_ordinary quote mark, if_neg within, h]
  rfl

theorem toNat_latin (b : UInt8) : (Char.ofNat b.toNat).toNat = b.toNat := by
  have small := b.toNat_lt
  have valid : b.toNat.isValidChar := .inl (by omega)
  rw [Char.ofNat, dif_pos valid]
  rfl

theorem cutText_escaped (bytes : List UInt8) (start loc : Location) (rest : List Char) :
    cutText start loc (bytes.flatMap Text.escaped ++ '\x22' :: rest) =
      .ok (bytes, bytes.flatMap Text.escaped ++ ['\x22'], rest) := by
  induction bytes generalizing loc with
  | nil => simp [cutText]
  | cons b bytes ih =>
      rw [List.flatMap_cons, List.append_assoc, Text.escaped]
      split
      · next quote => simp [cutText, escape?, ih, quote]
      · next quote =>
          split
          · next mark => simp [cutText, escape?, ih, mark]
          · next mark =>
              have code := toNat_latin b
              have small := b.toNat_lt
              have apart {d : Char} (other : b ≠ UInt8.ofNat d.toNat) : Char.ofNat b.toNat ≠ d := by
                rintro rfl
                rw [code, UInt8.ofNat_toNat] at other
                exact other rfl
              have cut := cutText_plain (apart quote) (apart mark) (by omega) (ih (loc.next _))
              rw [code, UInt8.ofNat_toNat] at cut
              exact cut

/-- What follows does not go on with a path: neither with a name nor with the mark, which is
a slash behind a step and a caret behind carets. -/
def EndsPath (mark : Char) (rest : List Char) : Prop := ∀ c ∈ rest.head?, ¬ isNameChar c ∧ c ≠ mark

def stepsSpelling (steps : List String) : List Char := steps.flatMap fun step => '/' :: step.toList

theorem EndsPath.after_steps {mark : Char} {rest : List Char} (ends : EndsPath mark rest)
    (steps : List String) : ∀ c ∈ (stepsSpelling steps ++ rest).head?, ¬ isNameChar c := by
  intro c first
  cases steps with
  | nil => exact (ends c first).1
  | cons step steps =>
      cases first
      decide

theorem cutSteps_spelling {steps : List String} (named : ∀ step ∈ steps, IsName step) {rest : List Char}
    (ends : EndsPath '/' rest) (loc : Location) :
    cutSteps loc (stepsSpelling steps ++ rest) = .ok (steps, stepsSpelling steps, rest) := by
  induction steps generalizing loc with
  | nil =>
      rw [cutSteps.eq_def]
      split
      · next same =>
          have slash := (ends '/' (by rw [show rest = _ from same]; rfl)).2
          exact absurd rfl slash
      · rfl
  | cons step steps ih =>
      obtain ⟨⟨nonempty, letters⟩, named⟩ := List.forall_mem_cons.mp named
      have stop := ends.after_steps steps
      have whole : stepsSpelling (step :: steps) ++ rest =
          '/' :: (step.toList ++ (stepsSpelling steps ++ rest)) := by
        simp [stepsSpelling]
      rw [whole, cutSteps, takeWhile_append_of_stop letters stop, dropWhile_append_of_stop letters stop,
        if_neg (by simpa using nonempty), ih named]
      simp [stepsSpelling]

theorem toList_render_cons (up : Nat) (step : String) (steps : List String) :
    (Path.render ⟨up, step :: steps⟩).toList =
      List.replicate up '^' ++ (step.toList ++ stepsSpelling steps) := by
  have joined : ['/'].intercalate ((step :: steps).map String.toList) =
      step.toList ++ stepsSpelling steps := by
    induction steps generalizing step with
    | nil => simp [stepsSpelling]
    | cons next steps ih =>
        have rest := ih next
        simp only [List.map_cons] at rest ⊢
        rw [List.intercalate_cons_cons, rest]
        simp [stepsSpelling]
  rw [Path.render, String.toList_append, String.toList_ofList, String.toList_intercalate]
  exact congrArg _ joined

/-- The mark that would go on with a path. -/
def pathMark (path : Path) : Char := if path.steps.isEmpty then '^' else '/'

theorem endsPath_of_apart {path : Path} {rest : List Char}
    (apart : ∀ c ∈ rest.head?, ¬ isNameChar c ∧ c ≠ '/' ∧ c ≠ '^') : EndsPath (pathMark path) rest := by
  intro c first
  refine ⟨(apart c first).1, ?_⟩
  rw [pathMark]
  split
  · exact (apart c first).2.2
  · exact (apart c first).2.1

theorem cutReference_render {path : Path} (writable : path.Writable) {rest : List Char}
    (ends : EndsPath (pathMark path) rest) (loc : Location) :
    cutReference loc (path.render.toList ++ rest) = .ok ⟨.ref path, '#' :: path.render.toList, rest⟩ := by
  obtain ⟨up, steps⟩ := path
  have carets : ∀ c ∈ List.replicate up '^', (c == '^') = true := by
    intro c there
    simp [List.eq_of_mem_replicate there]
  cases steps with
  | nil =>
      have spelled : (Path.render ⟨up, []⟩).toList = List.replicate up '^' := by
        simp [Path.render]
      have stop : ∀ c ∈ rest.head?, ¬ (c == '^') = true := by
        intro c first
        simpa [pathMark] using (ends c first).2
      have word : rest.takeWhile isNameChar = [] := by
        cases rest with
        | nil => rfl
        | cons c rest => simp [(ends c rfl).1]
      have leads : up ≠ 0 := by
        have := writable.leads
        simp at this
        omega
      simp only [cutReference, spelled, takeWhile_append_of_stop carets stop,
        dropWhile_append_of_stop carets stop, word]
      simp [leads]
  | cons step steps =>
      obtain ⟨⟨nonempty, letters⟩, named⟩ := List.forall_mem_cons.mp writable.named
      have tail : ∀ c ∈ (step.toList ++ (stepsSpelling steps ++ rest)).head?, ¬ (c == '^') = true := by
        intro c first
        obtain ⟨d, text, spelled⟩ := List.exists_cons_of_ne_nil nonempty
        have letter := letters d (by rw [spelled]; exact List.mem_cons_self)
        rw [spelled] at first
        cases first
        rw [beq_iff_eq]
        rintro rfl
        cases letter
      have stop := ends.after_steps steps
      have whole : (Path.render ⟨up, step :: steps⟩).toList ++ rest =
          List.replicate up '^' ++ (step.toList ++ (stepsSpelling steps ++ rest)) := by
        rw [toList_render_cons, List.append_assoc, List.append_assoc]
      rw [whole]
      simp only [cutReference, takeWhile_append_of_stop carets tail,
        dropWhile_append_of_stop carets tail, takeWhile_append_of_stop letters stop,
        dropWhile_append_of_stop letters stop, cutSteps_spelling named ends, toList_render_cons]
      simp [nonempty]

/-- What follows does not belong to the token. -/
def Value.Ends (rest : List Char) : Value → Prop
  | .ref path => EndsPath (pathMark path) rest
  | .define _ => ∀ c ∈ rest.head?, ¬ isNameChar c
  | .use => endsKeyword rest
  | .count (.hex _) => ∀ c ∈ rest.head?, ¬ Text.isHexDigit c
  | .op _ | .debug | .text _ | .count _ | .openBody | .closeBody | .openGroup | .closeGroup
  | .other _ => True

theorem isBlank_apart {c : Char} (blank : Text.isBlank c) :
    ¬ isNameChar c ∧ ¬ Text.isHexDigit c ∧ c ≠ '/' ∧ c ≠ '^' := by
  simp only [Text.isBlank, Bool.or_eq_true, Bool.and_eq_true, decide_eq_true_eq, beq_iff_eq] at blank
  refine ⟨?_, ?_, ?_, ?_⟩
  · simp only [isNameChar, Bool.or_eq_true, Bool.and_eq_true, decide_eq_true_eq, Text.char_le_iff,
      Char.reduceToNat]
    rintro ((rfl | lower) | upper)
    · simp at blank
    · omega
    · omega
  · intro digit
    have range := Text.toNat_of_isHexDigit digit
    omega
  · rintro rfl
    simp at blank
  · rintro rfl
    simp at blank

theorem Value.ends_of_blank (value : Value) {rest : List Char}
    (blank : ∀ c ∈ rest.head?, Text.isBlank c) : value.Ends rest := by
  cases value with
  | op | debug | text | openBody | closeBody | openGroup | closeGroup | other => trivial
  | ref path =>
      apply endsPath_of_apart
      intro c first
      have apart := isBlank_apart (blank c first)
      exact ⟨apart.1, apart.2.2⟩
  | define => exact fun c first => (isBlank_apart (blank c first)).1
  | use =>
      cases rest with
      | nil => rfl
      | cons c rest => simp [Ends, endsKeyword, blank c rfl]
  | count number =>
      cases number with
      | hex => exact fun c first => (isBlank_apart (blank c first)).2.1
      | char | other => trivial

theorem cutHexCount_spelling {digits : String} (writable : (Count.hex digits).Writable)
    {rest : List Char} (ends : ∀ c ∈ rest.head?, ¬ Text.isHexDigit c) :
    ∃ c tail, digits.toList = c :: tail ∧ Text.isHexDigit c ∧
      ∀ loc, cutHexCount loc c (tail ++ rest) = .ok ⟨.count (.hex digits), digits.toList, rest⟩ := by
  obtain ⟨⟨lower, upper⟩, all⟩ := writable
  have same := digits.ofList_toList
  rw [← String.length_toList] at lower upper
  match text : digits.toList with
  | [] => simp [text] at lower
  | [c] =>
      rw [text] at all same
      refine ⟨c, [], rfl, all c (by simp), fun loc => ?_⟩
      cases rest with
      | nil => simp [cutHexCount, same]
      | cons e rest =>
          have other := ends e rfl
          cases rest <;> simp [cutHexCount, same, other]
  | [c, d] =>
      rw [text] at all same
      have digit : Text.isHexDigit d := all d (by simp)
      refine ⟨c, [d], rfl, all c (by simp), fun loc => ?_⟩
      cases rest with
      | nil => simp [cutHexCount, same, digit]
      | cons e rest =>
          have other := ends e rfl
          simp [cutHexCount, same, digit, other]
  | _ :: _ :: _ :: _ => simp [text] at upper

theorem cutCharCount_spelling {text : String} (writable : (Count.char text).Writable) (loc : Location)
    (rest : List Char) :
    cutCharCount loc (text.toList ++ rest) =
      .ok ⟨.count (.char text), '\x27' :: text.toList, rest⟩ := by
  obtain ⟨c, spelled, narrow, line⟩ := writable
  have same := text.ofList_toList
  rw [spelled] at same
  have within : ¬ 0xff < c.toNat := by omega
  simp [spelled, cutCharCount, line, within, same]

theorem cutDefine_spelling {name : String} (named : IsName name) {rest : List Char}
    (stop : ∀ c ∈ rest.head?, ¬ isNameChar c) (loc : Location) :
    cutDefine loc (name.toList ++ rest) = .ok ⟨.define name, ':' :: name.toList, rest⟩ := by
  obtain ⟨nonempty, letters⟩ := named
  simp only [cutDefine, takeWhile_append_of_stop letters stop, dropWhile_append_of_stop letters stop]
  simp [nonempty]

/-- A value that is written is cut again; a count must have its place. -/
theorem cut_spelling {value : Value} (writable : value.Writable) {rest : List Char}
    (ends : value.Ends rest) :
    ∃ c tail, value.spelling = c :: tail ∧ ¬ Text.isBlank c ∧ c ≠ '%' ∧
      ∀ loc, cut loc value.isCount c (tail ++ rest) = .ok ⟨value, c :: tail, rest⟩ := by
  cases value with
  | op o =>
      refine ⟨o.symbol, [], rfl, ?_, ?_, fun loc => ?_⟩
      · cases o <;> decide
      · cases o <;> decide
      · cases o <;> first | rfl | exact absurd rfl writable
  | debug => exact ⟨'?', [], rfl, by decide, by decide, fun _ => rfl⟩
  | openBody | closeBody | openGroup | closeGroup =>
      exact ⟨_, [], rfl, by decide, by decide, fun _ => rfl⟩
  | text bytes =>
      refine ⟨'\x22', _, rfl, by decide, by decide, fun loc => ?_⟩
      have done := cutText_escaped bytes loc (loc.next '\x22') rest
      have none : Op.ofPrimitive? '\x22' = none := rfl
      rw [List.append_assoc, List.singleton_append]
      simp [cut, Value.isCount, none, done]
  | ref path =>
      refine ⟨'#', _, rfl, by decide, by decide, fun loc => ?_⟩
      have none : Op.ofPrimitive? '#' = none := rfl
      simp [cut, Value.isCount, none, cutReference_render writable ends loc]
  | define name =>
      refine ⟨':', _, rfl, by decide, by decide, fun loc => ?_⟩
      have none : Op.ofPrimitive? ':' = none := rfl
      simp [cut, Value.isCount, none, cutDefine_spelling writable ends loc]
  | use =>
      refine ⟨'u', _, rfl, by decide, by decide, fun loc => ?_⟩
      have closed : endsKeyword rest := ends
      have none : Op.ofPrimitive? 'u' = none := rfl
      simp [cut, Value.isCount, none, bracket?, closed]
  | count number =>
      cases number with
      | hex digits =>
          obtain ⟨c, tail, spelled, digit, done⟩ := cutHexCount_spelling writable ends
          refine ⟨c, tail, spelled, ?_, ?_, fun loc => ?_⟩
          · have range := Text.toNat_of_isHexDigit digit
            simp only [Text.isBlank, Bool.or_eq_true, Bool.and_eq_true, decide_eq_true_eq, beq_iff_eq]
            omega
          · rintro rfl
            cases digit
          · rw [← spelled]
            simpa [cut, Value.isCount, digit] using done loc
      | char text =>
          refine ⟨'\x27', _, rfl, by decide, by decide, fun loc => ?_⟩
          exact cutCharCount_spelling writable loc rest
      | other => cases writable
  | other => cases writable

theorem scanFrom_nil (loc : Location) (tight : Bool) : scanFrom loc tight [] = .ok [] := by
  rw [scanFrom.eq_def]

theorem scanFrom_blank {c : Char} (blank : Text.isBlank c) (loc : Location) (tight : Bool)
    (text : List Char) : scanFrom loc tight (c :: text) = scanFrom (loc.next c) false text := by
  rw [scanFrom.eq_def]
  exact if_pos blank

theorem scanFrom_cut {loc : Location} {tight : Bool} {c : Char} {text : List Char} {piece : Cut}
    (visible : ¬ Text.isBlank c) (plain : c ≠ '%') (done : cut loc tight c text = .ok piece) :
    scanFrom loc tight (c :: text) =
      (scanFrom (loc.after piece.spelling) piece.value.isCountable piece.rest).map
        (⟨piece.value, loc⟩ :: ·) := by
  rw [scanFrom.eq_def]
  dsimp only
  rw [if_neg visible, if_neg plain]
  split
  · next failed => cases failed.symm.trans done
  · next found =>
      cases found.symm.trans done
      cases scanFrom (loc.after piece.spelling) piece.value.isCountable piece.rest <;> rfl

theorem scanFrom_spelling {value : Value} (writable : value.Writable) {rest : List Char}
    (ends : value.Ends rest) (loc : Location) :
    scanFrom loc value.isCount (value.spelling ++ rest) =
      (scanFrom (loc.after value.spelling) value.isCountable rest).map (⟨value, loc⟩ :: ·) := by
  obtain ⟨c, tail, spelled, visible, plain, done⟩ := cut_spelling writable ends
  rw [spelled, List.cons_append]
  exact scanFrom_cut visible plain (done loc)

theorem exists_spelling_cons {count : Count} (writable : count.Writable) :
    ∃ c tail, count.spelling = c :: tail ∧
      (c = '\x27' ∨ ∃ digits, count = .hex digits ∧ c ∈ digits.toList.head?) := by
  cases count with
  | hex digits =>
      have nonempty : digits.toList ≠ [] := by
        rw [← List.length_pos_iff, String.length_toList]
        exact writable.1.1
      obtain ⟨c, tail, spelled⟩ := List.exists_cons_of_ne_nil nonempty
      exact ⟨c, tail, spelled, .inr ⟨digits, rfl, by rw [spelled]; rfl⟩⟩
  | char text => exact ⟨_, _, rfl, .inl rfl⟩
  | other => cases writable

theorem Fits.head_spelled {value : Value} {rest : List Value} (fits : Fits (value :: rest)) :
    ∀ c ∈ (spelled rest).head?, c = ' ' ∨ ∃ count, value.Takes count ∧
      (c = '\x27' ∨ ∃ digits, count = .hex digits ∧ c ∈ digits.toList.head?) := by
  intro c first
  obtain ⟨-, taken, fits⟩ := fits
  cases rest with
  | nil => cases first
  | cons next rest =>
      rw [spelled_cons, Value.written] at first
      cases counts : next.isCount with
      | false =>
          rw [counts] at first
          cases first
          exact .inl rfl
      | true =>
          cases next <;> cases counts
          next count =>
            obtain ⟨c', tail, spelled, origin⟩ := exists_spelling_cons fits.1
            simp only [Value.isCount, if_true, List.nil_append, Value.spelling, spelled] at first
            cases first
            exact .inr ⟨count, taken count rfl, origin⟩

theorem Fits.ends {value : Value} {rest : List Value} (fits : Fits (value :: rest)) :
    value.Ends (spelled rest) := by
  have head := fits.head_spelled
  cases value with
  | op | debug | text | openBody | closeBody | openGroup | closeGroup | other => trivial
  | define | use | count =>
      apply Value.ends_of_blank
      intro c first
      obtain rfl | ⟨count, takes, -⟩ := head c first
      · rfl
      · cases takes
  | ref path =>
      apply endsPath_of_apart
      intro c first
      obtain rfl | ⟨count, decimal, rfl | ⟨digits, rfl, there⟩⟩ := head c first
      · decide
      · decide
      · have range := decimal c there
        simp only [Text.char_le_iff, Char.reduceToNat] at range
        refine ⟨?_, ?_, ?_⟩
        · simp only [isNameChar, Bool.or_eq_true, Bool.and_eq_true, decide_eq_true_eq,
            Text.char_le_iff, Char.reduceToNat]
          rintro ((rfl | letter) | letter)
          · simp at range
          · omega
          · omega
        · rintro rfl
          simp at range
        · rintro rfl
          simp at range

/-- Values that are written are scanned back. -/
theorem scanFrom_spelled {values : List Value} (fits : Fits values) (loc : Location) (tight : Bool)
    (place : ∀ count, values.head? = some (.count count) → tight = true) :
    ∃ tokens, scanFrom loc tight (spelled values) = .ok tokens ∧ tokens.map Token.value = values := by
  induction values generalizing loc tight with
  | nil => exact ⟨[], scanFrom_nil loc tight, rfl⟩
  | cons value rest ih =>
      have ends := fits.ends
      obtain ⟨writable, taken, fits⟩ := fits
      have place' : ∀ count, rest.head? = some (.count count) → value.isCountable = true := by
        intro count ahead
        have takes := taken count ahead
        cases value <;> first | rfl | cases takes
      have begins : ∃ start, scanFrom loc tight (spelled (value :: rest)) =
          scanFrom start value.isCount (value.spelling ++ spelled rest) := by
        rw [spelled_cons, Value.written]
        cases counts : value.isCount with
        | true =>
            cases value <;> cases counts
            exact ⟨loc, by rw [place _ rfl]; rfl⟩
        | false => exact ⟨loc.next ' ', scanFrom_blank rfl loc tight _⟩
      obtain ⟨start, begins⟩ := begins
      obtain ⟨tokens, scanned, same⟩ := ih fits (start.after value.spelling) _ place'
      refine ⟨⟨value, start⟩ :: tokens, ?_, by rw [List.map_cons, same]⟩
      rw [begins, scanFrom_spelling writable ends, scanned]
      rfl

end Token

end ByteTape
