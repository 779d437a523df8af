import ByteTape.Json.Read
import ByteTape.Json.Write
import ByteTape.Proofs.Text.Hex
import ByteTape.Proofs.Text.Utf8

/-! # Texts in JSON

A text is written in printable ASCII, whatever its code points are, and read back as it was: a
code point comes back from its escape, and one that takes two units from its two escapes. Left out
are texts in which two halves of a pair stand side by side, as they come back as one character.
-/

namespace ByteTape.JsonValue

open Text (CodePoint)
open Text.CodePoint (ofUnit)

/-- The character is printable and in ASCII. -/
def Visible (c : Char) : Prop := 0x20 ≤ c.toNat ∧ c.toNat < 0x7f

instance (c : Char) : Decidable (Visible c) := inferInstanceAs (Decidable (_ ∧ _))

/-- The ways to write a character: by a letter behind a backslash, as it is, or by the number of its
one or two units. -/
inductive Escape (c : Char) : List Char → Prop where
  | letter {l : Char} (visible : Visible l) (other : l ≠ 'u') (known : unescape? l = some c) :
    Escape c ['\\', l]
  | plain (visible : Visible c) (quote : c ≠ '\x22') (mark : c ≠ '\\') : Escape c [c]
  | unit (short : c.toNat < 0x10000) : Escape c (escapeUnit c.toNat)
  | pair (long : 0x10000 ≤ c.toNat) :
    Escape c (escapeUnit (surrogates c.toNat).1 ++ escapeUnit (surrogates c.toNat).2)

theorem escapeChar_cases (c : Char) : Escape c (escapeChar c) := by
  have named {d : Char} (same : c.toNat = d.toNat) : d = c := by
    rw [← Char.ofNat_toNat c, same, Char.ofNat_toNat]
  have known {l d : Char} (known : unescape? l = some d) (same : c.toNat = d.toNat) :
      unescape? l = some c := known.trans (congrArg some (named same))
  unfold escapeChar
  dsimp only
  split_ifs with quoted feed back tab erase page range short
  · simp only [Bool.or_eq_true, decide_eq_true_eq] at quoted
    rcases quoted with same | same
    · obtain rfl : '\x22' = c := named same
      exact .letter (by decide) (by decide) rfl
    · obtain rfl : '\\' = c := named same
      exact .letter (by decide) (by decide) rfl
  · exact .letter (by decide) (by decide) (known rfl feed)
  · exact .letter (by decide) (by decide) (known rfl back)
  · exact .letter (by decide) (by decide) (known rfl tab)
  · exact .letter (by decide) (by decide) (known rfl erase)
  · exact .letter (by decide) (by decide) (known rfl page)
  · simp only [Bool.or_eq_true, decide_eq_true_eq, not_or] at quoted
    simp only [Bool.and_eq_true, decide_eq_true_eq] at range
    refine .plain range ?_ ?_
    · rintro rfl
      exact quoted.1 rfl
    · rintro rfl
      exact quoted.2 rfl
  · exact .unit short
  · exact .pair (Nat.le_of_not_lt short)

theorem unescape?_lt {l c : Char} (known : unescape? l = some c) : c.toNat < 0x10000 := by
  unfold unescape? at known
  split at known <;> cases known <;> decide

theorem ofUnit_toNat {c : Char} (short : c.toNat < 0x10000) : ofUnit c.toNat = .char c := by
  have valid : c.toNat.isValidChar := c.valid
  unfold Nat.isValidChar at valid
  rw [ofUnit, if_neg (by simp; omega), if_neg (by simp; omega), Char.ofNat_toNat]

theorem ofUnit_high (bits : Fin 0x400) : ofUnit (0xd800 + bits) = .high bits := by
  have last := bits.isLt
  rw [ofUnit, if_pos (by simp; omega), Nat.add_sub_cancel_left, Fin.ofNat_val_eq_self]

theorem ofUnit_low (bits : Fin 0x400) : ofUnit (0xdc00 + bits) = .low bits := by
  have last := bits.isLt
  rw [ofUnit, if_neg (by simp), if_pos (by simp; omega), Nat.add_sub_cancel_left, Fin.ofNat_val_eq_self]

/-- What a code point is read as before halves are joined. -/
def points : CodePoint → JsonText
  | .char c =>
    if c.toNat < 0x10000 then [.char c]
    else [ofUnit (surrogates c.toNat).1, ofUnit (surrogates c.toNat).2]
  | .high bits => [.high bits]
  | .low bits => [.low bits]

/-- What was read, with other code points in front. -/
def prepend (front : JsonText) (read : Option (JsonText × List Char)) : Option (JsonText × List Char) :=
  read.map fun found => (front ++ found.1, found.2)

theorem prepend_prepend (front back : JsonText) (read : Option (JsonText × List Char)) :
    prepend front (prepend back read) = prepend (front ++ back) read := by
  cases read with
  | none => rfl
  | some found => simp [prepend]

section

variable {c : Char} {n : Nat} (rest : List Char)

theorem readPoints_number {a b d e : Char} (known : unit? a b d e = some n) :
    readPoints ('\\' :: 'u' :: a :: b :: d :: e :: rest) = prepend [ofUnit n] (readPoints rest) := by
  rw [readPoints, known]
  cases readPoints rest <;> rfl

theorem readPoints_letter {l : Char} (letter : l ≠ 'u') (known : unescape? l = some c) :
    readPoints ('\\' :: l :: rest) = prepend [.char c] (readPoints rest) := by
  rw [readPoints]
  · rw [known]
    cases readPoints rest <;> rfl
  · intro _ _ _ _ _ same
    exact absurd same letter

theorem readPoints_plain (quote : c ≠ '\x22') (mark : c ≠ '\\') (visible : 0x20 ≤ c.toNat) :
    readPoints (c :: rest) = prepend [.char c] (readPoints rest) := by
  rw [readPoints]
  · rw [if_neg (Nat.not_lt.mpr visible)]
    cases readPoints rest <;> rfl
  · exact quote
  · intro _ _ _ _ _ same
    exact absurd same mark
  · intro _ _ same
    exact absurd same mark

theorem readPoints_escapeUnit (small : n < 0x10000) :
    readPoints (escapeUnit n ++ rest) = prepend [ofUnit n] (readPoints rest) := by
  rw [escapeUnit, Text.hexDigits_four small]
  apply readPoints_number
  rw [unit?, Text.hexValue?_digitChar (by omega), Text.hexValue?_digitChar (by omega),
    Text.hexValue?_digitChar (by omega), Text.hexValue?_digitChar (by omega)]
  refine congrArg some ?_
  omega

theorem surrogates_range (long : 0x10000 ≤ c.toNat) :
    0xd800 ≤ (surrogates c.toNat).1 ∧ (surrogates c.toNat).1 < 0xdc00 ∧
      0xdc00 ≤ (surrogates c.toNat).2 ∧ (surrogates c.toNat).2 < 0xe000 := by
  have last := Text.toNat_lt c
  simp only [surrogates]
  omega

theorem readPoints_escapeChar (c : Char) :
    readPoints (escapeChar c ++ rest) = prepend (points (.char c)) (readPoints rest) := by
  have narrow (short : c.toNat < 0x10000) : points (.char c) = [.char c] := if_pos short
  have form := escapeChar_cases c
  generalize escapeChar c = written at form ⊢
  cases form with
  | letter visible other known =>
      rw [narrow (unescape?_lt known)]
      exact readPoints_letter rest other known
  | plain visible quote mark =>
      have last := visible.2
      rw [narrow (by omega)]
      exact readPoints_plain rest quote mark visible.1
  | unit short =>
      rw [narrow short, ← ofUnit_toNat short]
      exact readPoints_escapeUnit rest short
  | pair long =>
      obtain ⟨-, high, -, low⟩ := surrogates_range long
      have two : points (.char c) = [ofUnit (surrogates c.toNat).1, ofUnit (surrogates c.toNat).2] :=
        if_neg (Nat.not_lt.mpr long)
      rw [List.append_assoc, readPoints_escapeUnit _ (by omega), readPoints_escapeUnit _ (by omega),
        prepend_prepend, two]
      rfl

theorem readPoints_escape (point : CodePoint) :
    readPoints (escape point ++ rest) = prepend (points point) (readPoints rest) := by
  cases point with
  | char c => exact readPoints_escapeChar rest c
  | high bits =>
      have small : 0xd800 + bits.val < 0x10000 := by omega
      have read := readPoints_escapeUnit rest small
      rwa [ofUnit_high] at read
  | low bits =>
      have small : 0xdc00 + bits.val < 0x10000 := by omega
      have read := readPoints_escapeUnit rest small
      rwa [ofUnit_low] at read

end

/-- No first half stands before a second one, with which it would be a character. -/
def Joined : JsonText → Prop
  | .high _ :: .low _ :: _ => False
  | _ :: rest => Joined rest
  | [] => True

theorem joined_codePoints (text : String) : Joined text := by
  rw [Text.codePoints]
  induction text.toList with
  | nil => exact trivial
  | cons c text ih => exact ih

theorem join_cons {point : CodePoint} {text : JsonText}
    (apart : ∀ first second rest, point = .high first → text ≠ .low second :: rest) :
    join (point :: text) = point :: join text := by
  rw [join]
  rintro first second rest rfl
  exact apart first second rest rfl

theorem points_cases (c : Char) :
    points (.char c) = [.char c] ∨ ∃ first second, points (.char c) = [.high first, .low second] ∧
      CodePoint.ofPair first second = .char c := by
  rw [points]
  split
  · exact .inl rfl
  · next long =>
    have last := Text.toNat_lt c
    have first : (c.toNat - 0x10000) / 0x400 < 0x400 := by omega
    have second : (c.toNat - 0x10000) % 0x400 < 0x400 := by omega
    have number : 0x10000 + (c.toNat - 0x10000) / 0x400 * 0x400 + (c.toNat - 0x10000) % 0x400 =
        c.toNat := by omega
    refine .inr ⟨⟨_, first⟩, ⟨_, second⟩, ?_, ?_⟩
    · rw [← ofUnit_high, ← ofUnit_low, surrogates]
    · rw [CodePoint.ofPair, number, Char.ofNat_toNat]

theorem Joined.flatMap_ne {bits second : Fin 0x400} {text rest : JsonText}
    (joined : Joined (.high bits :: text)) : text.flatMap points ≠ .low second :: rest := by
  intro next
  cases text with
  | nil => cases next
  | cons point text =>
      cases point with
      | low => exact joined
      | high => cases next
      | char c => obtain single | ⟨_, _, two, -⟩ := points_cases c <;> simp_all

theorem Joined.rest {point : CodePoint} {text : JsonText} (joined : Joined (point :: text)) :
    Joined text := by
  unfold Joined at joined
  split at joined
  · exact joined.elim
  · next same => exact (List.cons.inj same).2 ▸ joined
  · next same => cases same

theorem join_flatMap {text : JsonText} (joined : Joined text) : join (text.flatMap points) = text := by
  induction text with
  | nil => rfl
  | cons point text ih =>
      rw [List.flatMap_cons]
      cases point with
      | char c =>
          obtain single | ⟨first, second, two, whole⟩ := points_cases c
          · rw [single, List.singleton_append, join_cons (by simp), ih joined.rest]
          · rw [two, List.cons_append, List.singleton_append, join, whole, ih joined.rest]
      | high bits =>
          rw [points, List.singleton_append, join_cons, ih joined.rest]
          exact fun _ _ _ _ => joined.flatMap_ne
      | low bits => rw [points, List.singleton_append, join_cons (by simp), ih joined.rest]

theorem readPoints_flatMap (text : JsonText) (rest : List Char) :
    readPoints (text.flatMap escape ++ '\x22' :: rest) = some (text.flatMap points, rest) := by
  induction text with
  | nil => rw [List.flatMap_nil, List.nil_append, readPoints, List.flatMap_nil]
  | cons point text ih =>
      rw [List.flatMap_cons, List.append_assoc, readPoints_escape, ih, List.flatMap_cons]
      rfl

/-- A text is read back, whatever follows its closing quote. -/
theorem readText_writeText {text : JsonText} (joined : Joined text) (rest : List Char) :
    (writeText text).toList ++ rest = '\x22' :: (text.flatMap escape ++ '\x22' :: rest) ∧
      readText (text.flatMap escape ++ '\x22' :: rest) = .ok (text, rest) := by
  constructor
  · simp [writeText]
  · rw [readText, readPoints_flatMap]
    dsimp only
    rw [join_flatMap joined]

theorem visible_digitChar {d : Nat} (small : d < 16) : Visible (Nat.digitChar d) := by
  have known : ∀ d < 16, Visible (Nat.digitChar d) := by decide
  exact known d small

theorem visible_escapeUnit {n : Nat} {d : Char} (among : d ∈ escapeUnit n) : Visible d := by
  simp only [escapeUnit, List.mem_cons] at among
  rcases among with rfl | rfl | among
  · decide
  · decide
  · rcases Text.mem_padLeft among with rfl | inside
    · decide
    · obtain ⟨digit, small, rfl⟩ := Text.mem_toDigits (by decide) inside
      exact visible_digitChar small

theorem visible_escapeChar {c d : Char} (among : d ∈ escapeChar c) : Visible d := by
  have form := escapeChar_cases c
  generalize escapeChar c = written at form among
  cases form with
  | letter visible other known =>
      rcases List.mem_pair.mp among with rfl | rfl
      · decide
      · exact visible
  | plain visible quote mark => exact List.mem_singleton.mp among ▸ visible
  | unit short => exact visible_escapeUnit among
  | pair long => exact (List.mem_append.mp among).elim visible_escapeUnit visible_escapeUnit

theorem visible_escape {point : CodePoint} {d : Char} (among : d ∈ escape point) : Visible d := by
  cases point with
  | char c => exact visible_escapeChar among
  | high | low => exact visible_escapeUnit among

theorem visible_writeText {text : JsonText} {d : Char} (among : d ∈ (writeText text).toList) :
    Visible d := by
  simp only [writeText, String.toList_ofList, List.mem_append, List.mem_cons, List.mem_flatMap,
    List.not_mem_nil, or_false] at among
  rcases among with (rfl | ⟨c, -, inside⟩) | rfl
  · decide
  · exact visible_escape inside
  · decide

end ByteTape.JsonValue
