import Mathlib.Data.List.Basic
import ByteTape.Build

/-! # Positions in a text

A position is a line and a column of a text that is cut at its line feeds. What is
reached by going over a front part of the text, character by character, is such a
position, and the character that comes next is the one that stands there.
-/

namespace ByteTape

namespace Source

/-- The lines of the text, without the line feeds between them. -/
def lines (s : Source) : List (List Char) := Text.pieces (· == '\n') s.text.toList

/-- The line with a number, counted from one. -/
def line? (s : Source) (n : Int) : Option (List Char) :=
  if 1 ≤ n then s.lines[(n - 1).toNat]? else none

/-- The character at a position, if the position is one of this text. -/
def charAt? (s : Source) (loc : Location) : Option Char :=
  if loc.file = s.file ∧ 1 ≤ loc.column then
    (s.line? loc.line).bind fun text => text[(loc.column - 1).toNat]?
  else none

/-- The position is one of this text: that of a character on a line, or the one behind
the line, where its line feed stands or the text ends. -/
def Covers (s : Source) (loc : Location) : Prop :=
  loc.file = s.file ∧ ∃ line, s.line? loc.line = some line ∧
    1 ≤ loc.column ∧ loc.column ≤ line.length + 1

end Source

theorem Text.pieces_eq_cons (isSeparator : Char → Bool) (text : List Char) :
    ∃ rest, Text.pieces isSeparator text = text.takeWhile (fun c => !isSeparator c) :: rest := by
  induction text with
  | nil => exact ⟨[], rfl⟩
  | cons c text ih =>
      obtain ⟨rest, known⟩ := ih
      by_cases sep : isSeparator c
      · exact ⟨pieces isSeparator text, by simp [pieces, sep]⟩
      · exact ⟨rest, by simp [pieces, sep, known]⟩

namespace Location

/-- Going over the front part of a text leads to the line that the front part ends
in, behind as many characters of it as the front part has there. -/
theorem pieces_after (loc : Location) (front back : List Char) :
    ∃ (lines : Nat) (before : List Char),
      (Text.pieces (· == '\n') (front ++ back))[lines]? =
          some (before ++ back.takeWhile fun c => !(c == '\n')) ∧
        (loc.after front).line = loc.line + lines ∧
        (loc.after front).column = (if lines = 0 then loc.column else 1) + before.length := by
  induction front generalizing loc with
  | nil =>
      obtain ⟨rest, known⟩ := Text.pieces_eq_cons (· == '\n') back
      exact ⟨0, [], by simp [known], by simp, by simp⟩
  | cons c front ih =>
      obtain ⟨lines, before, piece, line, column⟩ := ih (loc.next c)
      by_cases feed : c = '\n'
      · subst feed
        refine ⟨lines + 1, before, by simpa [Text.pieces] using piece, ?_, ?_⟩
        · rw [after_cons, line]
          simp only [next, if_true]
          omega
        · rw [after_cons, column]
          simp [next]
      · have next_line : (loc.next c).line = loc.line := by simp [next, feed]
        have next_column : (loc.next c).column = loc.column + 1 := by simp [next, feed]
        obtain ⟨rest, known⟩ := Text.pieces_eq_cons (· == '\n') (front ++ back)
        have whole : Text.pieces (· == '\n') (c :: front ++ back) =
            (c :: (front ++ back).takeWhile fun c => !(c == '\n')) :: rest := by
          simp [Text.pieces, feed, known]
        rw [whole, after_cons, line, column, next_line, next_column]
        rw [known] at piece
        cases lines with
        | zero =>
            refine ⟨0, c :: before, ?_, by simp, ?_⟩
            · simpa using piece
            · simp only [if_true, List.length_cons]
              omega
        | succ lines => exact ⟨lines + 1, before, by simpa using piece, by simp, by simp⟩

end Location

namespace Source

variable {s : Source} {front back : List Char}

theorem line?_after (whole : s.text.toList = front ++ back) :
    ∃ before : List Char, s.line? ((Location.start s.file).after front).line =
        some (before ++ back.takeWhile fun c => !(c == '\n')) ∧
      ((Location.start s.file).after front).column = 1 + before.length := by
  obtain ⟨lines, before, piece, line, column⟩ := (Location.start s.file).pieces_after front back
  refine ⟨before, ?_, ?_⟩
  · have number : ((Location.start s.file).after front).line = 1 + lines := line
    rw [line?, if_pos (by omega), show _ - 1 = (lines : Int) by omega, Int.toNat_natCast,
      Source.lines, whole, piece]
  · rw [column]
    simp [Location.start]

theorem covers_after (whole : s.text.toList = front ++ back) :
    s.Covers ((Location.start s.file).after front) := by
  obtain ⟨before, line, column⟩ := line?_after whole
  refine ⟨Location.after_file _ _, _, line, ?_, ?_⟩
  · omega
  · simp only [List.length_append]
    omega

/-- The character behind a front part stands where the front part leads to. -/
theorem charAt?_after {c : Char} (whole : s.text.toList = front ++ c :: back) (visible : c ≠ '\n') :
    s.charAt? ((Location.start s.file).after front) = some c := by
  obtain ⟨before, line, column⟩ := line?_after whole
  have number : ((Location.start s.file).after front).column - 1 = before.length := by omega
  rw [charAt?, if_pos ⟨Location.after_file _ _, by omega⟩, line, number, Option.bind_some,
    Int.toNat_natCast]
  simp [visible]

end Source

end ByteTape
