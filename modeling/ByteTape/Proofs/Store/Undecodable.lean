import ByteTape.Proofs.Text.Decoding
import ByteTape.Proofs.Token.Layout
import ByteTape.Store

/-! # Sources that are no text

A source file that is not UTF-8 is refused where its bytes break off. The line is the one that
scanning the text before would have come to. The column is not: it counts bytes, and so it agrees
with scanning only if the last line up to there is ASCII.
-/

namespace ByteTape

theorem Location.after_start_eq (file : String) (text : List Char) :
    (start file).after text = ⟨file, 1 + text.count '\n', 1 + (text.rtakeWhile (· != '\n')).length⟩ := by
  rw [after_start, behind, List.rtakeWhile, List.length_reverse]

namespace Store

theorem byteLocation_utf8 (file : String) (text : List Char) :
    byteLocation file (text.flatMap Text.utf8Char) =
      ⟨file, 1 + text.count '\n', 1 + ((text.rtakeWhile (· != '\n')).flatMap Text.utf8Char).length⟩ := by
  have column : (text.flatMap Text.utf8Char).reverse.takeWhile (· != 10) =
      ((text.rtakeWhile (· != '\n')).flatMap Text.utf8Char).reverse := by
    rw [← Text.rtakeWhile_flatMap_utf8Char, List.rtakeWhile, List.reverse_reverse]
  rw [byteLocation, column, Text.count_flatMap_utf8Char, List.length_reverse, Int.add_comm 1, Int.add_comm 1]

/-- Bytes that are no text are refused, and the report names the first bad byte. -/
theorem readSource_breaksOff {d : Disk} {path : String} {bytes more : List UInt8} {text : List Char}
    {b : UInt8}
    (held : d.read (Disk.normalise path) = .ok bytes) (off : Text.BreaksOff bytes text (b :: more)) :
    readSource d path = .error (.located .lex
      s!"Source is not valid UTF-8 (byte 0x{String.ofList (Text.upperByte b)})"
      (byteLocation path (text.flatMap Text.utf8Char))) := by
  have refused : readSource d path = .error (notText path bytes (text.flatMap Text.utf8Char).length) := by
    simp only [readSource, disk, held, Except.mapError, bind, Except.bind, (Text.breaksOff_iff.mp off).2]
    rfl
  have byte : bytes.getD (text.flatMap Text.utf8Char).length 0 = b := by
    rw [off.whole, List.getD_eq_getElem?_getD, List.getElem?_append_right (Nat.le_refl _), Nat.sub_self]
    rfl
  have before : bytes.take (text.flatMap Text.utf8Char).length = text.flatMap Text.utf8Char := by
    rw [off.whole, List.take_left]
  rw [refused, notText, byte, before]

/-- Bytes that are no text are refused where they break off: on the line that scanning the text
before leads to, and behind as many columns as the last line of that text has bytes. Scanning leads
behind as many as it has characters, so the two agree exactly if that line is ASCII so far. -/
theorem breakOff_located {d : Disk} {path : String} {bytes : List UInt8}
    (held : d.read (Disk.normalise path) = .ok bytes)
    (broken : ∀ text : String, text.toUTF8.data.toList ≠ bytes) :
    (∃ text bad, Text.BreaksOff bytes text bad) ∧
    ∀ text bad, Text.BreaksOff bytes text bad →
      ∃ b more loc, bad = b :: more ∧
        readSource d path = .error (.located .lex
          s!"Source is not valid UTF-8 (byte 0x{String.ofList (Text.upperByte b)})" loc) ∧
        loc = ⟨path, 1 + text.count '\n',
          1 + ((text.rtakeWhile (· != '\n')).flatMap Text.utf8Char).length⟩ ∧
        (Location.start path).after text =
          ⟨path, 1 + text.count '\n', 1 + (text.rtakeWhile (· != '\n')).length⟩ ∧
        (loc = (Location.start path).after text ↔
          ∀ c ∈ text.rtakeWhile (· != '\n'), c.toNat < 0x80) := by
  constructor
  · apply Text.exists_breaksOff
    intro text same
    apply broken (String.ofList text)
    rw [← Text.utf8_eq, Text.utf8, String.toList_ofList, same]
  · intro text bad off
    obtain ⟨b, more, rfl⟩ := List.exists_cons_of_ne_nil off.filled
    refine ⟨b, more, _, rfl, readSource_breaksOff held off, byteLocation_utf8 path text,
      Location.after_start_eq path text, ?_⟩
    rw [byteLocation_utf8, Location.after_start_eq, ← Text.length_flatMap_utf8Char_iff, Location.mk.injEq]
    simp only [true_and]
    omega

/-- A wide character on the first line, and on the second one a character of three bytes that lacks
the last one. -/
def torn : Disk := ⟨[(["a"], [0xc3, 0xa9, 10, 0x2b, 0xe2, 0x82])]⟩

theorem breakOff_located_torn :
    torn.read (Disk.normalise "./a") = .ok [0xc3, 0xa9, 10, 0x2b, 0xe2, 0x82] ∧
      (∀ text : String, text.toUTF8.data.toList ≠ [0xc3, 0xa9, 10, 0x2b, 0xe2, 0x82]) ∧
      Text.BreaksOff [0xc3, 0xa9, 10, 0x2b, 0xe2, 0x82] ['é', '\n', '+'] [0xe2, 0x82] ∧
      readSource torn "./a" =
        .error (.located .lex "Source is not valid UTF-8 (byte 0xE2)" ⟨"./a", 2, 2⟩) ∧
      (Location.start "./a").after ['é', '\n', '+'] = ⟨"./a", 2, 2⟩ := by
  have held : torn.read (Disk.normalise "./a") = .ok [0xc3, 0xa9, 10, 0x2b, 0xe2, 0x82] := by
    have short : Disk.normalise "./a" = "a" := by decide
    have found : torn.locate "a" = .ok ["a"] := by decide +kernel
    rw [short, Disk.read, found]
    rfl
  have stops : Text.ofUtf8 [0xc3, 0xa9, 10, 0x2b, 0xe2, 0x82] = .error 4 := by decide
  have broken (text : String) : text.toUTF8.data.toList ≠ [0xc3, 0xa9, 10, 0x2b, 0xe2, 0x82] := by
    intro same
    rw [← same, ← Text.utf8_eq, Text.ofUtf8_utf8] at stops
    cases stops
  have off : Text.BreaksOff [0xc3, 0xa9, 10, 0x2b, 0xe2, 0x82] ['é', '\n', '+'] [0xe2, 0x82] :=
    Text.breaksOff_iff.mpr ⟨by decide, stops⟩
  obtain ⟨b, more, loc, bad, refused, place, -, agrees⟩ := (breakOff_located held broken).2 _ _ off
  cases bad
  have scanned : (Location.start "./a").after ['é', '\n', '+'] = ⟨"./a", 2, 2⟩ := by decide
  have line : ['é', '\n', '+'].rtakeWhile (· != '\n') = ['+'] := by decide
  have ascii : ∀ c ∈ ['é', '\n', '+'].rtakeWhile (· != '\n'), c.toNat < 0x80 := by
    rw [line]
    exact List.forall_mem_singleton.mpr (by decide)
  rw [agrees.mpr ascii, scanned] at refused
  exact ⟨held, broken, off, refused, scanned⟩

/-- Behind a wide character on the same line the column is off by one: the byte that is no text is
reported at the third column, and scanning the text before it leads to the second. -/
theorem breakOff_misplaced :
    readSource ⟨[(["a"], [0xc3, 0xa9, 0x80])]⟩ "a" =
        .error (.located .lex "Source is not valid UTF-8 (byte 0x80)" ⟨"a", 1, 3⟩) ∧
      Text.BreaksOff [0xc3, 0xa9, 0x80] ['é'] [0x80] ∧
      (Location.start "a").after ['é'] = ⟨"a", 1, 2⟩ := by
  have stops : Text.ofUtf8 [0xc3, 0xa9, 0x80] = .error 2 := by decide
  have off : Text.BreaksOff [0xc3, 0xa9, 0x80] ['é'] [0x80] := Text.breaksOff_iff.mpr ⟨by decide, stops⟩
  have held : Disk.read ⟨[(["a"], [0xc3, 0xa9, 0x80])]⟩ (Disk.normalise "a") = .ok [0xc3, 0xa9, 0x80] := by
    have short : Disk.normalise "a" = "a" := by decide
    have found : Disk.locate ⟨[(["a"], [0xc3, 0xa9, 0x80])]⟩ "a" = .ok ["a"] := by decide +kernel
    rw [short, Disk.read, found]
    rfl
  refine ⟨?_, off, by decide⟩
  rw [readSource_breaksOff held off]
  rfl

end Store

end ByteTape
