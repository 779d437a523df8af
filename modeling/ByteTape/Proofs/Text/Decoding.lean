import Mathlib.Data.List.DropRight
import ByteTape.Proofs.Text.Utf8

/-! # Bytes that are no text

Bytes that are not those of a text have a front part that is, and behind it something that no
character begins with. Reading stops there. Line feeds are found in the bytes where they are in
the text, but a line has as many bytes as characters only if it is ASCII.
-/

namespace ByteTape.Text

/-- The bytes of `text` come first, and no character begins with what is left. -/
structure BreaksOff (bytes : List UInt8) (text : List Char) (bad : List UInt8) : Prop where
  whole : bytes = text.flatMap utf8Char ++ bad
  filled : bad ≠ []
  stuck : ∀ c, ¬ utf8Char c <+: bad

theorem toNat_charOfNat {n : Nat} (valid : n.isValidChar) : (Char.ofNat n).toNat = n := by
  rw [Char.ofNat, dif_pos valid]
  rfl

theorem of_tailBits? {b : UInt8} {low : Nat} (h : tailBits? b = some low) :
    b.toNat = 0x80 + low ∧ low < 0x40 := by
  unfold tailBits? at h
  split at h
  · next range =>
      obtain ⟨least, most⟩ := Bool.and_eq_true_iff.mp range
      have least := of_decide_eq_true least
      have most := of_decide_eq_true most
      have value := Option.some.inj h
      omega
  · cases h

theorem of_charFrom? {least n : Nat} {c : Char} (h : charFrom? least n = some c) :
    least ≤ n ∧ c.toNat = n := by
  unfold charFrom? at h
  split at h
  · next valid =>
      obtain ⟨long, valid⟩ := Bool.and_eq_true_iff.mp valid
      have character := Option.some.inj h
      rw [← character, toNat_charOfNat (of_decide_eq_true valid)]
      exact ⟨of_decide_eq_true long, rfl⟩
  · cases h

section

variable {a b b' b'' : UInt8} {c : Char}

theorem utf8Char_one (short : a.toNat < 0x80) : utf8Char (Char.ofNat a.toNat) = [a] := by
  have valid : a.toNat.isValidChar := .inl (by omega)
  rw [utf8Char, toNat_charOfNat valid, if_pos short, UInt8.ofNat_toNat]

theorem utf8Char_two (long : 0xc0 ≤ a.toNat) (short : a.toNat < 0xe0) {low : Nat}
    (tail : tailBits? b = some low) (read : charFrom? 0x80 ((a.toNat - 0xc0) * 0x40 + low) = some c) :
    utf8Char c = [a, b] := by
  obtain ⟨last, small⟩ := of_tailBits? tail
  obtain ⟨least, number⟩ := of_charFrom? read
  have lead : 0xc0 + c.toNat / 0x40 = a.toNat := by omega
  have low : 0x80 + c.toNat % 0x40 = b.toNat := by omega
  rw [utf8Char, if_neg (by omega), if_pos (by omega), lead, low, UInt8.ofNat_toNat, UInt8.ofNat_toNat]

theorem utf8Char_three (long : 0xe0 ≤ a.toNat) (short : a.toNat < 0xf0) (read : char3? a b b' = some c) :
    utf8Char c = [a, b, b'] := by
  obtain ⟨middle, tail, read⟩ := Option.bind_eq_some_iff.mp read
  obtain ⟨low, tail', read⟩ := Option.bind_eq_some_iff.mp read
  obtain ⟨second, small⟩ := of_tailBits? tail
  obtain ⟨last, small'⟩ := of_tailBits? tail'
  obtain ⟨least, number⟩ := of_charFrom? read
  have lead : 0xe0 + c.toNat / 0x1000 = a.toNat := by omega
  have middle : 0x80 + c.toNat / 0x40 % 0x40 = b.toNat := by omega
  have low : 0x80 + c.toNat % 0x40 = b'.toNat := by omega
  rw [utf8Char, if_neg (by omega), if_neg (by omega), if_pos (by omega), lead, middle, low,
    UInt8.ofNat_toNat, UInt8.ofNat_toNat, UInt8.ofNat_toNat]

theorem utf8Char_four (long : 0xf0 ≤ a.toNat) (read : char4? a b b' b'' = some c) :
    utf8Char c = [a, b, b', b''] := by
  obtain ⟨high, tail, read⟩ := Option.bind_eq_some_iff.mp read
  obtain ⟨middle, tail', read⟩ := Option.bind_eq_some_iff.mp read
  obtain ⟨low, tail'', read⟩ := Option.bind_eq_some_iff.mp read
  obtain ⟨second, small⟩ := of_tailBits? tail
  obtain ⟨third, small'⟩ := of_tailBits? tail'
  obtain ⟨last, small''⟩ := of_tailBits? tail''
  obtain ⟨least, number⟩ := of_charFrom? read
  have lead : 0xf0 + c.toNat / 0x40000 = a.toNat := by omega
  have high : 0x80 + c.toNat / 0x1000 % 0x40 = b.toNat := by omega
  have middle : 0x80 + c.toNat / 0x40 % 0x40 = b'.toNat := by omega
  have low : 0x80 + c.toNat % 0x40 = b''.toNat := by omega
  rw [utf8Char, if_neg (by omega), if_neg (by omega), if_neg (by omega), lead, high, middle, low,
    UInt8.ofNat_toNat, UInt8.ofNat_toNat, UInt8.ofNat_toNat, UInt8.ofNat_toNat]

end

/-- Either a character is read, and then the bytes begin with those of the character, or the
reading stops at once. -/
theorem utf8CharsFrom_cons (offset : Nat) (a : UInt8) (rest : List UInt8) :
    (∃ c, utf8Char c <+: a :: rest) ∨ utf8CharsFrom offset (a :: rest) = .error offset := by
  rw [utf8CharsFrom.eq_def]
  dsimp only
  split
  · next one => exact .inl ⟨_, rest, by rw [utf8Char_one one]; rfl⟩
  · split
    · exact .inr rfl
    · next long =>
      split
      · next two =>
        split
        · next b rest =>
            cases read : (tailBits? b).bind fun low => charFrom? 0x80 ((a.toNat - 0xc0) * 0x40 + low) with
            | none => exact .inr rfl
            | some c =>
                obtain ⟨low, tail, read⟩ := Option.bind_eq_some_iff.mp read
                exact .inl ⟨c, rest, by rw [utf8Char_two (by omega) two tail read]; rfl⟩
        · exact .inr rfl
      · split
        · next three =>
          split
          · next b b' rest =>
              cases read : char3? a b b' with
              | none => exact .inr rfl
              | some c => exact .inl ⟨c, rest, by rw [utf8Char_three (by omega) three read]; rfl⟩
          · exact .inr rfl
        · next four =>
          split
          · next b b' b'' rest =>
              cases read : char4? a b b' b'' with
              | none => exact .inr rfl
              | some c => exact .inl ⟨c, rest, by rw [utf8Char_four (by omega) read]; rfl⟩
          · exact .inr rfl

theorem utf8CharsFrom_append (offset : Nat) (text : List Char) (rest : List UInt8) :
    utf8CharsFrom offset (text.flatMap utf8Char ++ rest) =
      (utf8CharsFrom (offset + (text.flatMap utf8Char).length) rest).map (text ++ ·) := by
  induction text generalizing offset with
  | nil =>
      rw [List.flatMap_nil, List.length_nil, Nat.add_zero, List.nil_append]
      cases utf8CharsFrom offset rest <;> rfl
  | cons c text ih =>
      rw [List.flatMap_cons, List.append_assoc, utf8CharsFrom_utf8Char, ih, List.length_append,
        Nat.add_assoc]
      cases utf8CharsFrom _ rest <;> rfl

section

variable {bytes bad : List UInt8} {text : List Char}

/-- Reading stops where the bytes break off. -/
theorem BreaksOff.utf8CharsFrom (h : BreaksOff bytes text bad) (offset : Nat) :
    Text.utf8CharsFrom offset bytes = .error (offset + (text.flatMap utf8Char).length) := by
  obtain ⟨a, rest, rfl⟩ := List.exists_cons_of_ne_nil h.filled
  have stops (offset : Nat) : Text.utf8CharsFrom offset (a :: rest) = .error offset := by
    rcases utf8CharsFrom_cons offset a rest with ⟨c, begins⟩ | stops
    · exact absurd begins (h.stuck c)
    · exact stops
  rw [h.whole, utf8CharsFrom_append, stops]
  rfl

theorem length_utf8Char_pos (c : Char) : 0 < (utf8Char c).length := by
  unfold utf8Char
  dsimp only
  split
  · simp
  · split
    · simp
    · split <;> simp

theorem exists_breaksOff (broken : ∀ text : List Char, text.flatMap utf8Char ≠ bytes) :
    ∃ text bad, BreaksOff bytes text bad := by
  induction size : bytes.length using Nat.strongRecOn generalizing bytes with
  | ind n ih =>
      by_cases begins : ∃ c, utf8Char c <+: bytes
      · obtain ⟨c, rest, rfl⟩ := begins
        have shorter : rest.length < n := by
          have one := length_utf8Char_pos c
          rw [List.length_append] at size
          omega
        have broken' (text : List Char) : text.flatMap utf8Char ≠ rest := by
          rintro rfl
          exact broken (c :: text) (List.flatMap_cons ..)
        obtain ⟨text, bad, off⟩ := ih rest.length shorter broken' rfl
        refine ⟨c :: text, bad, ?_, off.filled, off.stuck⟩
        rw [List.flatMap_cons, List.append_assoc, ← off.whole]
      · refine ⟨[], bytes, rfl, ?_, fun c there => begins ⟨c, there⟩⟩
        rintro rfl
        exact broken [] rfl

theorem le_of_utf8CharsFrom {offset stop : Nat} (h : utf8CharsFrom offset bytes = .error stop) :
    offset ≤ stop := by
  by_cases clean : ∃ text : List Char, text.flatMap utf8Char = bytes
  · obtain ⟨text, rfl⟩ := clean
    rw [utf8CharsFrom_flatMap] at h
    cases h
  · obtain ⟨text, bad, off⟩ := exists_breaksOff fun text same => clean ⟨text, same⟩
    cases (off.utf8CharsFrom offset).symm.trans h
    exact Nat.le_add_right ..

/-- The bytes break off exactly where reading stops. -/
theorem breaksOff_iff :
    BreaksOff bytes text bad ↔
      bytes = text.flatMap utf8Char ++ bad ∧ ofUtf8 bytes = .error (text.flatMap utf8Char).length := by
  constructor
  · intro off
    refine ⟨off.whole, ?_⟩
    rw [ofUtf8, off.utf8CharsFrom, Nat.zero_add]
  · rintro ⟨rfl, stops⟩
    have rest : utf8CharsFrom (text.flatMap utf8Char).length bad =
        .error (text.flatMap utf8Char).length := by
      rw [ofUtf8, utf8CharsFrom_append, Nat.zero_add] at stops
      cases read : utf8CharsFrom (text.flatMap utf8Char).length bad with
      | ok more =>
          rw [read] at stops
          cases stops
      | error stop =>
          rw [read] at stops
          cases stops
          rfl
    refine ⟨rfl, ?_, ?_⟩
    · rintro rfl
      cases rest
    · rintro c ⟨more, rfl⟩
      have one := length_utf8Char_pos c
      rw [utf8CharsFrom_utf8Char] at rest
      cases read : utf8CharsFrom ((text.flatMap utf8Char).length + (utf8Char c).length) more with
      | ok more =>
          rw [read] at rest
          cases rest
      | error stop =>
          have later := le_of_utf8CharsFrom read
          rw [read] at rest
          cases rest
          omega

end

/-! Lines of a text and of its bytes -/

section

variable {c : Char}

theorem utf8Char_ascii (short : c.toNat < 0x80) : utf8Char c = [UInt8.ofNat c.toNat] := by
  rw [utf8Char, if_pos short]

theorem high_of_mem (long : 0x80 ≤ c.toNat) {b : UInt8} (among : b ∈ utf8Char c) : 0x80 ≤ b.toNat := by
  have last := toNat_lt c
  have high {k n : Nat} (lead : 0x80 ≤ k) (room : k + n < 0x100) : 0x80 ≤ (UInt8.ofNat (k + n)).toNat := by
    rw [toNat_ofNat_of_lt room]
    omega
  rw [utf8Char, if_neg (Nat.not_lt.mpr long)] at among
  split at among
  · simp only [List.mem_cons, List.not_mem_nil, or_false] at among
    rcases among with rfl | rfl <;> exact high (by omega) (by omega)
  · split at among
    · simp only [List.mem_cons, List.not_mem_nil, or_false] at among
      rcases among with rfl | rfl | rfl <;> exact high (by omega) (by omega)
    · simp only [List.mem_cons, List.not_mem_nil, or_false] at among
      rcases among with rfl | rfl | rfl | rfl <;> exact high (by omega) (by omega)

theorem one_lt_length_utf8Char (long : 0x80 ≤ c.toNat) : 1 < (utf8Char c).length := by
  rw [utf8Char, if_neg (Nat.not_lt.mpr long)]
  split
  · simp
  · split <;> simp

theorem ten_not_mem_utf8Char (other : c ≠ '\n') : 10 ∉ utf8Char c := by
  intro among
  by_cases short : c.toNat < 0x80
  · rw [utf8Char_ascii short, List.mem_singleton] at among
    have number := congrArg UInt8.toNat among
    rw [toNat_ofNat_of_lt (by omega)] at number
    rw [← Char.ofNat_toNat c, ← number] at other
    exact other rfl
  · exact absurd (high_of_mem (Nat.le_of_not_lt short) among) (by decide)

end

section

variable (text : List Char)

theorem count_flatMap_utf8Char : (text.flatMap utf8Char).count 10 = text.count '\n' := by
  induction text with
  | nil => rfl
  | cons c text ih =>
      rw [List.flatMap_cons, List.count_append, ih]
      by_cases feed : c = '\n'
      · rw [feed, List.count_cons_self, Nat.add_comm]
        rfl
      · rw [List.count_eq_zero_of_not_mem (ten_not_mem_utf8Char feed), List.count_cons_of_ne feed,
          Nat.zero_add]

/-- The bytes behind the last line feed are those of the characters behind it. -/
theorem rtakeWhile_flatMap_utf8Char :
    (text.flatMap utf8Char).rtakeWhile (· != 10) = (text.rtakeWhile (· != '\n')).flatMap utf8Char := by
  induction text using List.reverseRecOn with
  | nil => rfl
  | append_singleton text c ih =>
      rw [List.flatMap_append, List.flatMap_singleton]
      by_cases feed : c = '\n'
      · have byte : utf8Char '\n' = [10] := rfl
        rw [feed, byte, List.rtakeWhile_concat_neg _ _ _ (by decide),
          List.rtakeWhile_concat_neg _ _ _ (by decide)]
        rfl
      · have all : ∀ b ∈ (utf8Char c).reverse, (b != 10) = true := by
          intro b among
          rw [List.mem_reverse] at among
          exact bne_iff_ne.mpr fun same => ten_not_mem_utf8Char feed (same ▸ among)
        have kept : (text ++ [c]).rtakeWhile (· != '\n') = text.rtakeWhile (· != '\n') ++ [c] :=
          List.rtakeWhile_concat_pos _ _ _ (bne_iff_ne.mpr feed)
        rw [kept, List.flatMap_append, List.flatMap_singleton, ← ih, List.rtakeWhile, List.rtakeWhile,
          List.reverse_append, List.takeWhile_append_of_pos all, List.reverse_append, List.reverse_reverse]

theorem length_le_flatMap_utf8Char : text.length ≤ (text.flatMap utf8Char).length := by
  induction text with
  | nil => exact Nat.le_refl _
  | cons c text ih =>
      have one := length_utf8Char_pos c
      rw [List.flatMap_cons, List.length_append, List.length_cons]
      omega

theorem length_flatMap_utf8Char_iff :
    (text.flatMap utf8Char).length = text.length ↔ ∀ c ∈ text, c.toNat < 0x80 := by
  induction text with
  | nil => simp
  | cons c text ih =>
      have least := length_le_flatMap_utf8Char text
      rw [List.forall_mem_cons, ← ih, List.flatMap_cons, List.length_append, List.length_cons]
      by_cases short : c.toNat < 0x80
      · rw [utf8Char_ascii short, List.length_singleton]
        omega
      · have wide := one_lt_length_utf8Char (Nat.le_of_not_lt short)
        omega

end

end ByteTape.Text
