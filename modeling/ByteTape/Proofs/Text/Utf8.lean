import ByteTape.Text.Utf8

/-! # Text as bytes and back

The bytes of a character say how many they are, so that a character is read back before
any bytes that follow, and a text is read back whole.
-/

namespace ByteTape.Text

theorem toNat_ofNat_of_lt {n : Nat} (small : n < 0x100) : (UInt8.ofNat n).toNat = n :=
  (UInt8.toNat_ofNat').trans (Nat.mod_eq_of_lt small)

theorem tailBits?_ofNat {n : Nat} (small : n < 0x40) : tailBits? (UInt8.ofNat (0x80 + n)) = some n := by
  rw [tailBits?, toNat_ofNat_of_lt (by omega), if_pos (by simp; omega), Nat.add_sub_cancel_left]

theorem charFrom?_toNat {c : Char} {least : Nat} (long : least ≤ c.toNat) :
    charFrom? least c.toNat = some c := by
  have valid : c.toNat.isValidChar := c.valid
  rw [charFrom?, if_pos (by simp [long, valid]), Char.ofNat_toNat]

theorem toNat_lt (c : Char) : c.toNat < 0x110000 := by
  have valid : c.toNat.isValidChar := c.valid
  unfold Nat.isValidChar at valid
  omega

theorem utf8Char_eq (c : Char) : utf8Char c = String.utf8EncodeChar c := by
  have last := toNat_lt c
  have value : c.val.toNat = c.toNat := rfl
  unfold utf8Char String.utf8EncodeChar
  rw [value]
  dsimp only
  by_cases one : c.toNat < 0x80
  · rw [if_pos one, if_pos (show c.toNat ≤ 0x7f by omega)]
  · rw [if_neg one, if_neg (show ¬ c.toNat ≤ 0x7f by omega)]
    have low : 0x80 + c.toNat % 0x40 = c.toNat % 0x40 + 0x80 := Nat.add_comm ..
    have middle : 0x80 + c.toNat / 0x40 % 0x40 = c.toNat / 0x40 % 0x40 + 0x80 := Nat.add_comm ..
    by_cases two : c.toNat < 0x800
    · have lead : 0xc0 + c.toNat / 0x40 = c.toNat / 0x40 % 0x20 + 0xc0 := by omega
      rw [if_pos two, if_pos (show c.toNat ≤ 0x7ff by omega), lead, low]
    · rw [if_neg two, if_neg (show ¬ c.toNat ≤ 0x7ff by omega)]
      by_cases three : c.toNat < 0x10000
      · have lead : 0xe0 + c.toNat / 0x1000 = c.toNat / 0x1000 % 0x10 + 0xe0 := by omega
        rw [if_pos three, if_pos (show c.toNat ≤ 0xffff by omega), lead, middle, low]
      · have lead : 0xf0 + c.toNat / 0x40000 = c.toNat / 0x40000 % 8 + 0xf0 := by omega
        have high : 0x80 + c.toNat / 0x1000 % 0x40 = c.toNat / 0x1000 % 0x40 + 0x80 := Nat.add_comm ..
        rw [if_neg three, if_neg (show ¬ c.toNat ≤ 0xffff by omega), lead, high, middle, low]

theorem utf8_eq (text : String) : utf8 text = text.toUTF8.data.toList := by
  have bytes : text.toUTF8 = text.toList.utf8Encode := String.utf8Encode_toList.symm
  rw [bytes, List.utf8Encode, List.toList_data_toByteArray, utf8]
  exact congrArg (text.toList.flatMap ·) (funext utf8Char_eq)

section

variable {c : Char} (offset : Nat) (rest : List UInt8)

theorem utf8CharsFrom_one (short : c.toNat < 0x80) :
    utf8CharsFrom offset (UInt8.ofNat c.toNat :: rest) =
      andThen (some c) offset (utf8CharsFrom (offset + 1) rest) := by
  have lead := toNat_ofNat_of_lt (n := c.toNat) (by omega)
  rw [utf8CharsFrom.eq_def]
  dsimp only
  rw [lead, if_pos short, Char.ofNat_toNat]

theorem utf8CharsFrom_two (long : 0x80 ≤ c.toNat) (short : c.toNat < 0x800) :
    utf8CharsFrom offset
        (UInt8.ofNat (0xc0 + c.toNat / 0x40) :: UInt8.ofNat (0x80 + c.toNat % 0x40) :: rest) =
      andThen (some c) offset (utf8CharsFrom (offset + 2) rest) := by
  have lead := toNat_ofNat_of_lt (n := 0xc0 + c.toNat / 0x40) (by omega)
  have whole : (0xc0 + c.toNat / 0x40 - 0xc0) * 0x40 + c.toNat % 0x40 = c.toNat := by omega
  rw [utf8CharsFrom, lead, if_neg (by omega), if_neg (by omega), if_pos (by omega),
    tailBits?_ofNat (by omega), Option.bind_some, whole, charFrom?_toNat long]

theorem utf8CharsFrom_three (long : 0x800 ≤ c.toNat) (short : c.toNat < 0x10000) :
    utf8CharsFrom offset
        (UInt8.ofNat (0xe0 + c.toNat / 0x1000) :: UInt8.ofNat (0x80 + c.toNat / 0x40 % 0x40) ::
          UInt8.ofNat (0x80 + c.toNat % 0x40) :: rest) =
      andThen (some c) offset (utf8CharsFrom (offset + 3) rest) := by
  have lead := toNat_ofNat_of_lt (n := 0xe0 + c.toNat / 0x1000) (by omega)
  have whole : (0xe0 + c.toNat / 0x1000 - 0xe0) * 0x1000 + c.toNat / 0x40 % 0x40 * 0x40 +
      c.toNat % 0x40 = c.toNat := by omega
  have read : char3? (UInt8.ofNat (0xe0 + c.toNat / 0x1000)) (UInt8.ofNat (0x80 + c.toNat / 0x40 % 0x40))
      (UInt8.ofNat (0x80 + c.toNat % 0x40)) = some c := by
    rw [char3?, tailBits?_ofNat (by omega), tailBits?_ofNat (by omega), lead, Option.bind_eq_bind,
      Option.bind_some, Option.bind_some, whole, charFrom?_toNat long]
  rw [utf8CharsFrom, lead, if_neg (by omega), if_neg (by omega), if_neg (by omega), if_pos (by omega)]
  dsimp only
  rw [read]

theorem utf8CharsFrom_four (long : 0x10000 ≤ c.toNat) :
    utf8CharsFrom offset
        (UInt8.ofNat (0xf0 + c.toNat / 0x40000) :: UInt8.ofNat (0x80 + c.toNat / 0x1000 % 0x40) ::
          UInt8.ofNat (0x80 + c.toNat / 0x40 % 0x40) :: UInt8.ofNat (0x80 + c.toNat % 0x40) :: rest) =
      andThen (some c) offset (utf8CharsFrom (offset + 4) rest) := by
  have last := toNat_lt c
  have lead := toNat_ofNat_of_lt (n := 0xf0 + c.toNat / 0x40000) (by omega)
  have whole : (0xf0 + c.toNat / 0x40000 - 0xf0) * 0x40000 + c.toNat / 0x1000 % 0x40 * 0x1000 +
      c.toNat / 0x40 % 0x40 * 0x40 + c.toNat % 0x40 = c.toNat := by omega
  have read : char4? (UInt8.ofNat (0xf0 + c.toNat / 0x40000)) (UInt8.ofNat (0x80 + c.toNat / 0x1000 % 0x40))
      (UInt8.ofNat (0x80 + c.toNat / 0x40 % 0x40)) (UInt8.ofNat (0x80 + c.toNat % 0x40)) = some c := by
    -- by lemmas, since to compute with a factor of this size takes as many steps
    rw [char4?, tailBits?_ofNat (by omega), tailBits?_ofNat (by omega), tailBits?_ofNat (by omega), lead,
      Option.bind_eq_bind, Option.bind_some, Option.bind_some, Option.bind_some, whole, charFrom?_toNat long]
  rw [utf8CharsFrom, lead, if_neg (by omega), if_neg (by omega), if_neg (by omega), if_neg (by omega)]
  dsimp only
  rw [read]

end

theorem utf8CharsFrom_utf8Char (offset : Nat) (c : Char) (rest : List UInt8) :
    utf8CharsFrom offset (utf8Char c ++ rest) =
      andThen (some c) offset (utf8CharsFrom (offset + (utf8Char c).length) rest) := by
  unfold utf8Char
  dsimp only
  split
  · next one => exact utf8CharsFrom_one offset rest one
  · next one =>
    split
    · next two => exact utf8CharsFrom_two offset rest (by omega) two
    · next two =>
      split
      · next three => exact utf8CharsFrom_three offset rest (by omega) three
      · next three => exact utf8CharsFrom_four offset rest (by omega)

theorem utf8CharsFrom_flatMap (offset : Nat) (text : List Char) :
    utf8CharsFrom offset (text.flatMap utf8Char) = .ok text := by
  induction text generalizing offset with
  | nil => rfl
  | cons c text ih => rw [List.flatMap_cons, utf8CharsFrom_utf8Char, ih, andThen]

/-- What is written as UTF-8 is read back. -/
theorem ofUtf8_utf8 (text : String) : ofUtf8 (utf8 text) = .ok text := by
  rw [ofUtf8, utf8, utf8CharsFrom_flatMap]
  exact congrArg Except.ok String.ofList_toList

/-- No text begins with a byte that only follows others. -/
theorem utf8_leads {text : String} {a : UInt8} {rest : List UInt8} (h : utf8 text = a :: rest) :
    a.toNat < 0x80 ∨ 0xc0 ≤ a.toNat := by
  obtain low | high | tail : a.toNat < 0x80 ∨ 0xc0 ≤ a.toNat ∨ 0x80 ≤ a.toNat ∧ a.toNat < 0xc0 := by
    omega
  · exact .inl low
  · exact .inr high
  · have read : utf8CharsFrom 0 (a :: rest) = .error 0 := by
      rw [utf8CharsFrom.eq_def]
      dsimp only
      rw [if_neg (by omega), if_pos (by omega)]
    rw [← h, utf8, utf8CharsFrom_flatMap] at read
    cases read

end ByteTape.Text
