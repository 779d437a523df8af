import ByteTape.Proofs.Text.Numeral

/-! # Decimal numerals of digits alone

A text of digits is a decimal numeral exactly if each of them is a decimal digit of some
script. Superscripts and circled numbers are digits without being decimal, so a text of
digits can fail to be a number.
-/

namespace ByteTape.Text

theorem isDigit_of_isBlank {c : Char} (h : isBlank c) : isDigit c = false := by
  have known : ∀ n ∈ [9, 10, 11, 12, 13, 28, 29, 30, 31, 32, 0x85, 0xa0, 0x1680, 0x2000, 0x2001, 0x2002,
      0x2003, 0x2004, 0x2005, 0x2006, 0x2007, 0x2008, 0x2009, 0x200a, 0x2028, 0x2029, 0x202f, 0x205f,
      0x3000], isDigit (Char.ofNat n) = false := by
    decide +kernel
  rw [← Char.ofNat_toNat c]
  apply known
  simp only [isBlank, Bool.or_eq_true, Bool.and_eq_true, decide_eq_true_eq, beq_iff_eq] at h
  simp only [List.mem_cons, List.not_mem_nil, or_false]
  rcases h with (((((((((h | h) | h) | h) | h) | h) | h) | h) | h) | h) | h <;> omega

theorem decimalValue?_of_lt {c : Char} (small : c.toNat < 0x7f) (digit : isDigit c) :
    decimalValue? c = some (c.toNat - 48) ∧ Nat.digitChar (c.toNat - 48) = c ∧ c.toNat - 48 < 10 := by
  have known : ∀ n < 0x7f, isDigit (Char.ofNat n) →
      decimalValue? (Char.ofNat n) = some (n - 48) ∧ Nat.digitChar (n - 48) = Char.ofNat n ∧
        n - 48 < 10 := by
    decide +kernel
  have found := known c.toNat small (by rwa [Char.ofNat_toNat])
  rwa [Char.ofNat_toNat] at found

theorem decimalValue?_lt {c : Char} {v : Nat} (h : decimalValue? c = some v) : v < 10 := by
  obtain ⟨first, found, rfl⟩ := Option.map_eq_some_iff.mp h
  have range := List.find?_some found
  simp only [Bool.and_eq_true, decide_eq_true_eq] at range
  omega

/-- What a digit is read as: a digit that is not decimal cannot be told from other marks. -/
theorem asciiDigit_of_isDigit {c : Char} (digit : isDigit c) :
    asciiDigit c = ((decimalValue? c).map Nat.digitChar).getD '?' := by
  unfold asciiDigit
  split
  · next small =>
      obtain ⟨value, same, -⟩ := decimalValue?_of_lt small digit
      rw [value]
      exact same.symm
  · split
    · next blank => exact absurd digit (by simp [isDigit_of_isBlank blank])
    · cases decimalValue? c <;> rfl

theorem digitValue?_digitChar {v : Nat} (small : v < 10) : digitValue? 10 (Nat.digitChar v) = some v := by
  have known : ∀ v < 10, digitValue? 10 (Nat.digitChar v) = some v := by decide
  exact known v small

theorem digitValue?_asciiDigit {c : Char} (digit : isDigit c) :
    digitValue? 10 (asciiDigit c) = decimalValue? c := by
  rw [asciiDigit_of_isDigit digit]
  cases value : decimalValue? c with
  | none => decide
  | some v => exact digitValue?_digitChar (decimalValue?_lt value)

theorem asciiDigit_plain {c : Char} (digit : isDigit c) :
    asciiDigit c ≠ '_' ∧ asciiDigit c ≠ '-' ∧ asciiDigit c ≠ '+' ∧ isAsciiBlank (asciiDigit c) = false := by
  have known : ∀ v < 10, Nat.digitChar v ≠ '_' ∧ Nat.digitChar v ≠ '-' ∧ Nat.digitChar v ≠ '+' ∧
      isAsciiBlank (Nat.digitChar v) = false := by
    decide
  rw [asciiDigit_of_isDigit digit]
  cases value : decimalValue? c with
  | none => decide
  | some v => exact known v (decimalValue?_lt value)

theorem digitsFrom_cons {base value : Nat} {c : Char} (plain : c ≠ '_') (rest : List Char) :
    digitsFrom base value (c :: rest) =
      (digitValue? base c).bind fun d => digitsFrom base (value * base + d) rest := by
  rw [digitsFrom.eq_def]
  split
  · next same => cases same
  · next same =>
      cases same
      exact absurd rfl plain
  · next same =>
      cases same
      rfl

/-- The number that decimal digits stand for, behind a number that is known already. -/
def ofDigitValues (value : Nat) (digits : List Nat) : Nat :=
  digits.foldl (fun value digit => value * 10 + digit) value

theorem digitsFrom_digits {text : List Char} (digits : ∀ c ∈ text, isDigit c) (value : Nat) :
    digitsFrom 10 value (text.map asciiDigit) = (text.mapM decimalValue?).map (ofDigitValues value) := by
  induction text generalizing value with
  | nil => rfl
  | cons c rest ih =>
      obtain ⟨first, others⟩ := List.forall_mem_cons.mp digits
      rw [List.map_cons, digitsFrom_cons (asciiDigit_plain first).1, digitValue?_asciiDigit first,
        List.mapM_cons]
      cases decimalValue? c with
      | none => rfl
      | some d =>
          change digitsFrom 10 (value * 10 + d) (rest.map asciiDigit) = _
          rw [ih others]
          cases rest.mapM decimalValue? <;> rfl

theorem not_isAsciiBlank_digits {text : List Char} (digits : ∀ c ∈ text, isDigit c) :
    ∀ c ∈ text.map asciiDigit, isAsciiBlank c = false := by
  intro c there
  obtain ⟨d, member, rfl⟩ := List.mem_map.mp there
  exact (asciiDigit_plain (digits d member)).2.2.2

theorem unsigned?_digits {text : List Char} (digits : ∀ c ∈ text, isDigit c) (nonempty : text ≠ []) :
    unsigned? 10 (text.map asciiDigit) = (text.mapM decimalValue?).map (ofDigitValues 0) := by
  obtain ⟨c, rest, rfl⟩ := List.exists_cons_of_ne_nil nonempty
  rw [← digitsFrom_digits digits, List.map_cons, digitsFrom_cons (asciiDigit_plain (digits c (by simp))).1]
  simp only [Nat.zero_mul, Nat.zero_add]
  rfl

theorem integer?_digits {text : List Char} (digits : ∀ c ∈ text, isDigit c) (nonempty : text ≠ []) :
    integer? 10 text = (text.mapM decimalValue?).map fun values => (ofDigitValues 0 values : Int) := by
  have whole := unsigned?_digits digits nonempty
  obtain ⟨c, rest, rfl⟩ := List.exists_cons_of_ne_nil nonempty
  obtain ⟨-, minus, plus, -⟩ := asciiDigit_plain (digits c (by simp))
  unfold integer?
  rw [trim_of_not_isAsciiBlank (not_isAsciiBlank_digits digits)]
  split
  · next same => exact absurd (List.cons.inj same).1 minus
  · next same => exact absurd (List.cons.inj same).1 plus
  · rw [whole]
    cases (c :: rest).mapM decimalValue? <;> rfl

theorem integer?_minus {text : List Char} (digits : ∀ c ∈ text, isDigit c) (nonempty : text ≠ []) :
    integer? 10 ('-' :: text) =
      (text.mapM decimalValue?).map fun values => -(ofDigitValues 0 values : Int) := by
  have solid : ∀ c ∈ '-' :: text.map asciiDigit, isAsciiBlank c = false :=
    List.forall_mem_cons.mpr ⟨by decide, not_isAsciiBlank_digits digits⟩
  have minus : ('-' :: text).map asciiDigit = '-' :: text.map asciiDigit := rfl
  rw [integer?, minus, trim_of_not_isAsciiBlank solid]
  simp only [unsigned?_digits digits nonempty]
  cases text.mapM decimalValue? <;> rfl

theorem mapM_decimalValue?_eq_none_iff {text : List Char} :
    text.mapM decimalValue? = none ↔ ∃ c ∈ text, decimalValue? c = none := by
  induction text with
  | nil => simp
  | cons c rest ih =>
      rw [List.mapM_cons, List.exists_mem_cons_iff, ← ih]
      cases decimalValue? c with
      | none => simp
      | some v => cases rest.mapM decimalValue? <;> simp

/-- Digits that are all decimal are a number, unless there are too many of them. -/
theorem integer_of_decimal {text : List Char} {values : List Nat} (nonempty : text ≠ [])
    (decimal : text.mapM decimalValue? = some values) :
    integer 10 (String.ofList text) =
      if mostDigits < text.length then .error (.tooLong text.length) else .ok (ofDigitValues 0 values) := by
  have each : ∀ c ∈ text, (decimalValue? c).isSome := by
    intro c there
    by_contra none
    have missing : text.mapM decimalValue? = .none :=
      mapM_decimalValue?_eq_none_iff.mpr ⟨c, there, by simpa using none⟩
    cases missing.symm.trans decimal
  have digits : ∀ c ∈ text, isDigit c := fun c there => by simp [isDigit, each c there]
  have count : text.filter (fun c => (decimalValue? c).isSome) = text := List.filter_eq_self.mpr each
  simp only [integer, String.toList_ofList, integer?_digits digits nonempty, decimal, Option.map_some,
    count, decide_true, Bool.true_and, decide_eq_true_eq]

/-- Digits of which one is not decimal are no number. -/
theorem integer_of_other {text : List Char} (digits : ∀ c ∈ text, isDigit c) (nonempty : text ≠ [])
    (other : ∃ c ∈ text, decimalValue? c = none) :
    integer 10 (String.ofList text) = .error (.malformed 10 (String.ofList text)) := by
  simp only [integer, String.toList_ofList, integer?_digits digits nonempty,
    mapM_decimalValue?_eq_none_iff.mpr other, Option.map_none]

theorem decimalValue?_of_isAscii {c : Char} (digit : c.isDigit) :
    decimalValue? c = some (c.toNat - 48) := by
  have range := Char.isDigit_iff_toNat.mp digit
  simp only [Char.reduceToNat] at range
  have first : zeros.find? (fun first => first ≤ c.toNat && c.toNat < first + 10) = some 0x30 := by
    refine List.find?_cons_of_pos ?_
    simp only [Bool.and_eq_true, decide_eq_true_eq]
    omega
  rw [decimalValue?, first]
  rfl

theorem ofDigitValues_ascii (text : List Char) (value : Nat) :
    ofDigitValues value (text.map (·.toNat - 48)) = Nat.ofDigitChars 10 text value := by
  induction text generalizing value with
  | nil => rfl
  | cons c rest ih =>
      rw [Nat.ofDigitChars_cons, Nat.mul_comm, ← ih]
      rfl

theorem mapM_decimalValue?_ascii {text : List Char} (digits : ∀ c ∈ text, c.isDigit) :
    text.mapM decimalValue? = some (text.map (·.toNat - 48)) := by
  induction text with
  | nil => rfl
  | cons c rest ih =>
      obtain ⟨first, others⟩ := List.forall_mem_cons.mp digits
      rw [List.mapM_cons, decimalValue?_of_isAscii first, ih others]
      rfl

theorem integer_of_ascii {text : List Char} (digits : ∀ c ∈ text, c.isDigit) (nonempty : text ≠ [])
    (short : text.length ≤ mostDigits) :
    integer 10 (String.ofList text) = .ok (Nat.ofDigitChars 10 text 0) := by
  rw [integer_of_decimal nonempty (mapM_decimalValue?_ascii digits), if_neg (Nat.not_lt.mpr short),
    ofDigitValues_ascii]

theorem integer_of_minus {text : List Char} (digits : ∀ c ∈ text, c.isDigit) (nonempty : text ≠ [])
    (short : text.length ≤ mostDigits) :
    integer 10 (String.ofList ('-' :: text)) = .ok (-(Nat.ofDigitChars 10 text 0 : Int)) := by
  have each : ∀ c ∈ text, isDigit c := fun c there => by
    simp [isDigit, decimalValue?_of_isAscii (digits c there)]
  have count : ('-' :: text).filter (fun c => (decimalValue? c).isSome) = text := by
    rw [List.filter_cons_of_neg (by decide), List.filter_eq_self]
    exact fun c there => by simp [decimalValue?_of_isAscii (digits c there)]
  simp only [integer, String.toList_ofList, integer?_minus each nonempty, mapM_decimalValue?_ascii digits,
    Option.map_some, count, ofDigitValues_ascii, decide_true, Bool.true_and, decide_eq_true_eq]
  rw [if_neg (Nat.not_lt.mpr short)]

end ByteTape.Text
