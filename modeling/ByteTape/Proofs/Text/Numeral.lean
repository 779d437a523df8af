import Mathlib.Algebra.Group.Nat.Defs
import Mathlib.Data.List.Basic
import ByteTape.Text.Numeral

/-! # Numerals of digits alone

A text that consists of hexadecimal digits has a value. No sign, blank or mark of
the base can be taken for a digit, so each of them counts.
-/

namespace ByteTape.Text

theorem char_le_iff {c d : Char} : c ≤ d ↔ c.toNat ≤ d.toNat := by
  rw [Char.le_def, UInt32.le_iff_toNat_le]
  rfl

theorem toNat_of_isHexDigit {c : Char} (h : isHexDigit c) :
    (48 ≤ c.toNat ∧ c.toNat ≤ 57) ∨ (97 ≤ c.toNat ∧ c.toNat ≤ 102) ∨
      (65 ≤ c.toNat ∧ c.toNat ≤ 70) := by
  simpa [isHexDigit, char_le_iff, or_assoc] using h

theorem digitValue_of_isHexDigit {c : Char} (h : isHexDigit c) :
    ∃ v < 16, digitValue? 16 c = some v := by
  obtain ⟨v, small, value⟩ : ∃ v < 16, hexValue? c = some v := by
    have range := toNat_of_isHexDigit h
    simp only [hexValue?, char_le_iff, Bool.and_eq_true, decide_eq_true_eq, Char.reduceToNat]
    split
    · exact ⟨_, by omega, rfl⟩
    · split
      · exact ⟨_, by omega, rfl⟩
      · exact ⟨_, by omega, if_pos (by omega)⟩
  exact ⟨v, small, by simp [digitValue?, value, small]⟩

theorem asciiDigit_of_isHexDigit {c : Char} (h : isHexDigit c) : asciiDigit c = c := by
  have range := toNat_of_isHexDigit h
  exact if_pos (by omega)

theorem not_isAsciiBlank_of_isHexDigit {c : Char} (h : isHexDigit c) : isAsciiBlank c = false := by
  have range := toNat_of_isHexDigit h
  have apart : c ≠ ' ' := fun same => by simp [same] at range
  have out : ¬ ('\t' ≤ c ∧ c ≤ '\r') := by
    simp only [char_le_iff, Char.reduceToNat]
    omega
  simpa [isAsciiBlank, apart] using out

theorem digitsFrom_of_isHexDigit {text : List Char} (digits : ∀ c ∈ text, isHexDigit c)
    (value : Nat) : ∃ n < (value + 1) * 16 ^ text.length, digitsFrom 16 value text = some n := by
  fun_induction digitsFrom 16 value text with
  | case1 value => exact ⟨value, by simp, rfl⟩
  | case2 value c rest ih => exact absurd (digits '_' (by simp)) (by decide)
  | case3 value c rest _ ih =>
      obtain ⟨d, small, known⟩ := digitValue_of_isHexDigit (digits c (by simp))
      obtain ⟨n, bounded, read⟩ := ih d fun c there => digits c (by simp [there])
      have room : (value * 16 + d + 1) * 16 ^ rest.length ≤ (value + 1) * 16 * 16 ^ rest.length :=
        Nat.mul_le_mul_right _ (by omega)
      refine ⟨n, ?_, by rw [known]; exact read⟩
      calc
        n < (value * 16 + d + 1) * 16 ^ rest.length := bounded
        _ ≤ (value + 1) * 16 * 16 ^ rest.length := room
        _ = (value + 1) * 16 ^ (c :: rest).length := by
          rw [List.length_cons, Nat.pow_succ, Nat.mul_comm (16 ^ rest.length), Nat.mul_assoc]

theorem digits_of_isHexDigit {text : List Char} (digits : ∀ c ∈ text, isHexDigit c)
    (nonempty : text ≠ []) : ∃ n < 16 ^ text.length, digits? 16 text = some n := by
  obtain ⟨c, rest, rfl⟩ := List.exists_cons_of_ne_nil nonempty
  obtain ⟨d, small, known⟩ := digitValue_of_isHexDigit (digits c (by simp))
  obtain ⟨n, bounded, read⟩ := digitsFrom_of_isHexDigit (List.forall_mem_cons.mp digits).2 d
  refine ⟨n, ?_, by rw [digits?, known]; exact read⟩
  calc
    n < (d + 1) * 16 ^ rest.length := bounded
    _ ≤ 16 * 16 ^ rest.length := Nat.mul_le_mul_right _ small
    _ = 16 ^ (c :: rest).length := by rw [List.length_cons, Nat.pow_succ, Nat.mul_comm]

theorem trim_of_not_isAsciiBlank {text : List Char} (solid : ∀ c ∈ text, isAsciiBlank c = false) :
    trim text = text := by
  have kept (list : List Char) (solid : ∀ c ∈ list, isAsciiBlank c = false) :
      list.dropWhile isAsciiBlank = list := by
    cases list with
    | nil => rfl
    | cons c rest => rw [List.dropWhile_cons, solid c (by simp), if_neg (by simp)]
  rw [trim, kept text solid, kept text.reverse fun c there => solid c (by simpa using there),
    List.reverse_reverse]

theorem trim_of_isHexDigit {text : List Char} (digits : ∀ c ∈ text, isHexDigit c) :
    trim (text.map asciiDigit) = text := by
  have same : text.map asciiDigit = text := by
    conv_rhs => rw [← List.map_id text]
    exact List.map_congr_left fun c there => asciiDigit_of_isHexDigit (digits c there)
  rw [same]
  exact trim_of_not_isAsciiBlank fun c there => not_isAsciiBlank_of_isHexDigit (digits c there)

/-- Digits alone are a number, which is less than the power of sixteen to their number. -/
theorem integer_of_isHexDigit {text : List Char} (digits : ∀ c ∈ text, isHexDigit c)
    (nonempty : text ≠ []) :
    ∃ n : Nat, n < 16 ^ text.length ∧ integer 16 (String.ofList text) = .ok n := by
  obtain ⟨n, bounded, known⟩ := digits_of_isHexDigit digits nonempty
  have unmarked : unsigned? 16 text = some n := by
    unfold unsigned?
    split
    · next x rest _ =>
        have digit := digits x (by simp)
        have lower : x ≠ 'x' := fun same => absurd (same ▸ digit) (by decide)
        have upper : x ≠ 'X' := fun same => absurd (same ▸ digit) (by decide)
        rw [if_neg (by simp [lower, upper]), known]
    · exact known
  have whole : integer? 16 text = some (n : Int) := by
    unfold integer?
    rw [trim_of_isHexDigit digits]
    split
    · exact absurd (digits '-' (by simp)) (by decide)
    · exact absurd (digits '+' (by simp)) (by decide)
    · rw [unmarked]
      rfl
  exact ⟨n, bounded, by simp [integer, whole]⟩

end ByteTape.Text
