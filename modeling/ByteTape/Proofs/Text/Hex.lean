import Mathlib.Data.List.Basic
import ByteTape.Text.Quoted

/-! # Hexadecimal digits

Numbers and bytes are written with the sixteen digits alone, and a number that was widened to a
fixed width has one digit for each power of sixteen.
-/

namespace ByteTape.Text

/-- The sixteen digits in order, upper case. -/
def upperDigits : List Char := "0123456789ABCDEF".toList

/-- The text is the two digits of the byte, the higher one first. -/
def Spells (b : UInt8) (text : List Char) : Prop :=
  ∃ high low, text = [high, low] ∧ upperDigits[b.toNat / 16]? = some high ∧
    upperDigits[b.toNat % 16]? = some low

theorem upperDigits_digitChar {d : Nat} (small : d < 16) :
    upperDigits[d]? = some (Nat.digitChar d).toUpper := by
  have known : ∀ d < 16, upperDigits[d]? = some (Nat.digitChar d).toUpper := by decide
  exact known d small

theorem upperByte_spells (b : UInt8) : Spells b (upperByte b) := by
  have bound := b.toNat_lt
  exact ⟨_, _, rfl, upperDigits_digitChar (by omega), upperDigits_digitChar (by omega)⟩

theorem mem_upperByte {b : UInt8} {c : Char} (among : c ∈ upperByte b) : c ∈ upperDigits := by
  obtain ⟨high, low, text, first, second⟩ := upperByte_spells b
  rw [text, List.mem_cons, List.mem_singleton] at among
  rcases among with rfl | rfl
  · exact List.mem_of_getElem? first
  · exact List.mem_of_getElem? second

theorem mem_toDigits {base n : Nat} (several : 1 < base) {c : Char} (among : c ∈ Nat.toDigits base n) :
    ∃ d < base, c = Nat.digitChar d := by
  induction n using Nat.strongRecOn with
  | ind n ih =>
      by_cases small : n < base
      · rw [Nat.toDigits_of_lt_base small, List.mem_singleton] at among
        exact ⟨n, small, among⟩
      · have large : base ≤ n := Nat.le_of_not_lt small
        rw [Nat.toDigits_of_base_le several large, List.mem_append, List.mem_singleton] at among
        rcases among with front | rfl
        · exact ih (n / base) (Nat.div_lt_self (by omega) several) front
        · exact ⟨n % base, Nat.mod_lt _ (by omega), rfl⟩

theorem mem_upperHex {n : Nat} {c : Char} (among : c ∈ upperHex n) : c ∈ upperDigits := by
  obtain ⟨digit, inside, rfl⟩ := List.mem_map.mp among
  obtain ⟨d, small, rfl⟩ := mem_toDigits (by decide) inside
  exact List.mem_of_getElem? (upperDigits_digitChar small)

theorem mem_upperHexInt {n : Int} {c : Char} (among : c ∈ upperHexInt n) :
    c = '-' ∨ c ∈ upperDigits := by
  unfold upperHexInt at among
  split at among
  · exact (List.mem_cons.mp among).imp_right mem_upperHex
  · exact .inr (mem_upperHex among)

theorem mem_padLeft {width : Nat} {fill c : Char} {text : List Char}
    (among : c ∈ padLeft width fill text) : c = fill ∨ c ∈ text :=
  (List.mem_append.mp among).imp_left List.eq_of_mem_replicate

theorem padLeft_toDigits {base width : Nat} (several : 1 < base) (filled : 0 < width) (n : Nat) :
    padLeft (width + 1) '0' (Nat.toDigits base n) =
      padLeft width '0' (Nat.toDigits base (n / base)) ++ [Nat.digitChar (n % base)] := by
  by_cases small : n < base
  · have fill : List.replicate width '0' = List.replicate (width - 1) '0' ++ ['0'] := by
      rw [← List.replicate_succ', Nat.sub_add_cancel filled]
    rw [Nat.toDigits_of_lt_base small, Nat.div_eq_of_lt small, Nat.mod_eq_of_lt small, Nat.toDigits_zero]
    simp only [padLeft, List.length_singleton, Nat.add_sub_cancel, fill]
  · rw [Nat.toDigits_of_base_le several (Nat.le_of_not_lt small)]
    simp only [padLeft, List.length_append, List.length_singleton, Nat.add_sub_add_right, List.append_assoc]

theorem hexDigits_four {n : Nat} (small : n < 0x10000) :
    hexDigits 4 n = [Nat.digitChar (n / 0x1000), Nat.digitChar (n / 0x100 % 16),
      Nat.digitChar (n / 0x10 % 16), Nat.digitChar (n % 16)] := by
  have second : n / 16 / 16 = n / 0x100 := by omega
  have first : n / 0x100 / 16 = n / 0x1000 := by omega
  rw [hexDigits, padLeft_toDigits (by decide) (by decide), padLeft_toDigits (by decide) (by decide),
    padLeft_toDigits (by decide) (by decide), second, first, Nat.toDigits_of_lt_base (by omega)]
  rfl

theorem hexValue?_digitChar {d : Nat} (small : d < 16) : hexValue? (Nat.digitChar d) = some d := by
  have known : ∀ d < 16, hexValue? (Nat.digitChar d) = some d := by decide
  exact known d small

end ByteTape.Text
