import ByteTape.Report
import ByteTape.Text.Quoted

/-! # Code points

Text in which half of a pair of units may stand without the other half. Such a half has
a number but is no character, so it can be written by its number and in no other way.
-/

namespace ByteTape.Text

/-- A character, or the first or the second half of a pair by its ten bits. -/
inductive CodePoint where
  | char (c : Char)
  | high (bits : Fin 0x400)
  | low (bits : Fin 0x400)
deriving DecidableEq

namespace CodePoint

def number : CodePoint → Nat
  | char c => c.toNat
  | high bits => 0xd800 + bits
  | low bits => 0xdc00 + bits

def char? : CodePoint → Option Char
  | char c => some c
  | high _ | low _ => none

/-- What a unit of sixteen bits stands for by itself. -/
def ofUnit (n : Nat) : CodePoint :=
  if 0xd800 ≤ n && n < 0xdc00 then high (Fin.ofNat _ (n - 0xd800))
  else if 0xdc00 ≤ n && n < 0xe000 then low (Fin.ofNat _ (n - 0xdc00))
  else char (Char.ofNat n)

/-- What two halves stand for together. -/
def ofPair (first second : Fin 0x400) : CodePoint :=
  char (Char.ofNat (0x10000 + first * 0x400 + second))

/-- One code point between `quote`s. -/
def escapeIn (quote : Char) : CodePoint → List Char
  | char c => Text.escapeIn isPrintable quote c
  | half => '\\' :: 'u' :: hexDigits 4 half.number

end CodePoint

/-- The code points of a text. -/
def codePoints (text : String) : List CodePoint := text.toList.map .char

instance : Coe String (List CodePoint) := ⟨codePoints⟩

/-- Code points between quotes. -/
def quotedPoints (points : List CodePoint) : String :=
  let quote := quoteFor (points.filterMap CodePoint.char?)
  String.ofList (quote :: points.flatMap (CodePoint.escapeIn quote) ++ [quote])

/-- The complaint about the first halves that stand alone. -/
def notCharacters (points : List CodePoint) : Report :=
  let start := (points.takeWhile fun point => point.char?.isSome).length
  let halves := (points.drop start).takeWhile fun point => point.char?.isNone
  match halves with
  | [half] =>
    let number := String.ofList (hexDigits 4 half.number)
    .bare .value <| s!"'utf-8' codec can't encode character '\\u{number}' in position {start}: " ++
      "surrogates not allowed"
  | _ =>
    .bare .value <| s!"'utf-8' codec can't encode characters in position {start}-" ++
      s!"{start + halves.length - 1}: surrogates not allowed"

/-- The text of code points that are all characters. -/
def ofCodePoints (points : List CodePoint) : Except Report String :=
  match points.mapM CodePoint.char? with
  | some text => .ok (String.ofList text)
  | none => .error (notCharacters points)

theorem codePoints_inj {a b : String} : codePoints a = codePoints b ↔ a = b := by
  rw [codePoints, codePoints, List.map_inj_right fun _ _ => CodePoint.char.inj, String.toList_inj]

@[simp]
theorem codePoints_beq (a b : String) : (codePoints a == codePoints b) = (a == b) := by
  rw [Bool.eq_iff_iff, beq_iff_eq, beq_iff_eq, codePoints_inj]

theorem char?_of_mem_codePoints {text : String} {point : CodePoint} (there : point ∈ codePoints text) :
    point.char?.isSome := by
  obtain ⟨c, -, rfl⟩ := List.mem_map.mp there
  rfl

theorem exists_ofCodePoints {points : List CodePoint} (whole : ∀ point ∈ points, point.char?.isSome) :
    ∃ text, ofCodePoints points = .ok text := by
  have found : ∃ text, points.mapM CodePoint.char? = some text := by
    induction points with
    | nil => exact ⟨[], rfl⟩
    | cons point points ih =>
        obtain ⟨here, there⟩ := List.forall_mem_cons.mp whole
        obtain ⟨c, first⟩ := Option.isSome_iff_exists.mp here
        obtain ⟨text, rest⟩ := ih there
        exact ⟨c :: text, by rw [List.mapM_cons, first, rest]; rfl⟩
  obtain ⟨text, found⟩ := found
  exact ⟨String.ofList text, by rw [ofCodePoints, found]⟩

end ByteTape.Text
