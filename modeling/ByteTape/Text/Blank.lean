/-! # Blanks and words

The characters that separate words, and the cutting of a text at separators.
-/

namespace ByteTape.Text

/-- White space: the ASCII controls that move or separate, the spaces, and the
line and paragraph separators. -/
def isBlank (c : Char) : Bool :=
  let n := c.toNat
  (0x09 ≤ n && n ≤ 0x0d) || (0x1c ≤ n && n ≤ 0x20) || n == 0x85 || n == 0xa0 || n == 0x1680 ||
    (0x2000 ≤ n && n ≤ 0x200a) || n == 0x2028 || n == 0x2029 || n == 0x202f || n == 0x205f ||
    n == 0x3000

/-- The pieces between the separators; there is one more piece than separators. -/
def pieces (isSeparator : Char → Bool) : List Char → List (List Char)
  | [] => [[]]
  | c :: text =>
    if isSeparator c then [] :: pieces isSeparator text
    else
      match pieces isSeparator text with
      | [] => [[c]]
      | piece :: rest => (c :: piece) :: rest

/-- The words of a text, without the blanks around them. -/
def words (text : List Char) : List (List Char) :=
  (pieces isBlank text).filter fun word => !word.isEmpty

/-- The lines of a text: each ends with a line feed, except perhaps the last. -/
def lines (text : List Char) : List (List Char) :=
  let all := pieces (· == '\n') text
  if all.getLast?.getD [] |>.isEmpty then all.dropLast else all

end ByteTape.Text
