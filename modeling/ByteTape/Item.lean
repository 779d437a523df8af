import ByteTape.Token

/-! # Items

What a source text consists of once its brackets are read: operations, strings,
references, imports, definitions with their bodies, groups and repetitions.
Items are nested, and each has the position of its first character.
-/

namespace ByteTape

/-- A part of a source text. -/
inductive Item where
  | op (op : Op) (loc : Location)
  | debug (loc : Location)
  /-- A string literal, as the bytes it stands for. -/
  | text (bytes : List UInt8) (loc : Location)
  /-- A macro put in by its path. -/
  | ref (path : Path) (loc : Location)
  /-- A macro made known by its name. -/
  | use (path : Path) (loc : Location)
  | define (name : String) (body : List Item) (loc : Location)
  | group (items : List Item) (loc : Location)
  /-- An item so many times over; it stands where the item stands. -/
  | times (count : Count) (target : Item) (loc : Location)

namespace Item

def loc : Item → Location
  | op _ loc | debug loc | text _ loc | ref _ loc | use _ loc | define _ _ loc | group _ loc
  | times _ _ loc => loc

mutual

/-- The two items are equal. -/
def beq : Item → Item → Bool
  | op o loc, op o' loc' => o == o' && loc == loc'
  | debug loc, debug loc' => loc == loc'
  | text bytes loc, text bytes' loc' => bytes == bytes' && loc == loc'
  | ref path loc, ref path' loc' | use path loc, use path' loc' => path == path' && loc == loc'
  | define name body loc, define name' body' loc' =>
    name == name' && beqAll body body' && loc == loc'
  | group items loc, group items' loc' => beqAll items items' && loc == loc'
  | times count target loc, times count' target' loc' =>
    count == count' && beq target target' && loc == loc'
  | _, _ => false

def beqAll : List Item → List Item → Bool
  | [], [] => true
  | a :: as, b :: bs => beq a b && beqAll as bs
  | _, _ => false

end

mutual

theorem beq_iff (a b : Item) : beq a b ↔ a = b := by
  cases a with
  | op | debug | text | ref | use => cases b <;> simp [beq]
  | define name body loc => cases b <;> simp [beq, beqAll_iff body, and_assoc]
  | group items loc => cases b <;> simp [beq, beqAll_iff items]
  | times count target loc => cases b <;> simp [beq, beq_iff target, and_assoc]

theorem beqAll_iff (as bs : List Item) : beqAll as bs ↔ as = bs := by
  cases as with
  | nil => cases bs <;> simp [beqAll]
  | cons a as => cases bs <;> simp [beqAll, beq_iff a, beqAll_iff as]

end

instance : DecidableEq Item := fun a b => decidable_of_iff _ (beq_iff a b)

end Item

/-- Why tokens do not make up items. -/
inductive ItemError where
  /-- A definition or an import inside a group. -/
  | declarationInGroup (loc : Location)
  /-- The import keyword without a reference behind it. -/
  | useOfNothing (loc : Location)
  /-- An import of an enclosing scope. -/
  | useOfParent (loc : Location)
  /-- An import with a count. -/
  | useRepeated (loc : Location)
  /-- A name to be defined without a body. -/
  | bodyMissing (loc : Location)
  /-- A body without a name. -/
  | bodyNameless (loc : Location)
  /-- The end of a body where none is open. -/
  | bodyEndLoose (loc : Location)
  /-- A body that is never closed. -/
  | bodyOpen (name : String) (loc : Location)
  /-- The end of a group where none is open. -/
  | groupEndLoose (loc : Location)
  /-- A group that is never closed. -/
  | groupOpen (loc : Location)
  /-- A token that belongs to no text. -/
  | unknownToken (type : String) (loc : Location)
  /-- A count with nothing before it. -/
  | nothingToCount
deriving DecidableEq

def ItemError.report : ItemError → Report
  | declarationInGroup loc =>
    .located .lex "Definitions and imports are not allowed inside '( )'" loc
  | useOfNothing loc => .located .lex "Expected a macro reference after 'use'" loc
  | useOfParent loc => .located .lex "Cannot import a parent scope" loc
  | useRepeated loc => .located .lex "An import cannot be repeated" loc
  | bodyMissing loc => .located .lex "Expected '\x7b' after macro name" loc
  | bodyNameless loc => .located .lex "Unexpected '\x7b' without a macro name" loc
  | bodyEndLoose loc => .located .lex "Unexpected '\x7d'" loc
  | bodyOpen name loc => .located .lex s!"Unclosed body of macro '{name}' opened" loc
  | groupEndLoose loc => .located .expansion "Unmatched ')'" loc
  | groupOpen loc => .located .expansion "Unmatched '('" loc
  | unknownToken type loc => .located .lex s!"Unknown token {type}" loc
  | nothingToCount => .bare .range "pop from empty list"

end ByteTape
