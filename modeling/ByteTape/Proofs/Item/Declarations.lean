import Mathlib.Data.List.Basic
import Mathlib.Tactic.Tauto
import ByteTape.Proofs.Expansion.Inclusion

/-! # What items declare

A list of items is a scope: some of its items are definitions and imports, and what is
left is its body. The bodies of the definitions are scopes again. Here is what can be
said about the scopes of a list before any tree is built: which names they define,
whether one is defined twice, which paths are written in them, and what their bodies
are, scope by scope.
-/

namespace ByteTape.Item

/-- The item is a definition or an import. -/
def declares : Item → Bool
  | define .. | use .. => true
  | op .. | debug .. | text .. | ref .. | group .. | times .. => false

/-- What is left for the body of a scope. -/
def own (items : List Item) : List Item := items.filter fun item => !item.declares

def defines? : Item → Option String
  | define name .. => some name
  | _ => none

/-- The names that a scope defines. -/
def names (items : List Item) : List String := items.filterMap defines?

/-- There is no import in any of the scopes. -/
def Importless : List Item → Prop
  | [] => True
  | define _ body _ :: items => Importless body ∧ Importless items
  | use .. :: _ => False
  | _ :: items => Importless items

/-- None of the scopes defines a name twice. -/
def Distinct : List Item → Prop
  | [] => True
  | define name body _ :: items => name ∉ names items ∧ Distinct body ∧ Distinct items
  | _ :: items => Distinct items

/-- The scopes below a scope that has this address, in the order in which they are
opened, each with its own address and with its body. -/
def entries (address : List String) : List Item → List (List String × List Item)
  | [] => []
  | define name body _ :: items =>
    (address ++ [name], own body) :: entries (address ++ [name]) body ++ entries address items
  | _ :: items => entries address items

mutual

/-- The references and imports in an item, at any depth. -/
def mentions : Item → List Reference
  | ref path loc => [⟨path, false, loc⟩]
  | use path loc => [⟨path, true, loc⟩]
  | define _ body _ => mentionsOf body
  | group members _ => mentionsOf members
  | times _ target _ => mentions target
  | op .. | debug .. | text .. => []

/-- The references and imports in items. -/
def mentionsOf : List Item → List Reference
  | [] => []
  | first :: rest => mentions first ++ mentionsOf rest

end

section
variable {item : Item} {items front back : List Item}

theorem own_cons_of_declares (h : item.declares) : own (item :: items) = own items := by
  simp [own, h]

theorem own_cons_of_plain (h : item.declares = false) : own (item :: items) = item :: own items := by
  simp [own, h]

@[simp]
theorem own_append : own (front ++ back) = own front ++ own back := List.filter_append ..

@[simp]
theorem names_append : names (front ++ back) = names front ++ names back := List.filterMap_append ..

@[simp]
theorem names_define {name : String} {body : List Item} {loc : Location} :
    names (define name body loc :: items) = name :: names items := rfl

theorem names_cons_of_plain (h : item.declares = false) : names (item :: items) = names items := by
  cases item with
  | define | use => cases h
  | op | debug | text | ref | group | times => rfl

theorem importless_cons_of_plain (h : item.declares = false) :
    Importless (item :: items) ↔ Importless items := by
  cases item with
  | define | use => cases h
  | op | debug | text | ref | group | times => simp only [Importless]

theorem distinct_cons_of_plain (h : item.declares = false) :
    Distinct (item :: items) ↔ Distinct items := by
  cases item with
  | define | use => cases h
  | op | debug | text | ref | group | times => simp only [Distinct]

theorem entries_cons_of_plain {address : List String} (h : item.declares = false) :
    entries address (item :: items) = entries address items := by
  cases item with
  | define | use => cases h
  | op | debug | text | ref | group | times => simp only [entries]

@[simp]
theorem importless_append : Importless (front ++ back) ↔ Importless front ∧ Importless back := by
  induction front with
  | nil => simp [Importless]
  | cons item front ih => cases item <;> simp [Importless, ih, and_assoc]

@[simp]
theorem distinct_append : Distinct (front ++ back) ↔
    Distinct front ∧ Distinct back ∧ (names front).Disjoint (names back) := by
  induction front with
  | nil => simp [Distinct, names]
  | cons item front ih =>
      cases item with
      | define name body loc =>
          simp only [List.cons_append, Distinct, ih, names_append, names_define, List.mem_append,
            List.disjoint_cons_left]
          tauto
      | use | op | debug | text | ref | group | times =>
          simp only [List.cons_append, Distinct]
          exact ih

@[simp]
theorem entries_append {address : List String} :
    entries address (front ++ back) = entries address front ++ entries address back := by
  induction front with
  | nil => simp [entries]
  | cons item front ih => cases item <;> simp [entries, ih]

end

mutual

theorem mem_mentions_of_refs (item : Item) {ref : Reference} (there : ref ∈ item.refs) :
    ref ∈ item.mentions := by
  cases item with
  | op | debug | text | use | define => cases there
  | ref path loc => exact there
  | group members loc => exact mem_mentionsOf_of_refsOf members there
  | times count target loc => exact mem_mentions_of_refs target there
termination_by sizeOf item

theorem mem_mentionsOf_of_refsOf (items : List Item) {ref : Reference} (there : ref ∈ refsOf items) :
    ref ∈ mentionsOf items := by
  cases items with
  | nil => cases there
  | cons first rest =>
      simp only [refsOf, mentionsOf, List.mem_append] at there ⊢
      exact there.imp (mem_mentions_of_refs first) (mem_mentionsOf_of_refsOf rest)
termination_by sizeOf items

end

theorem mem_mentionsOf_iff {items : List Item} {ref : Reference} :
    ref ∈ mentionsOf items ↔ ∃ item ∈ items, ref ∈ item.mentions := by
  induction items with
  | nil => simp [mentionsOf]
  | cons first rest ih => simp [mentionsOf, ih]

end ByteTape.Item
