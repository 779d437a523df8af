import ByteTape.Scope.Walk

/-! # Building scopes

The items of a text become a root and, below it, one scope for each definition.
Imports are bound as they are met, so they see only what stands before them. A
build that fails leaves behind what it had made.
-/

namespace ByteTape.ScopeTree

/-- The macro an import names, or the complaint about the import. A tree that was
given wrong numbers is not the import's fault. -/
def findImport (t : ScopeTree) (n : Nat) (path : Path) (loc : Location) : Except ScopeError Nat :=
  match t.find n ⟨path, true, loc⟩ with
  | .ok target => .ok target
  | .error e => .error (if e.isLanguage then .badImport e loc else e)

/-- Declare the definitions and imports among `items` in scope `n`. The result is
the tree that was made and, unless that failed, the other items in order. -/
def collect (t : ScopeTree) (n : Nat) : List Item → ScopeTree × Except ScopeError (List Item)
  | [] => (t, .ok [])
  | .define name body loc :: items =>
    match t.addMacro n name (some loc) with
    | .error e => (t, .error e)
    | .ok (t, child) =>
      match t.collect child body with
      | (t, .error e) => (t, .error e)
      | (t, .ok own) => (t.modify child fun s => { s with body := some own }).collect n items
  | .use path loc :: items =>
    match t.findImport n path loc with
    | .error e => (t, .error e)
    | .ok target =>
      match t.bindAlias n target loc with
      | .error e => (t, .error e)
      | .ok (t, _) => t.collect n items
  | item :: items =>
    match t.collect n items with
    | (t, .error e) => (t, .error e)
    | (t, .ok own) => (t, .ok (item :: own))
termination_by items => sizeOf items

/-- Add a root with the scopes of `items`. -/
def build (t : ScopeTree) (root : String) (items : List Item) : ScopeTree × Except ScopeError Unit :=
  match t.addRoot root with
  | .error e => (t, .error e)
  | .ok (t, n) =>
    match t.collect n items with
    | (t, .error e) => (t, .error e)
    | (t, .ok own) => (t.modify n fun s => { s with body := some own }, .ok ())

end ByteTape.ScopeTree
