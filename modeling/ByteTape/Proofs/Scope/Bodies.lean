import ByteTape.Build
import ByteTape.Proofs.Item.Shape
import ByteTape.Proofs.Scope.Growth

/-! # Bodies of loaded trees

When a text is loaded its definitions and imports are taken up by the tree, and what
is left is stored. So in a tree that was made by loading, nothing is declared inside
a body, and every count there has a value.
-/

namespace ByteTape

/-- All items of the scope are of this kind. -/
def Scope.Stores (fit : Item → Prop) (s : Scope) : Prop := ∀ item ∈ s.items, fit item

/-- The items of the scope have code if their references have. -/
def Scope.Expandable (s : Scope) : Prop := s.Stores Item.Expandable

/-- Of items that are all `whole`, what is left for a body is `part`, and the bodies of
definitions are `whole` again. -/
structure Item.Sorts (whole part : Item → Prop) : Prop where
  body : ∀ {name : String} {body : List Item} {loc : Location}, whole (.define name body loc) →
    ∀ item ∈ body, whole item
  left : ∀ {item : Item}, whole item → (∀ name body loc, item ≠ .define name body loc) →
    (∀ path loc, item ≠ .use path loc) → part item

theorem Item.Orderly.sorts : Item.Sorts Item.Orderly Item.Expandable := by
  refine ⟨fun {name body loc} h => ?_, fun {item} h notDefine notUse => ?_⟩
  · cases h with
    | plain declared => cases declared
    | define _ _ inside => exact inside
  · cases h with
    | plain fit => exact fit
    | use path loc => exact absurd rfl (notUse path loc)
    | define name loc _ => exact absurd rfl (notDefine name _ loc)

theorem Item.Made.sorts (kind : Token → Prop) : Item.Sorts (Item.Made kind) (Item.Made kind) := by
  refine ⟨fun {name body loc} h => ?_, fun {item} h _ _ => h⟩
  cases h with
  | define _ inside => exact inside

namespace ScopeTree

variable {t t' : ScopeTree} {whole part : Item → Prop}

theorem stores_addMacro (fit : t.Every (Scope.Stores part)) {parent : Int} {name : String}
    {loc : Option Location} {c : Nat} (added : t.addMacro parent name loc = .ok (t', c)) :
    t'.Every (Scope.Stores part) :=
  fit.of_addMacro (fun _ none => by cases none) (fun _ old => old) added

theorem stores_stored (fit : t.Every (Scope.Stores part)) (n : Nat) {own : List Item}
    (plain : ∀ item ∈ own, part item) :
    (t.modify n fun s => { s with body := some own }).Every (Scope.Stores part) :=
  fit.modify n fun _ _ => plain

/-- A tree and the items that are left for a body, all of which are of this kind. -/
structure Sorted (part : Item → Prop) (outcome : ScopeTree × Except ScopeError (List Item)) :
    Prop where
  tree : outcome.1.Every (Scope.Stores part)
  left : ∀ own, outcome.2 = .ok own → ∀ item ∈ own, part item

theorem sorted_collect (sorts : Item.Sorts whole part) (t : ScopeTree) (n : Nat) (items : List Item)
    (fit : t.Every (Scope.Stores part)) (given : ∀ item ∈ items, whole item) :
    Sorted part (t.collect n items) := by
  fun_induction collect t n items with
  | case1 t n =>
      refine ⟨fit, fun own same => ?_⟩
      cases same
      exact fun _ none => (by cases none)
  | case2 | case5 | case6 => exact ⟨fit, fun own failed => (by cases failed)⟩
  | case3 t n name body loc items t₁ child added t₂ e collected ih =>
      rw [collected] at ih
      exact ih (stores_addMacro fit added) (sorts.body (given _ List.mem_cons_self))
  | case4 t n name body loc items t₁ child added t₂ own collected ihBody ihItems =>
      rw [collected] at ihBody
      have below := ihBody (stores_addMacro fit added) (sorts.body (given _ List.mem_cons_self))
      exact ihItems (stores_stored below.tree child (below.left own rfl))
        fun item there => given item (List.mem_cons_of_mem _ there)
  | case7 t n path loc items target _ t₁ a bound ih =>
      exact ih (fit.of_bindAlias (fun _ old _ => old) bound)
        fun item there => given item (List.mem_cons_of_mem _ there)
  | case8 t n item items _ _ t₁ e collected ih =>
      rw [collected] at ih
      have rest := ih fit fun item there => given item (List.mem_cons_of_mem _ there)
      exact ⟨rest.tree, fun own failed => (by cases failed)⟩
  | case9 t n item items notDefine notUse t₁ own collected ih =>
      rw [collected] at ih
      have rest := ih fit fun item there => given item (List.mem_cons_of_mem _ there)
      refine ⟨rest.tree, fun own same => ?_⟩
      cases same
      have first := sorts.left (given item List.mem_cons_self)
        (fun name body loc => notDefine name body loc) (fun path loc => notUse path loc)
      exact List.forall_mem_cons.mpr ⟨first, rest.left _ rfl⟩

theorem stores_build (sorts : Item.Sorts whole part) (fit : t.Every (Scope.Stores part))
    (root : String) {items : List Item} (given : ∀ item ∈ items, whole item) :
    (t.build root items).1.Every (Scope.Stores part) := by
  obtain same | ⟨t₁, n, added, same⟩ := build_cases t root items
  · rw [same]
    exact fit
  · have start := fit.of_addRoot (fun _ none => by cases none) added
    have done := sorted_collect sorts t₁ n items start given
    obtain same | ⟨own, collected, same⟩ := same
    · rw [same]
      exact done.tree
    · rw [same]
      exact stores_stored done.tree n (done.left own collected)

/-- Trees that come from loading texts under roots, one after the other; a text that
cannot be loaded may have left something behind. -/
inductive Loaded : ScopeTree → Prop where
  | empty : Loaded .empty
  | load {t : ScopeTree} (before : Loaded t) (dialect : Dialect) (root : String) (source : Source) :
    Loaded (t.load dialect root source).1

theorem Loaded.expandable (h : Loaded t) : t.Every Scope.Expandable := by
  induction h with
  | empty => exact .empty
  | @load t _ dialect root source fit =>
      unfold ScopeTree.load
      split
      · exact fit
      · next items parsed =>
          have built := stores_build Item.Orderly.sorts fit root (Item.orderly_of_parse parsed)
          split <;> next made => rwa [made] at built

end ScopeTree

end ByteTape
