import ByteTape.Proofs.Item.Grammar
import ByteTape.Proofs.Scope.Frame

/-! # Scopes and definitions

What definitions have in common with the scopes that are made of them: a name, a place, a
body and the scope they stand in. A build makes its scopes in the order in which the
definitions are opened, and that is the order in which they stand in the text.
-/

namespace ByteTape

/-- A definition, with the number of the scope it stands in and what its body does not declare. -/
structure Definition where
  parent : Nat
  name : String
  loc : Location
  body : List Item

/-- The scope is the one that the definition makes. -/
structure Scope.Defined (s : Scope) (d : Definition) : Prop where
  parent : s.parent = some (d.parent : Int)
  name : s.name = d.name
  loc : s.loc = some d.loc
  body : s.body = some d.body

/-- The name that the token defines, and where. -/
def Token.definition? (token : Token) : Option (String × Location) :=
  match token.value with
  | .define name => some (name, token.loc)
  | _ => none

namespace Item

/-- The definitions among the items of scope `parent` and in their bodies, in the order in
which they are opened. Their numbers begin with `next`. -/
def definitions (parent next : Nat) : List Item → List Definition
  | [] => []
  | define name body loc :: items =>
    ⟨parent, name, loc, own body⟩ :: (definitions next (next + 1) body ++
      definitions parent (next + 1 + (definitions next (next + 1) body).length) items)
  | _ :: items => definitions parent next items

variable {parent next : Nat} {item : Item} {items : List Item}

theorem definitions_cons_of_plain (h : item.declares = false) :
    definitions parent next (item :: items) = definitions parent next items := by
  cases item with
  | define | use => cases h
  | op | debug | text | ref | group | times => simp only [definitions]

theorem definitions_of_plain (plain : ∀ item ∈ items, item.declares = false) :
    definitions parent next items = [] := by
  induction items with
  | nil => simp only [definitions]
  | cons item items ih =>
      obtain ⟨first, rest⟩ := List.forall_mem_cons.mp plain
      rw [definitions_cons_of_plain first, ih rest]

/-- The definitions stand in the text as they are opened. -/
theorem Reads.definitions_eq {grouped : Bool} {tokens : List Token} (h : Reads grouped tokens items)
    (parent next : Nat) :
    (definitions parent next items).map (fun d => (d.name, d.loc)) =
      tokens.filterMap Token.definition? := by
  induction h generalizing parent next with
  | nil => simp only [definitions, List.map_nil, List.filterMap_nil]
  | op _ ih | debug _ ih | text _ ih | ref _ ih | use _ _ ih =>
      simp only [definitions]
      exact ih parent next
  | @define name loc _ _ _ _ body _ _ _ inner ih =>
      simp only [definitions, List.map_cons, List.map_append, inner, ih, List.filterMap_cons,
        List.filterMap_append, Token.definition?]
  | @group _ _ _ _ _ members _ inside _ inner ih =>
      have none := inner parent next
      rw [definitions_of_plain inside.not_declares] at none
      simp only [definitions, List.filterMap_cons, List.filterMap_append, ← none, ih, Token.definition?,
        List.map_nil, List.nil_append]
  | @times _ _ target _ _ _ _ fit _ _ inner ih =>
      have none := inner parent next
      have plain : ∀ item ∈ [target], item.declares = false := by
        rw [List.forall_mem_singleton]
        cases target with
        | define | use | times => cases fit
        | op | debug | text | ref | group => rfl
      rw [definitions_of_plain plain] at none
      simp only [definitions, List.filterMap_cons, List.filterMap_append, ← none, ih, Token.definition?,
        List.map_nil, List.nil_append]

end Item

namespace ScopeTree

variable {t t' : ScopeTree} {n k c : Nat} {items own : List Item} {name : String} {loc : Option Location}

/-- What a scope is made with, and what stays. -/
def heading? (t : ScopeTree) (k : Nat) : Option (String × Option Int × Option Location) :=
  t.scopes[k]?.map fun s => (s.name, s.parent, s.loc)

theorem exists_of_heading? {parent : Option Int} {place : Option Location}
    (known : t.heading? k = some (name, parent, place)) :
    ∃ s, t.scopes[k]? = some s ∧ s.name = name ∧ s.parent = parent ∧ s.loc = place := by
  obtain ⟨s, here, same⟩ := Option.map_eq_some_iff.mp known
  simp only [Prod.mk.injEq] at same
  exact ⟨s, here, same⟩

theorem heading?_modify {f : Scope → Scope}
    (same : ∀ s, (f s).name = s.name ∧ (f s).parent = s.parent ∧ (f s).loc = s.loc) :
    (t.modify n f).heading? k = t.heading? k := by
  unfold heading? ScopeTree.modify
  rw [Array.getElem?_modify]
  split
  · cases t.scopes[k]? with
    | none => rfl
    | some s => simp [same s]
  · rfl

theorem heading?_store : (t.store n own).heading? k = t.heading? k :=
  heading?_modify fun _ => ⟨rfl, rfl, rfl⟩

theorem heading?_addMacro (added : t.addMacro n name loc = .ok (t', c)) (old : k < t.size) :
    t'.heading? k = t.heading? k := by
  obtain ⟨m, s, -, -, -, -, rfl⟩ := addMacro_eq_ok added
  have inside : k ≠ t.scopes.size := Nat.ne_of_lt old
  refine Eq.trans ?_ (heading?_modify (t := t) (n := m)
    (f := fun s => { s with children := s.children ++ [(name, t.size)] }) fun _ => ⟨rfl, rfl, rfl⟩)
  rw [heading?, heading?, Array.getElem?_push, Array.size_modify, if_neg inside, ScopeTree.modify]

theorem heading?_new (added : t.addMacro n name loc = .ok (t', c)) :
    t'.heading? t.size = some (name, some (n : Int), loc) := by
  obtain ⟨m, s, -, -, -, -, rfl⟩ := addMacro_eq_ok added
  rw [heading?, Array.getElem?_push, if_pos (by simp [ScopeTree.size])]
  rfl

theorem Collects.heading?_eq (h : Collects t n items t' own) (old : k < t.size) :
    t'.heading? k = t.heading? k := by
  induction h with
  | nil => rfl
  | @define t t₁ t₂ _ _ c _ _ _ _ inner _ added below _ ihBelow ihRest =>
      obtain ⟨-, size⟩ := addMacro_size added
      have grown := below.size_le
      rw [ihRest (by rw [modify_size]; omega), heading?_store, ihBelow (by omega),
        heading?_addMacro added old]
  | use _ bound _ ih =>
      obtain ⟨m, _, _, -, -, -, -, -, rfl⟩ := bindAlias_eq_ok bound
      exact (ih (by rwa [modify_size])).trans (heading?_modify fun _ => ⟨rfl, rfl, rfl⟩)
  | plain _ _ ih => exact ih old

theorem Fills.drop_eq (h : Fills n t t') (after : n < k) (inside : k ≤ t.size) :
    t'.scopes.toList.drop k = t.scopes.toList.drop k ++ t'.scopes.toList.drop t.size := by
  have size : t.scopes.toList.length = t.size := rfl
  apply List.ext_getElem?
  intro i
  rw [List.getElem?_append, List.length_drop, size, List.getElem?_drop]
  split
  · next within =>
      rw [List.getElem?_drop, Array.getElem?_toList, Array.getElem?_toList,
        h.old (by omega) (by omega)]
  · next beyond =>
      rw [List.getElem?_drop, show t.size + (i - (t.size - k)) = k + i by omega]

theorem drop_store {s : Scope} (here : t.scopes[k]? = some s) :
    (t.store k own).scopes.toList.drop k =
      { s with body := some own } :: t.scopes.toList.drop (k + 1) := by
  apply List.ext_getElem?
  intro i
  cases i with
  | zero =>
      rw [List.getElem?_drop, Array.getElem?_toList, Nat.add_zero, store, ScopeTree.modify,
        Array.getElem?_modify, if_pos rfl, here]
      rfl
  | succ i =>
      rw [List.getElem?_drop, Array.getElem?_toList, modify_old _ (by omega), List.getElem?_cons_succ,
        List.getElem?_drop, Array.getElem?_toList, show k + (i + 1) = k + 1 + i by omega]

/-- The scopes that a build adds are those of the definitions, in their order. -/
theorem Collects.defined (h : Collects t n items t' own) (inside : n < t.size) :
    List.Forall₂ Scope.Defined (t'.scopes.toList.drop t.size) (Item.definitions n t.size items) := by
  induction h with
  | nil t n =>
      have none : t.scopes.toList.drop t.size = [] := List.drop_length
      rw [none, Item.definitions]
      exact .nil
  | @define t t₁ t₂ t₃ n c name loc body items inner own added below rest ihBelow ihRest =>
      obtain ⟨rfl, size⟩ := addMacro_size added
      have grown := below.size_le
      have stored := modify_size t₂ t.size fun s => { s with body := some inner }
      have lower := ihBelow (by omega)
      have later := ihRest (by rw [stored]; omega)
      rw [size] at lower
      rw [stored] at later
      have count : t₂.size = t.size + 1 + (Item.definitions t.size (t.size + 1) body).length := by
        have length := lower.length_eq
        have whole : t₂.scopes.toList.length = t₂.size := rfl
        rw [List.length_drop, whole] at length
        omega
      have behind : t₃.scopes.toList.drop t.size =
          (t₂.store t.size inner).scopes.toList.drop t.size ++ t₃.scopes.toList.drop t₂.size := by
        rw [rest.fills.drop_eq inside (by rw [stored]; omega), stored]
      have heading : t₂.heading? t.size = some (name, some (n : Int), some loc) := by
        rw [below.heading?_eq (by omega), heading?_new added]
      obtain ⟨s, here, called, parent, place⟩ := exists_of_heading? heading
      rw [behind, drop_store here, Item.definitions, List.cons_append, ← count]
      refine .cons ⟨parent, called, place, ?_⟩ (List.rel_append lower later)
      exact congrArg some below.own_eq
  | @use t t₁ _ n _ _ _ _ _ _ found bound _ ih =>
      obtain ⟨f, same⟩ := bindAlias_modify bound
      have size : t₁.size = t.size := by rw [same, modify_size]
      rw [← size]
      simp only [Item.definitions]
      exact ih (by omega)
  | plain kind _ ih =>
      rw [Item.definitions_cons_of_plain kind]
      exact ih inside

/-- A build that succeeds adds its root, which keeps what the items do not declare, and behind it
the scopes of the definitions. -/
theorem build_defined {root : String} (built : t.build root items = (t', .ok ())) :
    ∃ s rest, t'.scopes.toList.drop t.size = s :: rest ∧ s.name = root ∧ s.parent = none ∧
      s.body = some (Item.own items) ∧
        List.Forall₂ Scope.Defined rest (Item.definitions t.size (t.size + 1) items) := by
  obtain ⟨t₁, c, t₂, own, added, collects, rfl⟩ := build_eq_ok_iff.mp built
  obtain ⟨-, rfl, rfl⟩ := addRoot_eq_ok added
  have size : (⟨t.scopes.push ⟨t.size, root, none, none, [], [], none⟩,
      t.roots ++ [(root, t.size)]⟩ : ScopeTree).size = t.size + 1 := Array.size_push ..
  have heading : t₂.heading? t.size = some (root, none, none) := by
    rw [collects.heading?_eq (by omega), heading?, ScopeTree.size, Array.getElem?_push_size]
    rfl
  obtain ⟨s, here, called, parent, -⟩ := exists_of_heading? heading
  have defined := collects.defined (by omega)
  rw [size] at defined
  exact ⟨_, _, drop_store here, called, parent, congrArg some collects.own_eq, defined⟩

end ScopeTree

end ByteTape
