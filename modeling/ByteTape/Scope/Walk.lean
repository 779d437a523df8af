import ByteTape.Scope.Basic

/-! # Walking paths

From a scope a path leads up, then perhaps to a root by its name, then down by
names. An imported name is met before a child, and only at the end of a path.
The hops that were made are kept, also those of a walk that fails.
-/

namespace ByteTape

inductive Hop.Kind where
  /-- To the parent. -/
  | up
  /-- To a root by its name. -/
  | root
  /-- To the macro that an imported name stands for. -/
  | imported
  /-- To a child. -/
  | child
deriving DecidableEq

def Hop.Kind.name : Hop.Kind → String
  | up => "up"
  | root => "root"
  | imported => "alias"
  | child => "child"

/-- One hop: how, by which name, to which scope. -/
structure Hop where
  kind : Hop.Kind
  name : String
  index : Nat
deriving DecidableEq

/-- The hops of a walk and what it came to. -/
structure Walk where
  hops : List Hop
  outcome : Except ScopeError Nat

namespace Walk

def fail (e : ScopeError) : Walk := ⟨[], .error e⟩

/-- A walk after one hop. -/
def behind (hop : Hop) (w : Walk) : Walk := { w with hops := hop :: w.hops }

end Walk

namespace ScopeTree

/-- Go down by names from scope `n`, which must end at a macro. -/
def descend (t : ScopeTree) (ref : Reference) (n : Nat) : List String → Walk
  | [] =>
    match t.scopes[n]? with
    | none => .fail .noScope
    | some s =>
      if s.isMacro then ⟨[], .ok n⟩ else .fail (.notMacro ref.render s.name ref.loc)
  | name :: steps =>
    match t.scopes[n]? with
    | none => .fail .noScope
    | some s =>
      match s.alias? name with
      | some bound =>
        if !steps.isEmpty then .fail (.throughAlias name ref.render ref.loc)
        else
          match t.aliasTarget bound with
          | .error e => .fail e
          | .ok target => (t.descend ref target steps).behind ⟨.imported, name, target⟩
      | none =>
        match s.child? name with
        | some target => (t.descend ref target steps).behind ⟨.child, name, target⟩
        | none => .fail (.unknownMacro name (t.fullName n) ref.render ref.loc)

/-- Go down from a root if the first name is one, else from scope `n`. -/
def anchor (t : ScopeTree) (ref : Reference) (n : Nat) : List String → Walk
  | [] => t.descend ref n []
  | name :: steps =>
    match t.rootIndex? name with
    | some root => (t.descend ref root steps).behind ⟨.root, name, root⟩
    | none => t.descend ref n (name :: steps)

/-- Go up `k` scopes from scope `n` and then down. -/
def climb (t : ScopeTree) (ref : Reference) (n : Nat) : Nat → Walk
  | 0 => t.descend ref n ref.path.steps
  | k + 1 =>
    match t.scopes[n]? with
    | none => .fail .noScope
    | some s =>
      match s.parent with
      | none => .fail (.aboveRoot ref.render s.name ref.loc)
      | some parent =>
        match t.position? parent with
        | none => .fail .noScope
        | some up =>
          match t.scopes[up]? with
          | none => .fail .noScope
          | some above => (t.climb ref up k).behind ⟨.up, above.name, up⟩

/-- Walk a reference from scope `n`. A root can be named only when the path does
not go up. -/
def walk (t : ScopeTree) (n : Nat) (ref : Reference) : Walk :=
  if t.size ≤ n then .fail .noScope
  else if ref.path.up = 0 then t.anchor ref n ref.path.steps
  else t.climb ref n ref.path.up

/-- The macro a reference names, seen from scope `n`. -/
def find (t : ScopeTree) (n : Nat) (ref : Reference) : Except ScopeError Nat :=
  (t.walk n ref).outcome

theorem descend_lt {t : ScopeTree} {ref : Reference} {n m : Nat} {steps : List String}
    (h : (t.descend ref n steps).outcome = .ok m) : m < t.size := by
  induction steps generalizing n with
  | nil =>
    unfold descend at h
    split at h
    · cases h
    · next hs =>
      split at h
      · cases h; exact (Array.getElem?_eq_some_iff.1 hs).1
      · cases h
  | cons name steps ih =>
    unfold descend at h
    split at h
    · cases h
    · split at h
      · split at h
        · cases h
        · split at h
          · cases h
          · exact ih h
      · split at h
        · exact ih h
        · cases h

theorem anchor_lt {t : ScopeTree} {ref : Reference} {n m : Nat} {steps : List String}
    (h : (t.anchor ref n steps).outcome = .ok m) : m < t.size := by
  unfold anchor at h
  split at h
  · exact descend_lt h
  · split at h <;> exact descend_lt h

theorem climb_lt {t : ScopeTree} {ref : Reference} {n k m : Nat}
    (h : (t.climb ref n k).outcome = .ok m) : m < t.size := by
  induction k generalizing n with
  | zero => exact descend_lt h
  | succ k ih =>
    unfold climb at h
    split at h
    · cases h
    · split at h
      · cases h
      · split at h
        · cases h
        · split at h
          · cases h
          · exact ih h

/-- What is found is a scope of the tree. -/
theorem find_lt {t : ScopeTree} {ref : Reference} {n m : Nat} (h : t.find n ref = .ok m) :
    m < t.size := by
  unfold find walk at h
  split at h
  · cases h
  · split at h
    · exact anchor_lt h
    · exact climb_lt h

end ScopeTree

end ByteTape
