import ByteTape.Proofs.Scope.Walks

/-! # Trees that mirror each other

Two trees may have the same scopes under different numbers, and one of them may have
more. If each hop in the first has its counterpart in the second, a path that leads to
a macro in the first leads to its counterpart in the second. The one exception is a path
that begins at a root which only the second tree has.
-/

namespace ByteTape.ScopeTree

/-- Scope `m` is the parent of scope `n`. -/
def Above (t : ScopeTree) (n m : Nat) : Prop :=
  ∃ s i, t.scopes[n]? = some s ∧ s.parent = some i ∧ t.position? i = some m

/-- An import in scope `n` binds the name to macro `m`. -/
def Imports (t : ScopeTree) (n : Nat) (name : String) (m : Nat) : Prop :=
  ∃ s a, t.scopes[n]? = some s ∧ s.alias? name = some a ∧ t.aliasTarget a = .ok m

/-- The name stands for child `m` in scope `n`. -/
def Nests (t : ScopeTree) (n : Nat) (name : String) (m : Nat) : Prop :=
  ∃ s, t.scopes[n]? = some s ∧ s.alias? name = none ∧ s.child? name = some m

/-- What is scope `n` in `t` is scope `f n` in `t'`. -/
structure Mirrors (f : Nat → Nat) (t t' : ScopeTree) : Prop where
  scope : ∀ {n : Nat} {s : Scope}, t.scopes[n]? = some s →
    ∃ s', t'.scopes[f n]? = some s' ∧ s'.isMacro = s.isMacro
  above : ∀ {n m : Nat}, t.Above n m → t'.Above (f n) (f m)
  imports : ∀ {n m : Nat} {name : String}, t.Imports n name m → t'.Imports (f n) name (f m)
  nests : ∀ {n m : Nat} {name : String}, t.Nests n name m → t'.Nests (f n) name (f m)
  root : ∀ {n : Nat} {name : String}, t.rootIndex? name = some n → t'.rootIndex? name = some (f n)

/-- The path does not begin at a root that only `t'` has. -/
def Shields (t t' : ScopeTree) (path : Path) : Prop :=
  path.up = 0 → ∀ name ∈ path.steps.head?, t.rootIndex? name = none → t'.rootIndex? name = none

theorem position?_lt {t : ScopeTree} {i : Int} {n : Nat} (h : t.position? i = some n) : n < t.size := by
  unfold position? at h
  split at h
  · split at h
    · cases h
      omega
    · cases h
  · split at h
    · cases h
      omega
    · cases h

namespace Mirrors

variable {f : Nat → Nat} {t t' : ScopeTree} {ref ref' : Reference} {n m : Nat}

theorem lt_size (h : Mirrors f t t') (inside : n < t.size) : f n < t'.size := by
  obtain ⟨s', here, -⟩ := h.scope (Array.getElem?_eq_getElem inside)
  exact (Array.getElem?_eq_some_iff.mp here).1

theorem descend (h : Mirrors f t t') {steps : List String}
    (found : (t.descend ref n steps).outcome = .ok m) :
    (t'.descend ref' (f n) steps).outcome = .ok (f m) := by
  induction steps generalizing n with
  | nil =>
      obtain ⟨rfl, s, here, kind⟩ := descend_nil_ok_iff.mp found
      obtain ⟨s', here', same⟩ := h.scope here
      exact descend_nil_ok_iff.mpr ⟨rfl, s', here', same.trans kind⟩
  | cons name steps ih =>
      obtain ⟨s, here, ⟨a, k, bound, last, goal, rest⟩ | ⟨free, k, named, rest⟩⟩ :=
        descend_cons_ok_iff.mp found
      · obtain ⟨s', a', here', bound', goal'⟩ := h.imports ⟨s, a, here, bound, goal⟩
        exact descend_cons_ok_iff.mpr ⟨s', here', .inl ⟨a', f k, bound', last, goal', ih rest⟩⟩
      · obtain ⟨s', here', free', named'⟩ := h.nests ⟨s, here, free, named⟩
        exact descend_cons_ok_iff.mpr ⟨s', here', .inr ⟨free', f k, named', ih rest⟩⟩

theorem climb (h : Mirrors f t t') (same : ref'.path = ref.path) {k : Nat}
    (found : (t.climb ref n k).outcome = .ok m) : (t'.climb ref' (f n) k).outcome = .ok (f m) := by
  induction k generalizing n with
  | zero =>
      rw [ScopeTree.climb, same]
      exact h.descend found
  | succ k ih =>
      obtain ⟨s, i, up, here, parent, place, -, rest⟩ := climb_succ_ok_iff.mp found
      obtain ⟨s', i', here', parent', place'⟩ := h.above ⟨s, i, here, parent, place⟩
      exact climb_succ_ok_iff.mpr
        ⟨s', i', f up, here', parent', place', position?_lt place', ih rest⟩

/-- What a path leads to in the one tree, it leads to in the other, whether it is that of a
reference or that of an import. -/
theorem find (h : Mirrors f t t') (same : ref'.path = ref.path) (shielded : t.Shields t' ref.path)
    (found : t.find n ref = .ok m) : t'.find (f n) ref' = .ok (f m) := by
  obtain ⟨inside, way⟩ := find_eq_ok_iff.mp found
  refine find_eq_ok_iff.mpr ⟨h.lt_size inside, ?_⟩
  rw [same]
  obtain ⟨up, rest⟩ | ⟨level, name, steps, r, path, named, rest⟩ | ⟨level, unnamed, rest⟩ := way
  · exact .inl ⟨up, h.climb same rest⟩
  · exact .inr (.inl ⟨level, name, steps, f r, path, h.root named, h.descend rest⟩)
  · exact .inr (.inr ⟨level, fun name first => shielded level name first (unnamed name first),
      h.descend rest⟩)

end Mirrors

end ByteTape.ScopeTree
