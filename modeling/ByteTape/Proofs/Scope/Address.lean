import ByteTape.Proofs.Scope.Arena

/-! # Addresses

The names on the way from the root to a scope are its address. In a tree whose numbers
fit together no two scopes have the same address, and a scope keeps its address while
the tree grows. So scopes can be told apart without their numbers, which depend on the
order in which the scopes were made.
-/

namespace ByteTape.ScopeTree

variable {t t' : ScopeTree} {n m k : Nat} {name : String}

/-- The names from the root to scope `n`. -/
def address (t : ScopeTree) (n : Nat) : List String := (t.ancestry t.size n).reverse

theorem Named.unique {p q : Option Int} {other : String} (first : t.Named n p name)
    (second : t.Named n q other) : p = q ∧ name = other := by
  obtain ⟨s, here, rfl, rfl⟩ := first
  obtain ⟨s', here', rfl, rfl⟩ := second
  obtain rfl := Option.some.inj (here.symm.trans here')
  exact ⟨rfl, rfl⟩

theorem Grows.named {p : Option Int} (grows : t.Grows t') (h : t.Named n p name) :
    t'.Named n p name := by
  obtain ⟨s, here, rfl, rfl⟩ := h
  obtain ⟨s', here', keeps⟩ := grows.scope here
  exact ⟨s', here', keeps.parent, keeps.name⟩

theorem Reached.fits (h : t.Reached) : t.Arena := by
  induction h with
  | empty => exact .empty
  | grow _ fits ih => exact ih.of_grow fits

theorem ancestry_of_root (h : t.Named n none name) (fuel : Nat) : t.ancestry (fuel + 1) n = [name] := by
  obtain ⟨s, here, parent, rfl⟩ := h
  simp [ancestry, here, parent]

theorem ancestry_of_child (h : t.Named n (some (k : Int)) name) (inside : k < t.size) (fuel : Nat) :
    t.ancestry (fuel + 1) n = name :: t.ancestry fuel k := by
  obtain ⟨s, here, parent, rfl⟩ := h
  simp [ancestry, here, parent, position?_natCast inside]

namespace Arena

theorem root_or_child (h : t.Arena) (inside : n < t.size) :
    (∃ name, t.Named n none name) ∨ ∃ k name, k < n ∧ t.Named n (some (k : Int)) name := by
  obtain ⟨s, here⟩ := exists_scope inside
  cases parent : s.parent with
  | none => exact .inl ⟨s.name, s, here, parent, rfl⟩
  | some i =>
      obtain ⟨positive, before⟩ := h.parent here parent
      obtain ⟨k, rfl⟩ := Int.eq_ofNat_of_zero_le positive
      exact .inr ⟨k, s.name, by omega, s, here, parent, rfl⟩

theorem parent_lt (h : t.Arena) (named : t.Named n (some (k : Int)) name) : k < n := by
  obtain ⟨s, here, parent, -⟩ := named
  have before := (h.parent here parent).2
  omega

theorem named_injective (h : t.Arena) {p : Option Int} (first : t.Named n p name)
    (second : t.Named m p name) : n = m := by
  cases p with
  | none => exact Option.some.inj ((h.root.mpr first).symm.trans (h.root.mpr second))
  | some i =>
      have ⟨s, here, parent, _⟩ := first
      obtain ⟨k, rfl⟩ := Int.eq_ofNat_of_zero_le (h.parent here parent).1
      have before := h.parent_lt first
      have inside := first.lt_size
      obtain ⟨holder, there⟩ := exists_scope (show k < t.size by omega)
      have left := (h.child there).mpr first
      have right := (h.child there).mpr second
      exact Option.some.inj (left.symm.trans right)

theorem above_iff (h : t.Arena) : t.Above n k ↔ ∃ name, t.Named n (some (k : Int)) name := by
  constructor
  · rintro ⟨s, i, here, parent, place⟩
    obtain ⟨j, rfl⟩ := Int.eq_ofNat_of_zero_le (h.parent here parent).1
    obtain rfl := position?_eq_self place
    exact ⟨s.name, s, here, parent, rfl⟩
  · rintro ⟨name, named⟩
    have before := h.parent_lt named
    have inside := named.lt_size
    obtain ⟨s, here, parent, -⟩ := named
    exact ⟨s, k, here, parent, position?_natCast (by omega)⟩

theorem nests_iff (h : t.Arena) : t.Nests n name m ↔ t.Named m (some (n : Int)) name := by
  constructor
  · rintro ⟨s, here, -, named⟩
    exact (h.child here).mp named
  · intro named
    have before := h.parent_lt named
    have inside := named.lt_size
    obtain ⟨s, here⟩ := exists_scope (show n < t.size by omega)
    have child := (h.child here).mpr named
    refine ⟨s, here, ((h.tidy.scope here).apart name).resolve_left ?_, child⟩
    simp [child]

/-- Two trees mirror each other if each macro has the name and the parent that it should, and
the imports lead where they should. -/
theorem mirrors {f : Nat → Nat} (h : t.Arena) (h' : t'.Arena)
    (root : ∀ {n : Nat} {word : String}, t.Named n none word → t'.Named (f n) none word)
    (child : ∀ {n k : Nat} {word : String}, t.Named n (some (k : Int)) word →
      t'.Named (f n) (some (f k : Int)) word)
    (imports : ∀ {n m : Nat} {word : String}, t.Imports n word m → t'.Imports (f n) word (f m)) :
    Mirrors f t t' where
  scope {n s} here := by
    have kept {p p' : Option Int} {word : String} (named : t.Named n p word)
        (named' : t'.Named (f n) p' word) (kind : p'.isSome = p.isSome) :
        ∃ s', t'.scopes[f n]? = some s' ∧ s'.isMacro = s.isMacro := by
      obtain ⟨_, there, parent, -⟩ := named
      obtain ⟨s', here', parent', -⟩ := named'
      obtain rfl := Option.some.inj (here.symm.trans there)
      exact ⟨s', here', by rw [Scope.isMacro, Scope.isMacro, parent, parent', kind]⟩
    obtain ⟨_, named⟩ | ⟨_, _, -, named⟩ := h.root_or_child (lt_size here)
    · exact kept named (root named) rfl
    · exact kept named (child named) rfl
  above link := by
    obtain ⟨word, named⟩ := h.above_iff.mp link
    exact h'.above_iff.mpr ⟨word, child named⟩
  imports := imports
  nests link := h'.nests_iff.mpr (child (h.nests_iff.mp link))
  root known := h'.root.mpr (root (h.root.mp known))

/-- There are never more names on the way than scopes before it. -/
theorem ancestry_eq (h : t.Arena) (inside : n < t.size) {fuel fuel' : Nat} (enough : n < fuel)
    (enough' : n < fuel') : t.ancestry fuel n = t.ancestry fuel' n := by
  induction n using Nat.strongRecOn generalizing fuel fuel' with
  | ind n ih =>
      obtain ⟨fuel, rfl⟩ := Nat.exists_eq_add_of_lt enough
      obtain ⟨fuel', rfl⟩ := Nat.exists_eq_add_of_lt enough'
      obtain ⟨name, root⟩ | ⟨k, name, before, child⟩ := h.root_or_child inside
      · rw [ancestry_of_root root, ancestry_of_root root]
      · have above : k < t.size := by omega
        rw [ancestry_of_child child above, ancestry_of_child child above]
        exact congrArg (name :: ·) (ih k before above (by omega) (by omega))

theorem address_of_root (h : t.Named n none name) : t.address n = [name] := by
  obtain ⟨fuel, size⟩ := Nat.exists_eq_add_of_lt h.lt_size
  rw [address, size, ancestry_of_root h, List.reverse_singleton]

theorem address_of_child (h : t.Arena) (named : t.Named n (some (k : Int)) name) :
    t.address n = t.address k ++ [name] := by
  have before := h.parent_lt named
  have inside := named.lt_size
  obtain ⟨fuel, size⟩ := Nat.exists_eq_add_of_lt inside
  have enough := h.ancestry_eq (show k < t.size by omega) (show k < n + fuel by omega)
    (show k < t.size by omega)
  rw [address, address, ← enough, size, ancestry_of_child named (by omega), List.reverse_cons]

theorem address_ne_nil (h : t.Arena) (inside : n < t.size) : t.address n ≠ [] := by
  obtain ⟨name, root⟩ | ⟨k, name, -, child⟩ := h.root_or_child inside
  · simp [address_of_root root]
  · simp [h.address_of_child child]

theorem root_of_address (h : t.Arena) (inside : n < t.size) (same : t.address n = [name]) :
    t.Named n none name := by
  obtain ⟨other, root⟩ | ⟨k, other, before, child⟩ := h.root_or_child inside
  · rw [address_of_root root] at same
    exact List.singleton_inj.mp same ▸ root
  · rw [h.address_of_child child] at same
    have none : t.address k = [] := (List.append_inj' (same.trans (List.nil_append _).symm) rfl).1
    exact absurd none (h.address_ne_nil (by omega))

theorem address_injective (h : t.Arena) (inside : n < t.size) (inside' : m < t.size)
    (same : t.address n = t.address m) : n = m := by
  induction n using Nat.strongRecOn generalizing m with
  | ind n ih =>
      obtain ⟨name, root⟩ | ⟨k, name, before, child⟩ := h.root_or_child inside
      · rw [address_of_root root] at same
        exact h.named_injective root (h.root_of_address inside' same.symm)
      · obtain ⟨other, root⟩ | ⟨k', other, before', child'⟩ := h.root_or_child inside'
        · rw [address_of_root root] at same
          exact h.named_injective (h.root_of_address inside same) root
        · rw [h.address_of_child child, h.address_of_child child'] at same
          obtain ⟨above, last⟩ := List.append_inj' same rfl
          obtain rfl := ih k before (by omega) (show k' < t.size by omega) above
          exact h.named_injective child (List.singleton_inj.mp last ▸ child')

theorem child_of_address (h : t.Arena) (inside : n < t.size) (above : k < t.size)
    (same : t.address n = t.address k ++ [name]) : t.Named n (some (k : Int)) name := by
  obtain ⟨other, root⟩ | ⟨k', other, before, child⟩ := h.root_or_child inside
  · rw [address_of_root root] at same
    have none : [] = t.address k := (List.append_inj' ((List.nil_append _).trans same) rfl).1
    exact absurd none.symm (h.address_ne_nil above)
  · rw [h.address_of_child child] at same
    obtain ⟨front, last⟩ := List.append_inj' same rfl
    obtain rfl := h.address_injective (show k' < t.size by omega) above front
    exact List.singleton_inj.mp last ▸ child

theorem address_kept (h : t.Arena) (h' : t'.Arena) (inside : n < t.size)
    (kept : ∀ {m : Nat} {p : Option Int} {word : String}, t.Named m p word → t'.Named m p word) :
    t'.address n = t.address n := by
  induction n using Nat.strongRecOn with
  | ind n ih =>
      obtain ⟨name, root⟩ | ⟨k, name, before, child⟩ := h.root_or_child inside
      · rw [address_of_root root, address_of_root (kept root)]
      · rw [h.address_of_child child, h'.address_of_child (kept child), ih k before (by omega)]

theorem address_grown (h : t.Arena) (h' : t'.Arena) (grows : t.Grows t') (inside : n < t.size) :
    t'.address n = t.address n :=
  h.address_kept h' inside grows.named

theorem address_stored (h : t.Arena) (n : Nat) (own : List Item) (inside : m < t.size) :
    (t.modify n fun s => { s with body := some own }).address m = t.address m := by
  refine h.address_kept (h.stored n own) inside fun named => ?_
  rwa [named_modify_iff (by intro; rfl) (by intro; rfl)]

end Arena

end ByteTape.ScopeTree
