import ByteTape.Proofs.Scope.Listing
import ByteTape.Proofs.Scope.Naming

/-! # Going through all scopes

The scopes are gone through root after root, each before its children. This comes to an end
and meets every scope once, since the numbers of children are larger than those of their
parents and no scope lies below two others that stand side by side.
-/

namespace ByteTape.ScopeTree

variable {t t' : ScopeTree} {n m k fuel : Nat} {name : String} {s : Scope}

/-- Scope `m` is scope `n` or lies below it. -/
def Encloses (t : ScopeTree) (n m : Nat) : Prop := t.address n <+: t.address m

/-- The scopes `pending` are gone through one after the other, each before its children, and
`seen` are all those that are met. -/
inductive Visits (t : ScopeTree) : (pending seen : List Nat) → Prop where
  | done : Visits t [] []
  | scope {n : Nat} {s : Scope} {rest below later : List Nat} (here : t.scopes[n]? = some s)
    (down : Visits t (s.children.map Prod.snd) below) (along : Visits t rest later) :
    Visits t (n :: rest) (n :: (below ++ later))

/-- The scopes stand side by side, each with a name of its own below one address. -/
structure Siblings (t : ScopeTree) (above : List String) (links : List (String × Nat)) : Prop where
  distinct : (links.map Prod.fst).Nodup
  inside : ∀ link ∈ links, link.2 < t.size
  address : ∀ link ∈ links, t.address link.2 = above ++ [link.1]

/-- The roots, or the children of one scope. -/
inductive Row (t : ScopeTree) : List (String × Nat) → Prop where
  | roots : Row t t.roots
  | children {n : Nat} {s : Scope} (here : t.scopes[n]? = some s) : Row t s.children

theorem Encloses.refl (t : ScopeTree) (n : Nat) : t.Encloses n n := List.prefix_rfl

theorem Encloses.trans (h : t.Encloses n m) (h' : t.Encloses m k) : t.Encloses n k :=
  List.IsPrefix.trans h h'

theorem preorder_succ (here : t.scopes[n]? = some s) :
    t.preorder (fuel + 1) n = n :: s.children.flatMap fun child => t.preorder fuel child.2 := by
  rw [preorder, here]

namespace Arena

theorem encloses_child (h : t.Arena) (named : t.Named m (some (n : Int)) name) : t.Encloses n m := by
  rw [Encloses, h.address_of_child named]
  exact List.prefix_append ..

theorem encloses_cases (h : t.Arena) (inside : n < t.size) (inside' : m < t.size)
    (encloses : t.Encloses n m) :
    n = m ∨ ∃ (k : Nat) (name : String), t.Named m (some (k : Int)) name ∧ t.Encloses n k := by
  obtain ⟨name, root⟩ | ⟨k, name, -, child⟩ := h.root_or_child inside'
  · rw [Encloses, address_of_root root, ← List.nil_append [name]] at encloses
    obtain same | none := List.prefix_concat_iff.mp encloses
    · exact .inl (h.named_injective (h.root_of_address inside same) root)
    · exact absurd (List.prefix_nil.mp none) (h.address_ne_nil inside)
  · rw [Encloses, h.address_of_child child] at encloses
    obtain same | above := List.prefix_concat_iff.mp encloses
    · exact .inl (h.address_injective inside inside' (same.trans (h.address_of_child child).symm))
    · exact .inr ⟨k, name, child, above⟩

theorem le_of_encloses (h : t.Arena) (inside : n < t.size) (inside' : m < t.size)
    (encloses : t.Encloses n m) : n ≤ m := by
  induction m using Nat.strongRecOn with
  | ind m ih =>
      obtain rfl | ⟨k, name, child, above⟩ := h.encloses_cases inside inside' encloses
      · exact Nat.le_refl _
      · have before := h.parent_lt child
        exact Nat.le_trans (ih k before (by omega) above) (Nat.le_of_lt before)

theorem exists_child_of_encloses (h : t.Arena) (inside : n < t.size) (inside' : m < t.size)
    (encloses : t.Encloses n m) :
    n = m ∨ ∃ c name, t.Named c (some (n : Int)) name ∧ t.Encloses c m := by
  induction m using Nat.strongRecOn with
  | ind m ih =>
      obtain rfl | ⟨k, name, child, above⟩ := h.encloses_cases inside inside' encloses
      · exact .inl rfl
      · have before := h.parent_lt child
        obtain rfl | ⟨c, other, first, below⟩ := ih k before (by omega) above
        · exact .inr ⟨m, name, child, .refl t m⟩
        · exact .inr ⟨c, other, first, below.trans (h.encloses_child child)⟩

theorem exists_root_encloses (h : t.Arena) (inside : n < t.size) :
    ∃ root ∈ t.roots, t.Encloses root.2 n := by
  obtain ⟨root, steps, r, address, known, -⟩ := h.exists_descends inside
  refine ⟨(root, r), mem_of_lookup known, ?_⟩
  rw [Encloses, address_of_root (h.root.mp known), address]
  exact ⟨steps, rfl⟩

theorem siblings_children (h : t.Arena) (here : t.scopes[n]? = some s) :
    t.Siblings (t.address n) s.children where
  distinct := (h.tidy.scope here).children
  inside _ there := (h.named_of_child here there).lt_size
  address _ there := h.address_of_child (h.named_of_child here there)

theorem siblings_roots (h : t.Arena) : t.Siblings [] t.roots where
  distinct := h.roots
  inside _ there := (h.named_of_root there).lt_size
  address _ there := address_of_root (h.named_of_root there)

theorem siblings (h : t.Arena) {links : List (String × Nat)} (row : t.Row links) :
    ∃ above, t.Siblings above links := by
  cases row with
  | roots => exact ⟨_, h.siblings_roots⟩
  | children here => exact ⟨_, h.siblings_children here⟩

/-- Scopes and what lies below them are gone through to the end. -/
theorem visits (h : t.Arena) {links : List (String × Nat)}
    (each : ∀ link ∈ links, link.2 < t.size ∧ t.size ≤ link.2 + fuel) :
    t.Visits (links.map Prod.snd) (links.flatMap fun link => t.preorder fuel link.2) := by
  -- down by the levels that are left, and on each level along the scopes
  induction fuel generalizing links with
  | zero =>
      cases links with
      | nil => exact .done
      | cons link links =>
          have := each link List.mem_cons_self
          omega
  | succ fuel ihFuel =>
      induction links with
      | nil => exact .done
      | cons link links ihLinks =>
          obtain ⟨first, later⟩ := List.forall_mem_cons.mp each
          obtain ⟨s, here⟩ := exists_scope first.1
          rw [List.map_cons, List.flatMap_cons, preorder_succ here, List.cons_append]
          refine .scope here (ihFuel fun child there => ?_) (ihLinks later)
          obtain ⟨after, inside⟩ := h.child_of_mem here there
          exact ⟨inside, by omega⟩

theorem mem_preorder_iff (h : t.Arena) (inside : n < t.size) (enough : t.size ≤ n + fuel) :
    m ∈ t.preorder fuel n ↔ m < t.size ∧ t.Encloses n m := by
  induction fuel generalizing n with
  | zero => omega
  | succ fuel ih =>
      obtain ⟨s, here⟩ := exists_scope inside
      have siblings := h.siblings_children here
      have below {child : String × Nat} (there : child ∈ s.children) :
          m ∈ t.preorder fuel child.2 ↔ m < t.size ∧ t.Encloses child.2 m :=
        ih (siblings.inside child there) (by have := (h.child_of_mem here there).1; omega)
      rw [preorder_succ here, List.mem_cons, List.mem_flatMap]
      constructor
      · rintro (rfl | ⟨child, there, member⟩)
        · exact ⟨inside, .refl t m⟩
        · obtain ⟨inside', encloses⟩ := (below there).mp member
          have first : t.Encloses n child.2 := by
            rw [Encloses, siblings.address child there]
            exact List.prefix_append ..
          exact ⟨inside', first.trans encloses⟩
      · rintro ⟨inside', encloses⟩
        obtain rfl | ⟨c, name, child, down⟩ := h.exists_child_of_encloses inside inside' encloses
        · exact .inl rfl
        · have there := mem_of_lookup ((h.child here).mpr child)
          exact .inr ⟨(name, c), there, (below there).mpr ⟨inside', down⟩⟩

theorem mem_order_iff (h : t.Arena) : m ∈ t.order ↔ m < t.size := by
  have below {root : String × Nat} (there : root ∈ t.roots) :
      m ∈ t.below root.2 ↔ m < t.size ∧ t.Encloses root.2 m :=
    h.mem_preorder_iff (h.root_of_mem there) (Nat.le_add_left ..)
  rw [order, List.mem_flatMap]
  constructor
  · rintro ⟨root, there, member⟩
    exact ((below there).mp member).1
  · intro inside
    obtain ⟨root, there, encloses⟩ := h.exists_root_encloses inside
    exact ⟨root, there, (below there).mpr ⟨inside, encloses⟩⟩

end Arena

/-- Any two scopes are in this relation if the second lies below the first, or if they lie
below two scopes that stand side by side, the first below the one that comes before. -/
structure Arranges (t : ScopeTree) (before : Nat → Nat → Prop) : Prop where
  down : ∀ {n m : Nat}, n < t.size → m < t.size → t.Encloses n m → n ≠ m → before n m
  along : ∀ {links : List (String × Nat)}, t.Row links → links.Pairwise fun a b =>
    ∀ x < t.size, ∀ y < t.size, t.Encloses a.2 x → t.Encloses b.2 y → before x y

namespace Arranges

variable {before : Nat → Nat → Prop}

theorem flatMap (arranges : t.Arranges before) (h : t.Arena) {links : List (String × Nat)}
    (row : t.Row links) (each : ∀ link ∈ links, link.2 < t.size ∧ t.size ≤ link.2 + fuel)
    (below : ∀ link ∈ links, (t.preorder fuel link.2).Pairwise before) :
    (links.flatMap fun link => t.preorder fuel link.2).Pairwise before := by
  refine List.pairwise_flatMap.mpr ⟨below, (arranges.along row).imp_of_mem ?_⟩
  intro a b left right apart x first y second
  obtain ⟨inside, enough⟩ := each a left
  obtain ⟨inside', enough'⟩ := each b right
  obtain ⟨here, encloses⟩ := (h.mem_preorder_iff inside enough).mp first
  obtain ⟨there, encloses'⟩ := (h.mem_preorder_iff inside' enough').mp second
  exact apart x here y there encloses encloses'

theorem preorder (arranges : t.Arranges before) (h : t.Arena) (inside : n < t.size)
    (enough : t.size ≤ n + fuel) : (t.preorder fuel n).Pairwise before := by
  induction fuel generalizing n with
  | zero => omega
  | succ fuel ih =>
      obtain ⟨s, here⟩ := exists_scope inside
      have each : ∀ child ∈ s.children, child.2 < t.size ∧ t.size ≤ child.2 + fuel := by
        intro child there
        obtain ⟨after, inside'⟩ := h.child_of_mem here there
        exact ⟨inside', by omega⟩
      rw [preorder_succ here]
      refine List.pairwise_cons.mpr ⟨fun m member => ?_, ?_⟩
      · have whole := (h.mem_preorder_iff inside enough).mp
          (preorder_succ here ▸ List.mem_cons_of_mem n member)
        refine arranges.down inside whole.1 whole.2 ?_
        rintro rfl
        obtain ⟨child, there, below⟩ := List.mem_flatMap.mp member
        obtain ⟨inside', enough'⟩ := each child there
        obtain ⟨-, encloses⟩ := (h.mem_preorder_iff inside' enough').mp below
        have := h.le_of_encloses inside' inside encloses
        have := (h.child_of_mem here there).1
        omega
      · exact arranges.flatMap h (.children here) each fun child there =>
          ih (each child there).1 (each child there).2

theorem order (arranges : t.Arranges before) (h : t.Arena) : t.order.Pairwise before := by
  have each : ∀ root ∈ t.roots, root.2 < t.size ∧ t.size ≤ root.2 + t.size := fun root there =>
    ⟨h.root_of_mem there, Nat.le_add_left ..⟩
  exact arranges.flatMap h .roots each fun root there => arranges.preorder h (each root there).1
    (each root there).2

end Arranges

namespace Arena

theorem eq_of_encloses (h : t.Arena) {links : List (String × Nat)} (row : t.Row links)
    {a b : String × Nat} (left : a ∈ links) (right : b ∈ links) (first : t.Encloses a.2 m)
    (second : t.Encloses b.2 m) : a.1 = b.1 ∧ a.2 = b.2 := by
  obtain ⟨above, siblings⟩ := h.siblings row
  rw [Encloses, siblings.address a left] at first
  rw [Encloses, siblings.address b right] at second
  have longer := List.prefix_of_prefix_length_le first second (by simp)
  have same := longer.eq_of_length (by simp)
  refine ⟨List.singleton_inj.mp (List.append_cancel_left same), ?_⟩
  apply h.address_injective (siblings.inside a left) (siblings.inside b right)
  rw [siblings.address a left, siblings.address b right, same]

theorem arranges_ne (h : t.Arena) : t.Arranges (· ≠ ·) where
  down _ _ _ different := different
  along {links} row := by
    obtain ⟨above, siblings⟩ := h.siblings row
    have names : links.Pairwise fun a b => a.1 ≠ b.1 := List.pairwise_map.mp siblings.distinct
    refine names.imp_of_mem ?_
    rintro a b left right different x - y - first second rfl
    exact different (h.eq_of_encloses row left right first second).1

theorem order_perm (h : t.Arena) : t.order.Perm (List.range t.size) := by
  rw [List.perm_ext_iff_of_nodup (h.arranges_ne.order h) List.nodup_range]
  intro m
  rw [h.mem_order_iff, List.mem_range]

theorem visits_order (h : t.Arena) : t.Visits (t.roots.map Prod.snd) t.order :=
  h.visits fun _ there => ⟨h.root_of_mem there, Nat.le_add_left ..⟩

end Arena

end ByteTape.ScopeTree
