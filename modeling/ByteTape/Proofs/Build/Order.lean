import ByteTape.Proofs.Build.Copies

/-! # The order of definitions

A reference is looked up when the whole tree is there, so without imports it does not
matter where in its scope a macro is defined. Moving definitions around changes the
numbers of the scopes but not their addresses, and the tree that is built holds a copy
of the other one.
-/

namespace ByteTape

namespace Item

/-- The second list comes from the first by moving definitions to other places of the
scope they stand in, in this scope and in all scopes below it. -/
inductive Rearranged : List Item → List Item → Prop where
  | same (items : List Item) : Rearranged items items
  | move {name : String} {loc : Location} {body body' front back front' back' : List Item}
    (inner : Rearranged body body') (rest : Rearranged (front ++ back) (front' ++ back')) :
    Rearranged (front ++ .define name body loc :: back) (front' ++ .define name body' loc :: back')

namespace Rearranged

variable {items items' : List Item}

theorem symm (h : Rearranged items items') : Rearranged items' items := by
  induction h with
  | same items => exact .same items
  | move _ _ inner rest => exact .move inner rest

theorem own_eq (h : Rearranged items items') : own items' = own items := by
  induction h with
  | same => rfl
  | move _ _ _ rest =>
      simp only [own_append, own_cons_of_declares (show (define ..).declares from rfl)] at rest ⊢
      exact rest

theorem names_perm (h : Rearranged items items') : (names items').Perm (names items) := by
  induction h with
  | same => exact .refl _
  | move _ _ _ rest =>
      simp only [names_append, names_define] at rest ⊢
      exact List.perm_middle.trans ((rest.cons _).trans List.perm_middle.symm)

theorem importless (h : Rearranged items items') (plain : Importless items) : Importless items' := by
  induction h with
  | same => exact plain
  | move _ _ inner rest =>
      simp only [importless_append, Importless] at plain rest ⊢
      obtain ⟨front, body, back⟩ := plain
      obtain ⟨front', back'⟩ := rest ⟨front, back⟩
      exact ⟨front', inner body, back'⟩

theorem distinct (h : Rearranged items items') (once : Distinct items) : Distinct items' := by
  induction h with
  | same => exact once
  | @move name loc _ _ front back front' back' _ moved inner rest =>
      simp only [distinct_append, Distinct, names_define, List.disjoint_cons_right] at once rest ⊢
      obtain ⟨first, ⟨new, body, second⟩, new', apart⟩ := once
      obtain ⟨first', second', apart'⟩ := rest ⟨first, second, apart⟩
      have absent : name ∉ names (front' ++ back') := by
        rw [moved.names_perm.mem_iff, names_append, List.mem_append]
        exact fun there => there.elim new' new
      rw [names_append, List.mem_append, not_or] at absent
      exact ⟨first', ⟨absent.2, inner body, second'⟩, absent.1, apart'⟩

theorem entries_perm (h : Rearranged items items') (address : List String) :
    (entries address items').Perm (entries address items) := by
  induction h generalizing address with
  | same => exact .refl _
  | @move name loc body body' _ _ _ _ moved _ inner rest =>
      simp only [entries_append, entries] at rest ⊢
      have below : ((address ++ [name], own body') :: entries (address ++ [name]) body').Perm
          ((address ++ [name], own body) :: entries (address ++ [name]) body) := by
        rw [moved.own_eq]
        exact (inner _).cons _
      exact (List.perm_append_comm_assoc ..).trans
        ((below.append (rest address)).trans (List.perm_append_comm_assoc ..))

end Rearranged

end Item

namespace ScopeTree

variable {t t' : ScopeTree} {n : Nat} {items own : List Item} {root : String}

/-- Nothing is imported. -/
abbrev Unaliased (t : ScopeTree) : Prop := t.Every fun s => s.aliases = []

theorem Collects.unaliased (h : Collects t n items t' own) (plain : Item.Importless items)
    (none : t.Unaliased) : t'.Unaliased := by
  induction h with
  | nil => exact none
  | define added _ _ ihBelow ihRest =>
      simp only [Item.Importless] at plain
      have below := ihBelow plain.1 (none.of_addMacro rfl (fun _ old => old) added)
      exact ihRest plain.2 (below.modify _ fun _ old => old)
  | use => simp only [Item.Importless] at plain
  | plain kind _ ih => exact ih ((Item.importless_cons_of_plain kind).mp plain) none

/-- Without imports a tree is copied if its addresses are there, with the same bodies. -/
theorem exists_copies (arena : t.Arena) (arena' : t'.Arena) (none : t.Unaliased)
    (entries : ∀ n < t.size, ∃ k < t'.size, t'.entry k = t.entry n)
    (roots : ∀ name, t.rootIndex? name = .none → t'.rootIndex? name = .none) :
    ∃ f, Copies f t t' := by
  choose! f inside same using entries
  have address (n : Nat) (old : n < t.size) : t'.address (f n) = t.address n :=
    congrArg Prod.fst (same n old)
  have asRoot {n : Nat} {name : String} (named : t.Named n .none name) : t'.Named (f n) .none name := by
    refine arena'.root_of_address (inside n named.lt_size) ?_
    rw [address n named.lt_size, Arena.address_of_root named]
  have asChild {n k : Nat} {name : String} (named : t.Named n (some (k : Int)) name) :
      t'.Named (f n) (some (f k : Int)) name := by
    have before := arena.parent_lt named
    have size := named.lt_size
    refine arena'.child_of_address (inside n size) (inside k (by omega)) ?_
    rw [address n size, address k (by omega), arena.address_of_child named]
  refine ⟨f, arena.mirrors arena' asRoot asChild ?_, ?_, ?_, ?_⟩
  · rintro n m word ⟨s, a, here, bound, -⟩
    simp [Scope.alias?, none.scope here] at bound
  · intro n m old old' equal
    refine arena.address_injective old old' ?_
    rw [← address n old, ← address m old', equal]
  · exact fun old => congrArg Prod.snd (same _ old)
  · exact fun _ _ name _ unknown => roots name unknown

/-- What is in a tree when items have been built in it alone. -/
theorem Collects.since_zero (h : Collects (rooted root) 0 items t own) :
    (t.store 0 own).since 0 = ([root], Item.own items) :: Item.entries [root] items := by
  have arena := h.keepsArena (arena_rooted root)
  have named : (rooted root).Named 0 none root := ⟨_, rfl, rfl, rfl⟩
  have size : 1 ≤ t.size := h.size_le
  have first : (t.store 0 own).entry 0 = ([root], Item.own items) := by
    have named' := (h.grown (arena_rooted root).upright).grows.named named
    rw [arena.entry_store (by omega), if_pos rfl, Arena.address_of_root named', h.own_eq]
  have others : (t.store 0 own).since 1 = Item.entries [root] items := by
    have since := h.since_eq (arena_rooted root) Nat.one_pos
    rw [Arena.address_of_root named] at since
    rw [← since, ScopeTree.since, ScopeTree.since, modify_size]
    refine List.map_congr_left fun k there => ?_
    obtain ⟨low, high⟩ := List.mem_range'_1.mp there
    have positive : 1 ≤ k := low
    rw [arena.entry_store (by omega), if_neg (by omega), entry]
  rw [since_split (k := 0) (m := 1) (by omega) (by rwa [modify_size]), others]
  simp [first]

theorem mem_since_zero {e : List String × List Item} :
    e ∈ t.since 0 ↔ ∃ n < t.size, t.entry n = e := by
  simp [since, List.mem_map, List.mem_range'_1]

end ScopeTree

namespace Item

variable {root : String} {items items' : List Item} {p : Program}

/-- What is built from the second list holds a copy of what is built from the first. -/
theorem Rearranged.copies (moved : Rearranged items items') (plain : Importless items)
    {t t' : ScopeTree} {own own' : List Item} (first : ScopeTree.Collects (.rooted root) 0 items t own)
    (second : ScopeTree.Collects (.rooted root) 0 items' t' own') :
    ∃ f, ScopeTree.Copies f (t.store 0 own) (t'.store 0 own') := by
  have start := ScopeTree.arena_rooted root
  have none : t.Unaliased :=
    first.unaliased plain (.of_addRoot .empty rfl (ScopeTree.addRoot_empty root))
  refine ScopeTree.exists_copies ((first.keepsArena start).stored 0 own)
    ((second.keepsArena start).stored 0 own') (none.modify 0 fun _ old => old) ?_ ?_
  · intro n old
    have there := ScopeTree.mem_since_zero.mpr ⟨n, old, rfl⟩
    rw [first.since_zero, ← moved.own_eq] at there
    rw [← ScopeTree.mem_since_zero, second.since_zero]
    exact ((moved.entries_perm [root]).cons _).mem_iff.mpr there
  · intro name unknown
    have roots : t.rootIndex? name = _ := (first.grown start.upright).roots (by simp)
    have roots' : t'.rootIndex? name = _ := (second.grown start.upright).roots (by simp)
    exact roots'.trans (roots.symm.trans unknown)

theorem Rearranged.program (moved : Rearranged items items') (plain : Importless items)
    (done : Item.program root items = .ok p) : Item.program root items' = .ok p := by
  obtain ⟨t, own, first, made⟩ := program_eq_ok_iff.mp done
  have start := ScopeTree.arena_rooted root
  -- no name is defined twice in the first list, so none is in the second, and it can be built
  obtain ⟨once, -⟩ := first.distinct start.upright
  obtain ⟨t', second⟩ := ScopeTree.exists_collects (t := .rooted root) (n := 0) Nat.one_pos
    (moved.importless plain) (moved.distinct once) fun _ _ => ScopeTree.free_rooted root
  obtain ⟨f, copies⟩ := moved.copies plain first second
  have arena := (first.keepsArena start).stored 0 own
  exact program_eq_ok_iff.mpr ⟨t', _, second, copies.program arena made⟩

/-- Without imports it does not matter where in its scope a macro is defined: when
definitions are moved a program stays the same, and what was no program is none. -/
theorem program_rearranged (root : String) (moved : Rearranged items items')
    (plain : Importless items) :
    (∃ p, program root items = .ok p ∧ program root items' = .ok p) ∨
      ∃ e e', program root items = .error e ∧ program root items' = .error e' := by
  cases first : program root items with
  | ok p => exact .inl ⟨p, rfl, moved.program plain first⟩
  | error e =>
      cases second : program root items' with
      | error e' => exact .inr ⟨e, e', rfl, rfl⟩
      | ok p =>
          have back := moved.symm.program (moved.importless plain) second
          rw [first] at back
          cases back

/-- The items of `#a-:a{#b:b{+}}`. -/
def usedFirst : List Item :=
  [.ref ⟨0, ["a"]⟩ ⟨"m", 1, 1⟩, .op .decrement ⟨"m", 1, 3⟩,
    .define "a" [.ref ⟨0, ["b"]⟩ ⟨"m", 1, 7⟩, .define "b" [.op .increment ⟨"m", 1, 12⟩] ⟨"m", 1, 9⟩]
      ⟨"m", 1, 4⟩]

/-- The same items with both definitions in front. -/
def definedFirst : List Item :=
  [.define "a" [.define "b" [.op .increment ⟨"m", 1, 12⟩] ⟨"m", 1, 9⟩, .ref ⟨0, ["b"]⟩ ⟨"m", 1, 7⟩]
      ⟨"m", 1, 4⟩,
    .ref ⟨0, ["a"]⟩ ⟨"m", 1, 1⟩, .op .decrement ⟨"m", 1, 3⟩]

theorem program_definedFirst :
    Rearranged usedFirst definedFirst ∧ Importless usedFirst ∧
      ∃ p, program "main" usedFirst = .ok p ∧ program "main" definedFirst = .ok p ∧
        p.render true = "+-" := by
  have inner : Rearranged [.ref ⟨0, ["b"]⟩ ⟨"m", 1, 7⟩, .define "b" [.op .increment ⟨"m", 1, 12⟩] ⟨"m", 1, 9⟩]
      [.define "b" [.op .increment ⟨"m", 1, 12⟩] ⟨"m", 1, 9⟩, .ref ⟨0, ["b"]⟩ ⟨"m", 1, 7⟩] :=
    @Rearranged.move _ _ _ _ [_] [] [] [_] (.same _) (.same _)
  have moved : Rearranged usedFirst definedFirst :=
    @Rearranged.move _ _ _ _ [_, _] [] [] [_, _] inner (.same _)
  have plain : Importless usedFirst := by simp [usedFirst, Importless]
  have made : (program "main" usedFirst).map (·.render true) = .ok "+-" := by
    decide +kernel
  obtain ⟨p, first, second⟩ | ⟨e, -, first, -⟩ := program_rearranged "main" moved plain
  · rw [first] at made
    exact ⟨moved, plain, p, first, second, Except.ok.inj made⟩
  · rw [first] at made
    cases made

end Item

end ByteTape
