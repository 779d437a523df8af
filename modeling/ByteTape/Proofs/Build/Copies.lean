import ByteTape.Proofs.Expansion.Cycles
import ByteTape.Proofs.Scope.Lockstep

/-! # Copies of a tree

A tree that holds a copy of another one, under other numbers and perhaps beside other
scopes, makes the same programs: the same operations with the same jump targets and the
same origins.
-/

namespace ByteTape

namespace ScopeTree

/-- What is scope `f n` in `t'` is a copy of scope `n` in `t`: it has the same body, whose
references lead to the copies of what they lead to in `t`. -/
structure Copies (f : Nat → Nat) (t t' : ScopeTree) : Prop extends Mirrors f t t' where
  injective : ∀ {n m : Nat}, n < t.size → m < t.size → f n = f m → n = m
  items : ∀ {n : Nat}, n < t.size → t'.itemsOf (f n) = t.itemsOf n
  shields : ∀ {n : Nat} {ref : Reference}, ref ∈ Item.refsOf (t.itemsOf n) → t.Shields t' ref.path

variable {f : Nat → Nat} {t t' : ScopeTree} {root : String} {items : List Item} {p : Program}

theorem Copies.keepsBodies (h : Copies f t t') : KeepsBodies f t t' :=
  ⟨h.injective, h.items, fun there found => h.find rfl (h.shields there) found⟩

theorem Copies.scopeCode (h : Copies f t t') {n : Nat} {code : Code} (inside : n < t.size)
    (done : Expansion.scopeCode t n = .ok code) : Expansion.scopeCode t' (f n) = .ok code := by
  rw [Expansion.scopeCode_eq] at done ⊢
  exact Expansion.bodyCode_kept h.keepsBodies inside (fun _ _ none => by cases none) done

/-- Trees that were built in lockstep are copies. -/
theorem Lockstep.copies {spare : Option Nat → String → Prop} (h : Lockstep f spare t t')
    (up : t.Upright) (avoids : t.Avoids spare)
    (clear : ∀ {n : Nat} {ref : Reference}, ref ∈ Item.refsOf (t.itemsOf n) → Clear spare ref.path) :
    Copies f t t' := by
  refine ⟨h.mirrors up avoids, fun _ _ same => h.injective same, fun {n} inside => ?_,
    fun there => h.shields (clear there)⟩
  obtain ⟨s, here⟩ := exists_scope inside
  obtain ⟨s', here', follows⟩ := h.scope here
  simp only [itemsOf, here, here', Option.map_some, Scope.items, follows.body]

theorem program_eq_ok_iff :
    t.program root = .ok p ↔ ∃ n code, t.rootIndex? root = some n ∧
      Expansion.scopeCode t n = .ok code ∧ Code.link code = .ok p := by
  unfold ScopeTree.program ScopeTree.root
  cases t.rootIndex? root with
  | none => simp
  | some n =>
      cases expanded : Expansion.scopeCode t n with
      | error e => simp [expanded]
      | ok code => cases linked : Code.link code <;> simp [expanded, linked]

/-- A copy makes the same programs. -/
theorem Copies.program (h : Copies f t t') (arena : t.Arena) (done : t.program root = .ok p) :
    t'.program root = .ok p := by
  obtain ⟨n, code, known, expanded, linked⟩ := program_eq_ok_iff.mp done
  have inside := (arena.root.mp known).lt_size
  exact program_eq_ok_iff.mpr ⟨f n, code, h.root known, h.scopeCode inside expanded, linked⟩

/-- A tree that has nothing but a root. -/
def rooted (root : String) : ScopeTree := ⟨#[⟨0, root, none, none, [], [], none⟩], [(root, 0)]⟩

theorem addRoot_empty (root : String) : ScopeTree.empty.addRoot root = .ok (rooted root, 0) := rfl

theorem arena_rooted (root : String) : (rooted root).Arena := Arena.empty.of_addRoot (addRoot_empty root)

theorem free_rooted (root : String) {name : String} : (rooted root).Free 0 name := by
  intro s here
  obtain rfl : Scope.mk 0 root none none [] [] none = s := Option.some.inj here
  simp [Scope.binds, Scope.child?, Scope.alias?]

theorem build_empty_eq_ok_iff :
    ScopeTree.empty.build root items = (t, .ok ()) ↔
      ∃ t₁ own, Collects (rooted root) 0 items t₁ own ∧ t = t₁.store 0 own := by
  simp [build_eq_ok_iff, addRoot_empty]

end ScopeTree

namespace Item

/-- The program of items that are built alone, under one root. -/
def program (root : String) (items : List Item) : Except BuildError Program :=
  match ScopeTree.empty.build root items with
  | (_, .error e) => .error (.scope e)
  | (t, .ok ()) => t.program root

theorem program_eq_ok_iff {root : String} {items : List Item} {p : Program} :
    program root items = .ok p ↔ ∃ t own, ScopeTree.Collects (.rooted root) 0 items t own ∧
      (t.store 0 own).program root = .ok p := by
  unfold program
  rcases built : ScopeTree.empty.build root items with ⟨t, e | ⟨⟩⟩
  · simp only [reduceCtorEq, false_iff]
    rintro ⟨t₁, own, done, -⟩
    have built' := ScopeTree.build_empty_eq_ok_iff.mpr ⟨t₁, own, done, rfl⟩
    rw [built] at built'
    cases built'
  · obtain ⟨t₁, own, done, rfl⟩ := ScopeTree.build_empty_eq_ok_iff.mp built
    constructor
    · exact fun made => ⟨t₁, own, done, made⟩
    · rintro ⟨t₂, own', done', made⟩
      have same := done.collect.symm.trans done'.collect
      cases same
      exact made

end Item

end ByteTape
