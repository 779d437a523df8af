import Mathlib.Data.List.Nodup
import ByteTape.Proofs.Scope.Growth

/-! # The numbers in a tree

Scopes refer to each other by number, and each such number is recorded twice: a macro
knows its parent and the parent its child, a root has no parent and the tree knows it
by name, an import knows the scope that holds its macro. Whatever is done to a tree,
also what fails on the way, the two records agree.
-/

namespace ByteTape

/-- A name has one meaning in the scope, and an import is bound to the name it has. -/
structure Scope.Tidy (s : Scope) : Prop where
  children : (s.children.map Prod.fst).Nodup
  aliases : (s.aliases.map Prod.fst).Nodup
  apart : ∀ name, s.child? name = none ∨ s.alias? name = none
  keyed : ∀ {name : String} {a : Alias}, s.alias? name = some a → a.name = name

theorem not_mem_keys_of_lookup {β : Type} {name : String} {list : List (String × β)}
    (h : list.lookup name = none) : name ∉ list.map Prod.fst := by
  intro there
  obtain ⟨pair, member, rfl⟩ := List.mem_map.mp there
  simpa using List.lookup_eq_none_iff.mp h pair member

theorem nodup_keys_append {β : Type} {name : String} {value : β} {list : List (String × β)}
    (distinct : (list.map Prod.fst).Nodup) (fresh : list.lookup name = none) :
    ((list ++ [(name, value)]).map Prod.fst).Nodup := by
  rw [List.map_append, List.map_singleton, ← List.concat_eq_append]
  exact List.Nodup.concat (not_mem_keys_of_lookup fresh) distinct

theorem lookup_append_eq_some_iff {β : Type} {name other : String} {value found : β}
    {list : List (String × β)} (fresh : list.lookup name = none) :
    (list ++ [(name, value)]).lookup other = some found ↔
      list.lookup other = some found ∨ other = name ∧ value = found := by
  by_cases same : other = name
  · subst same
    simp [List.lookup_append, fresh]
  · rw [lookup_append_of_ne same]
    simp [same]

namespace Scope

variable {s : Scope} {name : String}

theorem child?_eq_none_of_fresh (fresh : ¬ s.binds name) : s.child? name = none := by
  simp only [binds, Bool.or_eq_true, not_or, Bool.not_eq_true, Option.isSome_eq_false_iff,
    Option.isNone_iff_eq_none] at fresh
  exact fresh.1

theorem alias?_eq_none_of_fresh (fresh : ¬ s.binds name) : s.alias? name = none := by
  simp only [binds, Bool.or_eq_true, not_or, Bool.not_eq_true, Option.isSome_eq_false_iff,
    Option.isNone_iff_eq_none] at fresh
  exact fresh.2

namespace Tidy

theorem new (n : Nat) (name : String) (parent : Option Int) (loc : Option Location) :
    Tidy ⟨n, name, parent, loc, [], [], none⟩ :=
  ⟨List.nodup_nil, List.nodup_nil, fun _ => .inl rfl, fun none => (by cases none)⟩

theorem add_child (h : s.Tidy) (n : Nat) (fresh : ¬ s.binds name) :
    Tidy { s with children := s.children ++ [(name, n)] } := by
  refine ⟨nodup_keys_append h.children (child?_eq_none_of_fresh fresh), h.aliases, ?_, h.keyed⟩
  intro other
  by_cases same : other = name
  · subst same
    exact .inr (alias?_eq_none_of_fresh (s := s) fresh)
  · rw [child?, lookup_append_of_ne same]
    exact h.apart other

theorem add_import (h : s.Tidy) (a : Alias) (fresh : ¬ s.binds a.name) :
    Tidy { s with aliases := s.aliases ++ [(a.name, a)] } := by
  have free := alias?_eq_none_of_fresh fresh
  refine ⟨h.children, nodup_keys_append h.aliases free, ?_, ?_⟩
  · intro other
    by_cases same : other = a.name
    · subst same
      exact .inl (child?_eq_none_of_fresh (s := s) fresh)
    · rw [alias?, lookup_append_of_ne same]
      exact h.apart other
  · intro other b bound
    obtain old | ⟨rfl, rfl⟩ := (lookup_append_eq_some_iff free).mp bound
    · exact h.keyed old
    · rfl

end Tidy

end Scope

namespace ScopeTree

variable {t t' : ScopeTree}

/-- Scope `n` has this parent and this name. -/
def Named (t : ScopeTree) (n : Nat) (parent : Option Int) (name : String) : Prop :=
  ∃ s, t.scopes[n]? = some s ∧ s.parent = parent ∧ s.name = name

/-- The children of each scope are the scopes that have it as their parent, by name. -/
def Nested (t : ScopeTree) : Prop :=
  ∀ {n m : Nat} {s : Scope} {name : String}, t.scopes[n]? = some s →
    (s.child? name = some m ↔ t.Named m (some (n : Int)) name)

/-- The scope that the import records has a child by the import's name, a macro that
has this name itself. -/
def Leads (t : ScopeTree) (a : Alias) : Prop :=
  ∃ (n m : Nat) (holder : Scope), a.scope = some (n : Int) ∧ t.scopes[n]? = some holder ∧
    holder.child? a.name = some m ∧ t.Named m (some (n : Int)) a.name

/-- All numbers in the tree fit together. -/
structure Arena (t : ScopeTree) : Prop where
  index : ∀ {n : Nat} {s : Scope}, t.scopes[n]? = some s → s.index = n
  /-- No two roots have one name. -/
  roots : (t.roots.map Prod.fst).Nodup
  /-- A scope is known as a root, by its name, exactly if it has no parent. -/
  root : ∀ {name : String} {n : Nat}, t.rootIndex? name = some n ↔ t.Named n none name
  /-- Macros come after their parents. -/
  parent : ∀ {n : Nat} {s : Scope} {i : Int}, t.scopes[n]? = some s → s.parent = some i →
    0 ≤ i ∧ i < n
  child : t.Nested
  tidy : t.Every Scope.Tidy
  imported : ∀ {n : Nat} {s : Scope} {name : String} {a : Alias}, t.scopes[n]? = some s →
    s.alias? name = some a → t.Leads a

theorem position?_eq_self {n m : Nat} (h : t.position? (n : Int) = some m) : n = m := by
  unfold position? at h
  split at h
  · split at h
    · simpa using h
    · cases h
  · omega

theorem getElem?_push_eq_some_iff {s s' : Scope} {n : Nat} :
    (t.scopes.push s)[n]? = some s' ↔ (n = t.size ∧ s = s') ∨ t.scopes[n]? = some s' := by
  rw [Array.getElem?_push]
  by_cases new : n = t.scopes.size
  · simp [new, ScopeTree.size]
  · simp [new, ScopeTree.size]

theorem Named.lt_size {n : Nat} {parent : Option Int} {name : String} (h : t.Named n parent name) :
    n < t.size := by
  obtain ⟨s, here, -⟩ := h
  exact ScopeTree.lt_size here

theorem named_push_iff {s : Scope} {roots : List (String × Nat)} {n : Nat} {parent : Option Int}
    {name : String} :
    (⟨t.scopes.push s, roots⟩ : ScopeTree).Named n parent name ↔
      t.Named n parent name ∨ n = t.size ∧ s.parent = parent ∧ s.name = name := by
  unfold Named
  rw [Array.getElem?_push]
  by_cases new : n = t.scopes.size
  · have out : t.scopes[n]? = none := by simp [new]
    simp [new, ScopeTree.size]
  · simp [new, ScopeTree.size]

theorem named_modify_iff {k : Nat} {f : Scope → Scope} (parent : ∀ s, (f s).parent = s.parent)
    (name : ∀ s, (f s).name = s.name) {n : Nat} {p : Option Int} {word : String} :
    (t.modify k f).Named n p word ↔ t.Named n p word := by
  unfold Named ScopeTree.modify
  rw [Array.getElem?_modify]
  by_cases same : k = n
  · subst same
    cases t.scopes[k]? with
    | none => simp
    | some s => simp [parent, name]
  · simp [same]

/-- What the scopes are once a macro is added: the new one, its parent with one child
more, and the others as they were. -/
theorem addMacro_cases {n c : Nat} {name : String} {loc : Option Location}
    (added : t.addMacro n name loc = .ok (t', c)) :
    ∃ s, t.scopes[n]? = some s ∧ ¬ s.binds name ∧ t'.roots = t.roots ∧
      ∀ {k : Nat} {s' : Scope}, t'.scopes[k]? = some s' →
        (k = t.size ∧ s' = ⟨t.size, name, some (n : Int), loc, [], [], none⟩) ∨
          (k = n ∧ s' = { s with children := s.children ++ [(name, t.size)] }) ∨
            (k ≠ n ∧ t.scopes[k]? = some s') := by
  obtain ⟨m, s, place, here, fresh, -, rfl⟩ := addMacro_eq_ok added
  obtain rfl := position?_eq_self place
  refine ⟨s, here, fresh, rfl, fun {k} {s'} there => ?_⟩
  obtain ⟨rfl, rfl⟩ | there := (getElem?_push_eq_some_iff (t := t.modify n _)).mp there
  · exact .inl ⟨by simp [ScopeTree.size, ScopeTree.modify], rfl⟩
  · rw [ScopeTree.modify, Array.getElem?_modify] at there
    split at there
    · next same =>
        subst same
        rw [here] at there
        exact .inr (.inl ⟨rfl, (Option.some.inj there).symm⟩)
    · next other => exact .inr (.inr ⟨fun same => other same.symm, there⟩)

theorem named_addMacro_iff {n c : Nat} {name : String} {loc : Option Location}
    (added : t.addMacro n name loc = .ok (t', c)) {k : Nat} {parent : Option Int} {word : String} :
    t'.Named k parent word ↔
      t.Named k parent word ∨ k = t.size ∧ some (n : Int) = parent ∧ name = word := by
  obtain ⟨_, _, -, -, -, -, rfl⟩ := addMacro_eq_ok added
  refine (named_push_iff (t := t.modify _ _)).trans ?_
  rw [named_modify_iff (by intro; rfl) (by intro; rfl)]
  simp [ScopeTree.size, ScopeTree.modify]

theorem Leads.of_named {n m : Nat} {a : Alias} (child : t.Nested) (inside : n < t.size)
    (held : a.scope = some (n : Int)) (named : t.Named m (some (n : Int)) a.name) : t.Leads a := by
  obtain ⟨holder, here⟩ := exists_scope inside
  exact ⟨n, m, holder, held, here, (child here).mpr named, named⟩

theorem Leads.kept {a : Alias} (h : t.Leads a) (child : t'.Nested) (size : t.size ≤ t'.size)
    (named : ∀ {m : Nat} {p : Option Int} {word : String}, t.Named m p word → t'.Named m p word) :
    t'.Leads a := by
  obtain ⟨n, m, holder, held, here, -, there⟩ := h
  exact .of_named child (Nat.lt_of_lt_of_le (ScopeTree.lt_size here) size) held (named there)

/-- An import can be bound to a macro only. -/
def Growth.Fits (t : ScopeTree) : Growth → Prop
  | bind _ target _ => t.scopes[target]?.all Scope.isMacro
  | build .. | root _ | child .. => True

instance (t : ScopeTree) : (g : Growth) → Decidable (g.Fits t)
  | .bind _ target _ => inferInstanceAs (Decidable (t.scopes[target]?.all Scope.isMacro = true))
  | .build .. | .root _ | .child .. => inferInstanceAs (Decidable True)

/-- Trees that come about when one thing after the other is done, or is tried and fails. -/
inductive Reached : ScopeTree → Prop where
  | empty : Reached .empty
  | grow {t : ScopeTree} (before : Reached t) {g : Growth} (fits : g.Fits t) : Reached (t.grow g)

namespace Arena

theorem empty : ScopeTree.empty.Arena where
  index := fun here => by simp [ScopeTree.empty] at here
  roots := List.nodup_nil
  root := by simp [ScopeTree.empty, rootIndex?, Named]
  parent := fun here => by simp [ScopeTree.empty] at here
  child := fun here => by simp [ScopeTree.empty] at here
  tidy := .empty
  imported := fun here => by simp [ScopeTree.empty] at here

theorem not_named_of_size_le (h : t.Arena) {n m : Nat} {name : String} (out : t.size ≤ m) :
    ¬ t.Named n (some (m : Int)) name := by
  rintro ⟨s, here, parent, -⟩
  have before := (h.parent here parent).2
  have inside := ScopeTree.lt_size here
  omega

theorem of_addRoot (h : t.Arena) {name : String} {n : Nat} (added : t.addRoot name = .ok (t', n)) :
    t'.Arena := by
  have grows := Grows.of_addRoot added
  have tidy := h.tidy.of_addRoot (.new ..) added
  obtain ⟨fresh, -, rfl⟩ := addRoot_eq_ok added
  have child : Nested ⟨t.scopes.push ⟨t.size, name, none, none, [], [], none⟩,
      t.roots ++ [(name, t.size)]⟩ := by
    intro k m s other here
    rw [named_push_iff]
    obtain ⟨rfl, rfl⟩ | here := getElem?_push_eq_some_iff.mp here
    · simp [Scope.child?, h.not_named_of_size_le (Nat.le_refl _)]
    · simp [h.child here]
  refine ⟨?_, nodup_keys_append h.roots fresh, ?_, ?_, child, tidy, ?_⟩
  · intro k s here
    obtain ⟨rfl, rfl⟩ | here := getElem?_push_eq_some_iff.mp here
    · rfl
    · exact h.index here
  · intro other k
    rw [named_push_iff, ← h.root]
    refine (lookup_append_eq_some_iff fresh).trans (or_congr_right ?_)
    simp only [true_and]
    constructor <;> rintro ⟨rfl, rfl⟩ <;> exact ⟨rfl, rfl⟩
  · intro k s i here parent
    obtain ⟨rfl, rfl⟩ | here := getElem?_push_eq_some_iff.mp here
    · cases parent
    · exact h.parent here parent
  · intro k s other a here bound
    obtain ⟨rfl, rfl⟩ | here := getElem?_push_eq_some_iff.mp here
    · cases bound
    · exact (h.imported here bound).kept child grows.size fun old => named_push_iff.mpr (.inl old)

theorem of_addMacro (h : t.Arena) {n c : Nat} {name : String} {loc : Option Location}
    (added : t.addMacro n name loc = .ok (t', c)) : t'.Arena := by
  have grows := Grows.of_addMacro added
  have tidy := h.tidy.of_addMacro (.new ..) (fun fresh old => old.add_child _ fresh) added
  have named := @named_addMacro_iff _ _ _ _ _ _ added
  obtain ⟨s, here, fresh, roots, scopes⟩ := addMacro_cases added
  have inside := ScopeTree.lt_size here
  have child : t'.Nested := by
    intro k m s' other there
    rw [named]
    obtain ⟨rfl, rfl⟩ | ⟨rfl, rfl⟩ | ⟨apart, there⟩ := scopes there
    · have late : ¬ (n : Int) = (t.size : Int) := by omega
      simp [Scope.child?, h.not_named_of_size_le (Nat.le_refl _), late]
    · rw [← h.child here]
      refine (lookup_append_eq_some_iff (Scope.child?_eq_none_of_fresh fresh)).trans
        (or_congr_right ?_)
      simp only [true_and]
      constructor <;> rintro ⟨rfl, rfl⟩ <;> exact ⟨rfl, rfl⟩
    · have apart : ¬ (n : Int) = (k : Int) := by omega
      simp [h.child there, apart]
  refine ⟨?_, roots ▸ h.roots, ?_, ?_, child, tidy, ?_⟩
  · intro k s' there
    obtain ⟨rfl, rfl⟩ | ⟨rfl, rfl⟩ | ⟨-, there⟩ := scopes there
    · rfl
    · exact (h.index here :)
    · exact h.index there
  · intro other k
    rw [rootIndex?, roots, named, ← h.root]
    simp [rootIndex?]
  · intro k s' i there parent
    obtain ⟨rfl, rfl⟩ | ⟨rfl, rfl⟩ | ⟨-, there⟩ := scopes there
    · cases parent
      omega
    · exact h.parent here parent
    · exact h.parent there parent
  · intro k s' other a there bound
    have kept (old : t.Leads a) := old.kept child grows.size fun old => named.mpr (.inl old)
    obtain ⟨rfl, rfl⟩ | ⟨rfl, rfl⟩ | ⟨-, there⟩ := scopes there
    · cases bound
    · exact kept (h.imported here bound)
    · exact kept (h.imported there bound)

theorem leads (h : t.Arena) {m : Nat} {goal : Scope} (there : t.scopes[m]? = some goal)
    (kind : goal.isMacro) (loc : Location) : t.Leads ⟨goal.parent, goal.name, loc⟩ := by
  obtain ⟨i, parent⟩ := Option.isSome_iff_exists.mp kind
  obtain ⟨positive, before⟩ := h.parent there parent
  obtain ⟨n, rfl⟩ := Int.eq_ofNat_of_zero_le positive
  have inside := ScopeTree.lt_size there
  exact .of_named h.child (show n < t.size by omega) parent ⟨goal, there, parent, rfl⟩

theorem modify (h : t.Arena) (n : Nat) {f : Scope → Scope}
    (same : ∀ s, (f s).index = s.index ∧ (f s).name = s.name ∧ (f s).parent = s.parent ∧
      (f s).children = s.children)
    (tidy : (t.modify n f).Every Scope.Tidy)
    (imported : ∀ {s : Scope} {name : String} {a : Alias}, t.scopes[n]? = some s →
      (f s).alias? name = some a → t.Leads a) : (t.modify n f).Arena := by
  have named {k : Nat} {p : Option Int} {word : String} :=
    @named_modify_iff t n f (fun s => (same s).2.2.1) (fun s => (same s).2.1) k p word
  have scopes : ∀ {k : Nat} {s' : Scope}, (t.modify n f).scopes[k]? = some s' →
      ∃ s, t.scopes[k]? = some s ∧ (s' = s ∨ k = n ∧ s' = f s) := by
    intro k s' there
    rw [ScopeTree.modify, Array.getElem?_modify] at there
    split at there
    · next here =>
        obtain ⟨s, old, rfl⟩ := Option.map_eq_some_iff.mp there
        exact ⟨s, old, .inr ⟨here.symm, rfl⟩⟩
    · exact ⟨s', there, .inl rfl⟩
  have child : (t.modify n f).Nested := by
    intro k m s' other there
    rw [named]
    obtain ⟨s, old, rfl | ⟨rfl, rfl⟩⟩ := scopes there
    · exact h.child old
    · rw [Scope.child?, (same s).2.2.2]
      exact h.child old
  refine ⟨?_, h.roots, ?_, ?_, child, tidy, ?_⟩
  · intro k s' there
    obtain ⟨s, old, rfl | ⟨rfl, rfl⟩⟩ := scopes there
    · exact h.index old
    · exact (same s).1.trans (h.index old)
  · intro other k
    rw [named, ← h.root]
    rfl
  · intro k s' i there parent
    obtain ⟨s, old, rfl | ⟨rfl, rfl⟩⟩ := scopes there
    · exact h.parent old parent
    · exact h.parent old ((same s).2.2.1.symm.trans parent)
  · intro k s' other a there bound
    have kept (old : t.Leads a) : (t.modify n f).Leads a :=
      old.kept child (by simp [ScopeTree.size, ScopeTree.modify]) named.mpr
    obtain ⟨s, old, rfl | ⟨rfl, rfl⟩⟩ := scopes there
    · exact kept (h.imported old bound)
    · exact kept (imported old bound)

theorem of_bindAlias (h : t.Arena) {scope : Int} {target : Nat} {loc : Location} {a : Alias}
    (kind : t.scopes[target]?.all Scope.isMacro) (bound : t.bindAlias scope target loc = .ok (t', a)) :
    t'.Arena := by
  have tidy := h.tidy.of_bindAlias (fun fresh old _ => old.add_import ⟨_, _, loc⟩ fresh) bound
  obtain ⟨n, s, goal, -, here, there, fresh, rfl, rfl⟩ := bindAlias_eq_ok bound
  refine h.modify n (fun _ => ⟨rfl, rfl, rfl, rfl⟩) tidy ?_
  intro s' other a found known
  obtain rfl := Option.some.inj (here.symm.trans found)
  obtain old | ⟨-, rfl⟩ :=
    (lookup_append_eq_some_iff (Scope.alias?_eq_none_of_fresh fresh)).mp known
  · exact h.imported here old
  · rw [there, Option.all_some] at kind
    exact h.leads there kind loc

theorem stored (h : t.Arena) (n : Nat) (own : List Item) :
    (t.modify n fun s => { s with body := some own }).Arena := by
  have tidy := h.tidy.modify n (f := fun s => { s with body := some own })
    fun _ old => ⟨old.children, old.aliases, old.apart, old.keyed⟩
  exact h.modify n (fun _ => ⟨rfl, rfl, rfl, rfl⟩) tidy fun here bound => h.imported here bound

theorem of_collect (t : ScopeTree) (n : Nat) (items : List Item) (h : t.Arena) :
    (t.collect n items).1.Arena := by
  fun_induction collect t n items with
  | case1 | case2 | case5 | case6 => exact h
  | case3 t n name body loc items t₁ child added t₂ e collected ih =>
      rw [collected] at ih
      exact ih (h.of_addMacro added)
  | case4 t n name body loc items t₁ child added t₂ own collected ihBody ihItems =>
      rw [collected] at ihBody
      exact ihItems ((ihBody (h.of_addMacro added)).stored child own)
  | case7 t n path loc items target found t₁ a bound ih =>
      obtain ⟨goal, there, kind⟩ := find_macro (findImport_eq_ok_iff.mp found)
      exact ih (h.of_bindAlias (by rw [there]; exact kind) bound)
  | case8 t n item items _ _ t₁ e collected ih | case9 t n item items _ _ t₁ own collected ih =>
      rw [collected] at ih
      exact ih h

theorem of_build (h : t.Arena) (root : String) (items : List Item) :
    (t.build root items).1.Arena := by
  obtain same | ⟨t₁, n, added, same⟩ := build_cases t root items
  · rw [same]
    exact h
  · have done := of_collect t₁ n items (h.of_addRoot added)
    obtain same | ⟨own, -, same⟩ := same
    · rw [same]
      exact done
    · rw [same]
      exact done.stored n own

theorem of_grow (h : t.Arena) {g : Growth} (fits : g.Fits t) : (t.grow g).Arena := by
  unfold grow
  cases g with
  | build root items => exact h.of_build root items
  | root name =>
      dsimp only
      split
      · next added => exact h.of_addRoot added
      · exact h
  | child parent name loc =>
      dsimp only
      split
      · next added => exact h.of_addMacro added
      · exact h
  | bind scope target loc =>
      dsimp only
      split
      · next bound => exact h.of_bindAlias fits bound
      · exact h

end Arena

/-- The numbers fit together in every tree, whatever was done to it and whatever of
this failed. -/
theorem Reached.arena (h : t.Reached) : t.Arena := by
  induction h with
  | empty => exact .empty
  | grow _ fits ih => exact ih.of_grow fits

/-- A library, a text that imports its macro and imports the import again but then
breaks off at a name that is taken, and what is added by hand: a macro and two imports,
the first of them refused. -/
def patchwork (loc : Location) : List Growth :=
  [.build "lib" [.define "a" [.define "b" [] loc] loc],
    .build "main" [.use ⟨0, ["lib", "a"]⟩ loc,
      .define "c" [.use ⟨0, ["main", "a"]⟩ loc, .define "a" [] loc] loc],
    .child 0 "d" none, .bind 3 1 loc, .bind (-1) 2 loc]

theorem Reached.arena_patchwork :
    (ScopeTree.empty.grownFrom (patchwork (.start "m"))).Arena ∧
      (ScopeTree.empty.grownFrom (patchwork (.start "m"))).scopes.toList.map
          (fun s => (s.name, s.parent, s.children, s.aliases.map fun bound => (bound.1, bound.2.scope))) =
        [("lib", none, [("a", 1), ("d", 5)], []), ("a", some 0, [("b", 2)], []), ("b", some 1, [], []),
          ("main", none, [("c", 4)], [("a", some 0)]), ("c", some 3, [], [("a", some 0)]),
          ("d", some 0, [], [("b", some 1)])] := by
  have reached : (ScopeTree.empty.grownFrom (patchwork (.start "m"))).Reached := by
    simp only [grownFrom, patchwork, List.foldl_cons, List.foldl_nil]
    refine .grow (.grow (.grow (.grow (.grow .empty ?_) ?_) ?_) ?_) ?_ <;> decide +kernel
  refine ⟨reached.arena, ?_⟩
  set_option synthInstance.maxSize 256 in decide +kernel

end ScopeTree

end ByteTape
