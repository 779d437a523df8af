import ByteTape.Proofs.Build.Copies
import ByteTape.Proofs.Fallible

/-! # Unused definitions

A definition that is inserted into a scope, under a name that has no meaning there,
changes nothing in the program. What comes behind it in the tree moves on by the number
of scopes that it adds, and no path that led to a macro can meet with its name.
-/

namespace ByteTape

/-- The second list is the first with the definition of a macro inserted at some place of the
scope to which the path leads. -/
inductive Item.Inserted (name : String) (body : List Item) (loc : Location) :
    List String → List Item → List Item → Prop where
  | here (front back : List Item) :
    Inserted name body loc [] (front ++ back) (front ++ .define name body loc :: back)
  | inside {scope : String} {path : List String} {place : Location} {inner inner' : List Item}
    (front back : List Item) (below : Inserted name body loc path inner inner') :
    Inserted name body loc (scope :: path) (front ++ .define scope inner place :: back)
      (front ++ .define scope inner' place :: back)

/-- Leave room for `gap` numbers from `base` on. -/
def shift (base gap n : Nat) : Nat := if n < base then n else n + gap

theorem shift_of_lt {base gap n : Nat} (low : n < base) : shift base gap n = n := if_pos low

theorem shift_base (base gap i : Nat) : shift base gap (base + i) = base + gap + i := by
  rw [shift, if_neg (by omega)]
  omega

theorem shift_injective (base gap : Nat) : Function.Injective (shift base gap) := by
  intro n m same
  simp only [shift] at same
  split at same <;> split at same <;> omega

/-- What is in the other scope besides does not matter for the names that are not `extra`. -/
theorem Scope.Follows.extra_child {f : Nat → Nat} {extra : String → Prop} {s s' : Scope} {name : String}
    (h : Follows f extra s s') (spare : extra name) (n : Nat) :
    Follows f extra s { s' with children := s'.children ++ [(name, n)] } := by
  refine ⟨h.name, h.parent, h.body, fun {word} known => ?_, h.imported⟩
  have different : word ≠ name := fun same => known (same ▸ spare)
  exact (lookup_append_of_ne different _ _).trans (h.child known)

namespace ScopeTree

variable {t t₁ t₂ : ScopeTree} {f : Nat → Nat} {n m c : Nat} {name : String} {loc : Location}
  {path : List String} {body items items' own : List Item}

theorem Arena.follows_self (arena : t.Arena) (fixed : ∀ k < t.size, f k = k) {s : Scope}
    (here : t.scopes[n]? = some s) (extra : String → Prop) : s.Follows f extra s := by
  refine ⟨rfl, ?_, rfl, fun {word} _ => ?_, fun {word} _ => ?_⟩
  · cases parent : s.parent with
    | none => rfl
    | some i =>
        obtain ⟨positive, before⟩ := arena.parent here parent
        have inside := lt_size here
        obtain ⟨k, rfl⟩ := Int.eq_ofNat_of_zero_le positive
        rw [Option.map_some, renumber, Int.toNat_natCast, fixed k (by omega)]
  · cases named : s.child? word with
    | none => rfl
    | some k => rw [Option.map_some, fixed k ((arena.child here).mp named).lt_size]
  · cases bound : s.alias? word with
    | none => rfl
    | some a =>
        obtain ⟨k, _, _, held, there, -⟩ := arena.imported here bound
        rw [Option.map_some, Alias.renumber, held, Option.map_some, renumber, Int.toNat_natCast,
          fixed k (lt_size there), ← held]

/-- The one name that a tree has besides, in scope `n`. -/
def within (n : Nat) (name : String) (scope : Option Nat) (word : String) : Prop :=
  scope = some n ∧ word = name

theorem avoids_within (free : t.Free n name) : t.Avoids (within n name) := by
  refine ⟨?_, fun _ extra => by cases extra.1⟩
  rintro k s word here bound ⟨same, rfl⟩
  cases same
  exact free s here bound

theorem clear_within {path : Path} : Clear (within n name) path := by
  rintro - word - ⟨none, -⟩
  cases none

theorem lockstep_define {loc : Option Location} (arena : t.Arena)
    (added : t.addMacro n name loc = .ok (t₁, c)) (below : Collects t₁ c body t₂ own) :
    Lockstep (shift t.size (t₂.size - t.size)) (within n name) t (t₂.store c own) := by
  obtain ⟨rfl, size⟩ := addMacro_size added
  have first := Grown.of_addMacro arena.upright added
  have second := below.grown first.upright
  have grown := below.size_le
  have fixed (k : Nat) (old : k < t.size) : shift t.size (t₂.size - t.size) k = k := shift_of_lt old
  refine ⟨fun i => ?_, shift_injective _ _, fun {k} {s} here => ?_, fun {word} _ => ?_⟩
  · rw [shift_base, modify_size]
    omega
  · have old := lt_size here
    have follows := arena.follows_self fixed here (within n name (some k))
    rw [fixed k old, modify_old _ (by omega), below.old (by omega) (by omega)]
    by_cases same : k = n
    · subst same
      exact ⟨_, addMacro_here added here, follows.extra_child ⟨rfl, rfl⟩ t.size⟩
    · exact ⟨s, by rw [addMacro_old added old same, here], follows⟩
  · have roots : t₂.rootIndex? word = t.rootIndex? word := (first.trans second).roots (by simp)
    refine roots.trans ?_
    cases known : t.rootIndex? word with
    | none => rfl
    | some r => rw [Option.map_some, fixed r (arena.root.mp known).lt_size]

/-- If items can be declared then they can with the definition inserted, unless its name has a
meaning in the scope it is inserted into. -/
theorem Collects.inserted (inserted : Item.Inserted name body loc path items items')
    (plain : Item.Importless body) (once : Item.Distinct body) (done : Collects t n items t₁ own)
    (arena : t.Arena) (inside : n < t.size)
    (free : ∀ m, t₁.address m = t.address n ++ path → t₁.Free m name) :
    ∃ f m t₁', (∀ k < t.size, f k = k) ∧ m < t₁.size ∧ t₁.address m = t.address n ++ path ∧
      Collects t n items' t₁' own ∧ Lockstep f (within m name) t₁ t₁' := by
  induction inserted generalizing t n t₁ own with
  | here front back =>
      obtain ⟨t₂, own₁, own₂, before, behind, rfl⟩ := done.split
      have arena₂ := before.keepsArena arena
      have size := before.size_le
      have place := done.address_eq arena inside
      have unbound : t₁.Free n name := free n (by rw [place, List.append_nil])
      have unbound₂ := (behind.grown arena₂.upright).grows.free unbound
      obtain ⟨t₃, added⟩ := exists_addMacro (by omega) unbound₂ (some loc)
      obtain ⟨-, size₃⟩ := addMacro_size added
      obtain ⟨t₄, below⟩ := exists_collects (by omega) plain once fun _ _ => free_new added
      have lockstep := lockstep_define arena₂ added below
      obtain ⟨t₁', behind', lockstep'⟩ := lockstep.collects behind arena₂.upright
        (avoids_within unbound) fun _ _ => clear_within
      rw [shift_of_lt (by omega)] at behind'
      refine ⟨_, n, t₁', fun k old => shift_of_lt (by omega), ?_, ?_, ?_, lockstep'⟩
      · exact Nat.lt_of_lt_of_le inside done.size_le
      · rw [place, List.append_nil]
      · exact before.append (.define added below behind')
  | @inside scope path _ _ _ front back _ ih =>
      obtain ⟨t₂, own₁, own₂, before, behind, rfl⟩ := done.split
      have arena₂ := before.keepsArena arena
      have size₂ := before.size_le
      cases behind with
      | plain kind => cases kind
      | @define _ t₃ t₄ _ _ c _ _ _ _ kept _ added below rest =>
          obtain ⟨rfl, size₃⟩ := addMacro_size added
          have arena₃ := arena₂.of_addMacro added
          have arena₄ := below.keepsArena arena₃
          have arena₅ := arena₄.stored t₂.size kept
          have grows := (rest.grown arena₅.upright).grows
          have place {m : Nat} (old : m < t₄.size) (address : t₄.address m = t₃.address t₂.size ++ path) :
              t₁.address m = t.address n ++ scope :: path := by
            rw [rest.address_eq arena₅ (by rwa [modify_size]), arena₄.address_stored _ _ old, address,
              arena₂.address_new added (by omega), before.address_eq arena inside, List.append_assoc,
              List.singleton_append]
          have free₄ (m : Nat) (address : t₄.address m = t₃.address t₂.size ++ path) : t₄.Free m name := by
            intro s here
            have unbound := grows.free (free m (place (lt_size here) address))
            exact free_store_iff.mp unbound s here
          obtain ⟨f, m, t₄', fixed, old, address, below', lockstep⟩ := ih below arena₃ (by omega) free₄
          have stored := lockstep.store t₂.size kept
          rw [fixed t₂.size (by omega)] at stored
          obtain ⟨t₁', rest', lockstep'⟩ := stored.collects rest arena₅.upright
            (avoids_within (free m (place old address))) fun _ _ => clear_within
          rw [fixed n (by omega)] at rest'
          have size := grows.size
          rw [modify_size] at size
          refine ⟨f, m, t₁', fun k low => fixed k (by omega), by omega, place old address, ?_, lockstep'⟩
          exact before.append (.define added below' rest')

end ScopeTree

namespace Item

variable {root name : String} {path : List String} {body items items' : List Item} {loc : Location}
  {p : Program} {n : Nat} {s : Scope}

/-- A definition that is inserted under a name that has no meaning in its scope does not
change a program. -/
theorem program_inserted (inserted : Inserted name body loc path items items')
    (plain : Importless body) (once : Distinct body) (done : program root items = .ok p)
    (here : (ScopeTree.empty.build root items).1.scopes[n]? = some s)
    (place : (ScopeTree.empty.build root items).1.address n = root :: path)
    (unbound : ¬ s.binds name) : program root items' = .ok p := by
  obtain ⟨t, own, collected, made⟩ := program_eq_ok_iff.mp done
  rw [ScopeTree.build_empty_eq_ok_iff.mpr ⟨t, own, collected, rfl⟩] at here place
  have start := ScopeTree.arena_rooted root
  have arena := collected.keepsArena start
  have stored := arena.stored 0 own
  have unbound' : (t.store 0 own).Free n name := fun s' there => by
    obtain rfl := Option.some.inj (here.symm.trans there)
    exact unbound
  have only {m : Nat} (old : m < t.size) (address : t.address m = root :: path) : m = n := by
    refine stored.address_injective (by rwa [ScopeTree.modify_size]) (ScopeTree.lt_size here) ?_
    rw [arena.address_stored 0 own old, address, place]
  have top : (ScopeTree.rooted root).address 0 = [root] :=
    ScopeTree.Arena.address_of_root ⟨_, rfl, rfl, rfl⟩
  obtain ⟨f, m, t', fixed, old, address, collected', lockstep⟩ :=
    collected.inserted inserted plain once start Nat.one_pos fun m address s' there => by
      rw [top, List.singleton_append] at address
      obtain rfl := only (ScopeTree.lt_size there) address
      exact ScopeTree.free_store_iff.mp unbound' s' there
  rw [top, List.singleton_append] at address
  obtain rfl := only old address
  have lockstep' := lockstep.store 0 own
  rw [fixed 0 Nat.one_pos] at lockstep'
  have copies := lockstep'.copies stored.upright (ScopeTree.avoids_within unbound')
    fun _ => ScopeTree.clear_within
  exact program_eq_ok_iff.mpr ⟨t', own, collected', copies.program stored made⟩

/-- The items of `:a{:b{+}}:c{use #^a/b #b}#c`. -/
def importer : List Item :=
  [.define "a" [.define "b" [.op .increment ⟨"m", 1, 7⟩] ⟨"m", 1, 4⟩] ⟨"m", 1, 1⟩,
    .define "c" [.use ⟨1, ["a", "b"]⟩ ⟨"m", 1, 13⟩, .ref ⟨0, ["b"]⟩ ⟨"m", 1, 23⟩] ⟨"m", 1, 10⟩,
    .ref ⟨0, ["c"]⟩ ⟨"m", 1, 26⟩]

/-- The same items with `:c{-:b{>}}` inserted in front of the import. -/
def crowdedImporter : List Item :=
  [.define "a" [.define "b" [.op .increment ⟨"m", 1, 7⟩] ⟨"m", 1, 4⟩] ⟨"m", 1, 1⟩,
    .define "c" [.define "c" [.op .decrement ⟨"x", 1, 4⟩,
        .define "b" [.op .right ⟨"x", 1, 8⟩] ⟨"x", 1, 5⟩] ⟨"x", 1, 1⟩,
      .use ⟨1, ["a", "b"]⟩ ⟨"m", 1, 13⟩, .ref ⟨0, ["b"]⟩ ⟨"m", 1, 23⟩] ⟨"m", 1, 10⟩,
    .ref ⟨0, ["c"]⟩ ⟨"m", 1, 26⟩]

theorem program_crowdedImporter :
    (ScopeTree.empty.build "main" importer).1.address 3 = ["main", "c"] ∧
      ∃ p, program "main" importer = .ok p ∧ program "main" crowdedImporter = .ok p ∧
        p.render true = "+" := by
  have inserted : Inserted "c" [.op .decrement ⟨"x", 1, 4⟩,
      .define "b" [.op .right ⟨"x", 1, 8⟩] ⟨"x", 1, 5⟩] ⟨"x", 1, 1⟩ ["c"] importer crowdedImporter :=
    .inside [_] [_] (.here [] _)
  have made : (program "main" importer).map (·.render true) = .ok "+" := by
    decide +kernel
  have place : (ScopeTree.empty.build "main" importer).1.address 3 = ["main", "c"] := by
    decide +kernel
  have unbound : ((ScopeTree.empty.build "main" importer).1.scopes[3]?).map (·.binds "c") =
      some false := by
    decide +kernel
  obtain ⟨s, here, free⟩ := Option.map_eq_some_iff.mp unbound
  obtain ⟨p, done, printed⟩ := map_eq_ok made
  refine ⟨place, p, done, ?_, printed⟩
  refine program_inserted inserted ?_ ?_ done here place (by simp [free])
  · simp [Importless]
  · simp [Distinct, names, defines?]

end Item

end ByteTape
