import ByteTape.Proofs.Build.Failures
import ByteTape.Proofs.Fallible
import ByteTape.Proofs.Scope.Collects

/-! # Imports and references

An import is looked up when it is met, in the tree as it is then, and a reference when
the tree is finished. The same path means the same macro in both, because no name loses
its meaning while the tree is built. There is one exception: an import of the library
whose path begins with the name of the program's root, which is not there yet.
-/

namespace ByteTape

/-- The item stands in the scope to which the names lead. -/
inductive Item.WrittenIn (item : Item) : List String → List Item → Prop where
  | here {items : List Item} (there : item ∈ items) : WrittenIn item [] items
  | inside {name : String} {place : List String} {body items : List Item} {loc : Location}
    (defined : .define name body loc ∈ items) (below : WrittenIn item place body) :
    WrittenIn item (name :: place) items

theorem Item.WrittenIn.cons {item head : Item} {place : List String} {items : List Item}
    (h : WrittenIn item place (head :: items)) :
    WrittenIn item place items ∨ (place = [] ∧ item = head) ∨
      ∃ name body loc rest, head = .define name body loc ∧ place = name :: rest ∧
        WrittenIn item rest body := by
  cases h with
  | here there =>
      obtain same | there := List.mem_cons.mp there
      · exact .inr (.inl ⟨rfl, same⟩)
      · exact .inl (.here there)
  | inside defined below =>
      obtain same | defined := List.mem_cons.mp defined
      · exact .inr (.inr ⟨_, _, _, _, same.symm, rfl, below⟩)
      · exact .inl (.inside defined below)

namespace ScopeTree

variable {t t' t'' : ScopeTree} {n m k : Nat} {s : Scope} {word : String} {a : Alias} {path : Path}
  {loc : Location}

namespace Arena

theorem named_of_aliasTarget (arena : t.Arena) (here : t.scopes[n]? = some s)
    (bound : s.alias? word = some a) (goal : t.aliasTarget a = .ok m) :
    ∃ k : Nat, a.scope = some (k : Int) ∧ t.Named m (some (k : Int)) word := by
  obtain ⟨k, m', holder, held, there, child, named⟩ := arena.imported here bound
  obtain ⟨i, k', holder', held', place, there', child'⟩ := aliasTarget_eq_ok_iff.mp goal
  obtain rfl := Option.some.inj (held.symm.trans held')
  obtain rfl := position?_eq_self place
  obtain rfl := Option.some.inj (there.symm.trans there')
  obtain rfl := Option.some.inj (child.symm.trans child')
  rw [(arena.tidy.scope here).keyed bound] at named
  exact ⟨k, held, named⟩

theorem aliasTarget_of_named (arena : t.Arena) (held : a.scope = some (k : Int))
    (named : t.Named m (some (k : Int)) a.name) : t.aliasTarget a = .ok m := by
  have before := arena.parent_lt named
  have inside := named.lt_size
  obtain ⟨holder, there⟩ := exists_scope (show k < t.size by omega)
  exact aliasTarget_eq_ok_iff.mpr
    ⟨k, k, holder, held, position?_natCast (by omega), there, (arena.child there).mpr named⟩

theorem descend_named (arena : t.Arena) {ref : Reference} {steps : List String}
    (found : (t.descend ref n steps).outcome = .ok m) (last : word ∈ steps.getLast?) :
    ∃ p, t.Named m p word := by
  induction steps generalizing n with
  | nil => cases last
  | cons name steps ih =>
      obtain ⟨s, here, ⟨a, k, bound, rfl, goal, rest⟩ | ⟨-, k, child, rest⟩⟩ :=
        descend_cons_ok_iff.mp found
      · obtain ⟨rfl, -⟩ := descend_nil_ok_iff.mp rest
        cases last
        obtain ⟨_, -, named⟩ := arena.named_of_aliasTarget here bound goal
        exact ⟨_, named⟩
      · cases steps with
        | nil =>
            obtain ⟨rfl, -⟩ := descend_nil_ok_iff.mp rest
            cases last
            exact ⟨_, (arena.child here).mp child⟩
        | cons next steps =>
            rw [List.getLast?_cons_cons] at last
            exact ih rest last

theorem climb_named (arena : t.Arena) {ref : Reference} (found : (t.climb ref n k).outcome = .ok m)
    (last : word ∈ ref.path.steps.getLast?) : ∃ p, t.Named m p word := by
  induction k generalizing n with
  | zero => exact arena.descend_named found last
  | succ k ih =>
      obtain ⟨-, -, _, -, -, -, -, rest⟩ := climb_succ_ok_iff.mp found
      exact ih rest

theorem find_named (arena : t.Arena) {ref : Reference} (found : t.find n ref = .ok m)
    (last : word ∈ ref.path.steps.getLast?) : ∃ p, t.Named m p word := by
  obtain ⟨-, ⟨-, rest⟩ | ⟨-, name, steps, r, split, known, rest⟩ | ⟨-, -, rest⟩⟩ :=
    find_eq_ok_iff.mp found
  · exact arena.climb_named rest last
  · cases steps with
    | nil =>
        obtain ⟨rfl, s, here, kind⟩ := descend_nil_ok_iff.mp rest
        obtain ⟨s', here', parent, -⟩ := arena.root.mp known
        obtain rfl := Option.some.inj (here.symm.trans here')
        simp [Scope.isMacro, parent] at kind
    | cons next steps =>
        rw [split, List.getLast?_cons_cons] at last
        exact arena.descend_named rest last
  · exact arena.descend_named rest last

end Arena

/-- Whatever is named or imported in `t` is so in `t'`. Bodies may have been stored. -/
structure Persists (t t' : ScopeTree) : Prop where
  named : ∀ {n : Nat} {p : Option Int} {word : String}, t.Named n p word → t'.Named n p word
  bound : ∀ {n : Nat} {s : Scope} {word : String} {a : Alias}, t.scopes[n]? = some s →
    s.alias? word = some a → ∃ s', t'.scopes[n]? = some s' ∧ s'.alias? word = some a

theorem Grows.persists (grows : t.Grows t') : t.Persists t' := by
  refine ⟨grows.named, fun {n s word a} here bound => ?_⟩
  obtain ⟨s', here', keeps⟩ := grows.scope here
  exact ⟨s', here', by rw [keeps.imported (by simp [Scope.binds, bound]), bound]⟩

theorem persists_store (t : ScopeTree) (n : Nat) (own : List Item) : t.Persists (t.store n own) := by
  refine ⟨fun named => by rwa [named_modify_iff (by intro; rfl) (by intro; rfl)], ?_⟩
  intro k s word a here bound
  by_cases same : k = n
  · subst same
    refine ⟨{ s with body := some own }, ?_, bound⟩
    simp only [store, ScopeTree.modify, Array.getElem?_modify, if_true, here, Option.map_some]
  · exact ⟨s, by rw [modify_old _ same, here], bound⟩

namespace Persists

theorem aliasTarget (h : t.Persists t') (arena : t.Arena) (arena' : t'.Arena)
    (here : t.scopes[n]? = some s) (bound : s.alias? word = some a) (goal : t.aliasTarget a = .ok m) :
    t'.aliasTarget a = .ok m := by
  obtain ⟨k, held, named⟩ := arena.named_of_aliasTarget here bound goal
  rw [← (arena.tidy.scope here).keyed bound] at named
  exact arena'.aliasTarget_of_named held (h.named named)

theorem mirrors (h : t.Persists t') (arena : t.Arena) (arena' : t'.Arena) : Mirrors id t t' := by
  refine arena.mirrors arena' h.named h.named ?_
  rintro n m word ⟨s, a, here, bound, goal⟩
  obtain ⟨s', here', bound'⟩ := h.bound here bound
  exact ⟨s', a, here', bound', h.aliasTarget arena arena' here bound goal⟩

end Persists

/-- The import with this path, at this position, has bound a macro in scope `n` to the last
name of the path, and the path of a reference leads to the same macro from there. -/
def Agrees (t : ScopeTree) (n : Nat) (path : Path) (loc : Location) : Prop :=
  ∃ s name a m, t.scopes[n]? = some s ∧ (∀ last ∈ path.steps.getLast?, name = last) ∧
    s.alias? name = some a ∧ a.loc = loc ∧ t.aliasTarget a = .ok m ∧
      t.find n ⟨path, false, loc⟩ = .ok m

theorem Agrees.lt_size (h : t.Agrees n path loc) : n < t.size := by
  obtain ⟨s, _, _, _, here, -⟩ := h
  exact ScopeTree.lt_size here

theorem Agrees.persists (h : t.Agrees n path loc) (persists : t.Persists t') (arena : t.Arena)
    (arena' : t'.Arena) (shielded : t.Shields t' path) : t'.Agrees n path loc := by
  obtain ⟨s, name, a, m, here, last, bound, place, goal, found⟩ := h
  obtain ⟨s', here', bound'⟩ := persists.bound here bound
  exact ⟨s', name, a, m, here', last, bound', place, persists.aliasTarget arena arena' here bound goal,
    (persists.mirrors arena arena').find rfl shielded found⟩

theorem shields_of_roots (same : ∀ {name : String}, t'.rootIndex? name = t.rootIndex? name)
    (path : Path) : t.Shields t' path :=
  fun _ _ _ unknown => same.trans unknown

theorem agrees_bound (arena : t.Arena) {target : Nat} (found : t.findImport n path loc = .ok target)
    (bound : t.bindAlias n target loc = .ok (t', a)) : t'.Arena ∧ t'.Agrees n path loc := by
  have found := findImport_eq_ok_iff.mp found
  obtain ⟨goal, there, kind⟩ := find_macro found
  have arena' := arena.of_bindAlias (by rw [there]; exact kind) bound
  have grown := Grown.of_bindAlias arena.upright bound
  have found' : t'.find n ⟨path, false, loc⟩ = .ok target :=
    (grown.grows.mirrors arena.upright).find (by rfl) (shields_of_roots (grown.roots (by simp)) path) found
  obtain ⟨i, parent⟩ := Option.isSome_iff_exists.mp kind
  obtain ⟨k, rfl⟩ := Int.eq_ofNat_of_zero_le (arena.parent there parent).1
  have named : t.Named target (some (k : Int)) goal.name := ⟨goal, there, parent, rfl⟩
  obtain ⟨_, s, _, place, here, there', fresh, rfl, rfl⟩ := bindAlias_eq_ok bound
  obtain rfl := position?_eq_self place
  obtain rfl := Option.some.inj (there.symm.trans there')
  refine ⟨arena', { s with aliases := s.aliases ++ [(goal.name, ⟨goal.parent, goal.name, loc⟩)] },
    goal.name, ⟨goal.parent, goal.name, loc⟩, target, ?_, ?_, ?_, rfl, ?_, found'⟩
  · rw [ScopeTree.modify, Array.getElem?_modify, if_pos rfl, here, Option.map_some]
  · intro last there
    obtain ⟨_, named'⟩ := arena.find_named found there
    exact (named.unique named').2
  · exact (lookup_append_eq_some_iff (Scope.alias?_eq_none_of_fresh fresh)).mpr (.inr ⟨rfl, rfl⟩)
  · exact arena'.aliasTarget_of_named parent (grown.grows.named named)

theorem Collects.keepsAgrees {items own : List Item} (done : Collects t n items t' own)
    (arena : t.Arena) (h : t.Agrees k path loc) : t'.address k = t.address k ∧ t'.Agrees k path loc := by
  have grown := done.grown arena.upright
  have arena' := done.keepsArena arena
  exact ⟨done.address_eq arena h.lt_size,
    h.persists grown.grows.persists arena arena' (shields_of_roots (grown.roots (by simp)) path)⟩

theorem Agrees.stored (h : t.Agrees k path loc) (arena : t.Arena) (n : Nat) (own : List Item) :
    (t.store n own).address k = t.address k ∧ (t.store n own).Agrees k path loc :=
  ⟨arena.address_stored n own h.lt_size,
    h.persists (persists_store t n own) arena (arena.stored n own) (shields_of_roots rfl path)⟩

theorem Collects.agrees {items own : List Item} {place : List String}
    (done : Collects t n items t' own) (written : Item.WrittenIn (.use path loc) place items)
    (arena : t.Arena) (inside : n < t.size) :
    ∃ k, t'.address k = t.address n ++ place ∧ t'.Agrees k path loc := by
  induction done generalizing place with
  | nil =>
      cases written with
      | here there => cases there
      | inside defined => cases defined
  | @define t t₁ t₂ _ n c name _ body _ inner _ added below rest ihBelow ihRest =>
      obtain ⟨rfl, size⟩ := addMacro_size added
      have arena₁ := arena.of_addMacro added
      have arena₂ := below.keepsArena arena₁
      have stored := arena₂.stored t.size inner
      obtain written | ⟨-, same⟩ | ⟨_, _, _, place, same, rfl, written⟩ := written.cons
      · have grown := below.size_le
        obtain ⟨k, address, agrees⟩ := ihRest written stored (by rw [modify_size]; omega)
        refine ⟨k, ?_, agrees⟩
        rw [address, arena.address_defined added below inside]
      · cases same
      · cases same
        obtain ⟨k, address, agrees⟩ := ihBelow written arena₁ (by omega)
        obtain ⟨address₂, agrees₂⟩ := agrees.stored arena₂ t.size inner
        obtain ⟨address₃, agrees₃⟩ := rest.keepsAgrees stored agrees₂
        refine ⟨k, ?_, agrees₃⟩
        rw [address₃, address₂, address, arena.address_new added inside, List.append_assoc,
          List.singleton_append]
  | use found bound rest ih =>
      obtain ⟨arena₁, agrees⟩ := agrees_bound arena found bound
      have address := arena.address_grown arena₁ (.of_bindAlias bound) inside
      obtain written | ⟨rfl, same⟩ | ⟨_, _, _, _, same, -⟩ := written.cons
      · have size := (Grows.of_bindAlias bound).size
        obtain ⟨k, address', agrees'⟩ := ih written arena₁ (by omega)
        exact ⟨k, by rw [address', address], agrees'⟩
      · cases same
        obtain ⟨address', agrees'⟩ := rest.keepsAgrees arena₁ agrees
        exact ⟨_, by rw [address', address, List.append_nil], agrees'⟩
      · cases same
  | plain kind _ ih =>
      obtain written | ⟨-, rfl⟩ | ⟨_, _, _, _, rfl, -⟩ := written.cons
      · exact ih written arena inside
      · cases kind
      · cases kind

theorem Arena.load_agrees {dialect : Dialect} {root : String} {source : Source} {items : List Item}
    {place : List String} (arena : t.Arena) (loaded : t.load dialect root source = (t', .ok ()))
    (parsed : Item.parse dialect source.file source.text = .ok items)
    (written : Item.WrittenIn (.use path loc) place items) :
    ∃ n, t'.address n = root :: place ∧ t'.Agrees n path loc := by
  obtain ⟨_, parsed', built⟩ := load_eq_ok_iff.mp loaded
  obtain rfl := Except.ok.inj (parsed.symm.trans parsed')
  obtain ⟨t₁, c, t₂, own, added, done, rfl⟩ := build_eq_ok_iff.mp built
  have arena₁ := arena.of_addRoot added
  have named : t₁.Named c none root := by
    obtain ⟨-, rfl, rfl⟩ := addRoot_eq_ok added
    exact ⟨_, getElem?_push_eq_some_iff.mpr (.inl ⟨rfl, rfl⟩), rfl, rfl⟩
  obtain ⟨k, address, agrees⟩ := done.agrees written arena₁ named.lt_size
  obtain ⟨address', agrees'⟩ := agrees.stored (done.keepsArena arena₁) c own
  refine ⟨k, ?_, agrees'⟩
  rw [address', address, address_of_root named, List.singleton_append]

end ScopeTree

/-- The texts that a program is made from, with the names of their roots. -/
def Recipe.texts (r : Recipe) : List (String × Source) :=
  (r.library.map (r.libraryRoot, ·)).toList ++ [(r.root, r.source)]

namespace Build

/-- In a tree from which a program was made, the path of an import leads from the scope that
the import stands in to the macro that it has bound there, unless the import is one of the
library and begins with the name of the program's root. -/
theorem import_agrees {r : Recipe} {b : Build} (distinct : r.root ≠ r.libraryRoot)
    (made : ofRecipe r = .ok b) {root : String} {source : Source} (text : (root, source) ∈ r.texts)
    {items : List Item} (parsed : Item.parse r.dialect source.file source.text = .ok items)
    {path : Path} {loc : Location} {place : List String}
    (written : Item.WrittenIn (.use path loc) place items)
    (unclaimed : root ≠ r.root → ¬ (⟨path, true, loc⟩ : Reference).Begins r.root) :
    ∃ n, b.tree.address n = root :: place ∧ b.tree.Agrees n path loc := by
  obtain ⟨made, -⟩ := ofRecipe_eq_ok_iff.mp made
  obtain ⟨t, library, loaded⟩ := treeOf_eq_ok_iff.mp made
  have arena := arena_libraryTree library
  simp only [Recipe.texts, List.mem_append, Option.mem_toList, Option.map_eq_some_iff,
    Prod.mk.injEq, List.mem_singleton] at text
  obtain ⟨_, given, rfl, rfl⟩ | ⟨rfl, rfl⟩ := text
  · obtain ⟨none, -⟩ | ⟨_, given', loaded₀⟩ := libraryTree_eq_ok_iff.mp library
    · cases given.symm.trans none
    · obtain rfl := Option.some.inj (given.symm.trans given')
      obtain ⟨n, address, agrees⟩ := ScopeTree.Arena.empty.load_agrees loaded₀ parsed written
      -- the text of the program is loaded on top, with a root that the path does not begin with
      have grown : ScopeTree.Grown t (t.load r.dialect r.root r.source).1 (some r.root) :=
        .load arena.upright
      rw [loaded] at grown
      have arena' := arena_treeOf made
      refine ⟨n, (arena.address_grown arena' grown.grows agrees.lt_size).trans address, ?_⟩
      refine agrees.persists grown.grows.persists arena arena' fun level name first unknown => ?_
      refine (grown.roots fun same => unclaimed distinct.symm ⟨level, ?_⟩).trans unknown
      rw [Option.some.inj same]
      exact first
  · exact arena.load_agrees loaded parsed written

/-- A library with a macro that has the name of the program's root, and an import of what is
below it. Its path goes up first. -/
def climbing : Source := ⟨"l", ":m\x7b:src\x7b:a\x7b+\x7d\x7duse #^m/src/a #a#^m/src/a\x7d"⟩

/-- The same library, with a path that begins with the name of the program's root. -/
def captured : Source := ⟨"l", ":m\x7b:src\x7b:a\x7b+\x7d\x7duse #src/a #a#src/a\x7d"⟩

/-- A text that uses the macro of one of these libraries. -/
def sharingWith (library : Source) : Recipe :=
  ⟨⟨"m", ":a\x7b-\x7d#std/m"⟩, "src", some library, "std", .extended⟩

/-- The items of the two libraries. -/
def sharing (path : Path) (second third : Nat) : List Item :=
  [.define "m" [.define "src" [.define "a" [.op .increment ⟨"l", 1, 12⟩] ⟨"l", 1, 9⟩] ⟨"l", 1, 4⟩,
    .use path ⟨"l", 1, 15⟩, .ref ⟨0, ["a"]⟩ ⟨"l", 1, second⟩, .ref path ⟨"l", 1, third⟩] ⟨"l", 1, 1⟩]

private theorem climbing_parsed :
    Item.parse .extended climbing.file climbing.text =
      .ok (sharing ⟨1, ["m", "src", "a"]⟩ 29 31) := by
  decide +kernel

private theorem captured_parsed :
    Item.parse .extended captured.file captured.text =
      .ok (sharing ⟨0, ["src", "a"]⟩ 26 28) := by
  decide +kernel

private theorem sharing_written (path : Path) (second third : Nat) :
    Item.WrittenIn (.use path ⟨"l", 1, 15⟩) ["m"] (sharing path second third) :=
  .inside List.mem_cons_self (.here (by simp))

theorem import_agrees_climbing :
    ∃ b n, ofRecipe (sharingWith climbing) = .ok b ∧ b.program.render true = "++" ∧
      b.tree.address n = ["std", "m"] ∧ b.tree.Agrees n ⟨1, ["m", "src", "a"]⟩ ⟨"l", 1, 15⟩ := by
  have made : (ofRecipe (sharingWith climbing)).map (·.program.render true) = .ok "++" := by
    decide +kernel
  obtain ⟨b, done, printed⟩ := map_eq_ok made
  obtain ⟨n, address, agrees⟩ := import_agrees (by decide) done List.mem_cons_self climbing_parsed
    (sharing_written _ 29 31) (fun _ => by simp [Reference.Begins])
  exact ⟨b, n, done, printed, address, agrees⟩

/-- Where the path begins with the name of the program's root, the import means a macro of the
library and the reference one of the program. -/
theorem import_captured :
    (∃ items, Item.parse .extended captured.file captured.text = .ok items ∧
      Item.WrittenIn (.use ⟨0, ["src", "a"]⟩ ⟨"l", 1, 15⟩) ["m"] items) ∧
    ∃ b, ofRecipe (sharingWith captured) = .ok b ∧ b.program.render true = "+-" ∧
      b.tree.address 1 = ["std", "m"] ∧ ¬ b.tree.Agrees 1 ⟨0, ["src", "a"]⟩ ⟨"l", 1, 15⟩ := by
  refine ⟨⟨_, captured_parsed, sharing_written _ 26 28⟩, ?_⟩
  have made : (ofRecipe (sharingWith captured)).map (fun b => (b.program.render true, b.tree.address 1,
      (b.tree.scopes[1]?.bind (·.alias? "a")).map b.tree.aliasTarget,
      b.tree.find 1 ⟨⟨0, ["src", "a"]⟩, false, ⟨"l", 1, 15⟩⟩)) =
      .ok ("+-", ["std", "m"], some (.ok 3), .ok 5) := by
    decide +kernel
  obtain ⟨b, done, shown⟩ := map_eq_ok made
  simp only [Prod.mk.injEq] at shown
  obtain ⟨code, address, imported, found⟩ := shown
  refine ⟨b, done, code, address, ?_⟩
  rintro ⟨s, name, a, m, here, last, bound, -, goal, found'⟩
  obtain rfl := last "a" rfl
  rw [here, Option.bind_some, bound, Option.map_some, goal] at imported
  cases imported
  cases found.symm.trans found'

end Build

end ByteTape
