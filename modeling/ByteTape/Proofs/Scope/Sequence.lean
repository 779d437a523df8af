import Mathlib.Data.List.Sort
import ByteTape.Proofs.Scope.Definitions
import ByteTape.Proofs.Scope.Traversal

/-! # Scopes in the order of their making

A build fills one scope after the other, and while it fills a scope it makes only what lies
below it. So the scopes of trees that come of builds are numbered in the order in which they
are gone through, also if a build broke off.
-/

namespace ByteTape.ScopeTree

variable {t t' t₁ t₂ : ScopeTree} {n m k c : Nat} {name : String} {loc : Option Location}

/-- The numbers follow the order in which scopes are gone through. -/
structure Sequential (t : ScopeTree) : Prop where
  row : ∀ {links : List (String × Nat)}, t.Row links → links.Pairwise fun a b => a.2 < b.2
  /-- The scope made just before a macro is its parent or lies below its parent. -/
  next : ∀ {n k : Nat} {name : String}, t.Named (n + 1) (some (k : Int)) name → t.Encloses k n

theorem Arena.encloses_kept (h : t.Arena) (h' : t'.Arena) (inside : n < t.size) (inside' : m < t.size)
    (kept : ∀ {m : Nat} {p : Option Int} {word : String}, t.Named m p word → t'.Named m p word)
    (encloses : t.Encloses n m) : t'.Encloses n m := by
  rw [Encloses, h.address_kept h' inside kept, h.address_kept h' inside' kept]
  exact encloses

namespace Sequential

theorem encloses_between (h : t.Sequential) (arena : t.Arena) (inside : m < t.size)
    (encloses : t.Encloses n m) (after : n ≤ k) (before : k ≤ m) : t.Encloses n k := by
  induction m with
  | zero =>
      obtain rfl := Nat.le_zero.mp before
      exact encloses
  | succ m ih =>
      obtain rfl | less := Nat.eq_or_lt_of_le before
      · exact encloses
      · obtain same | ⟨p, name, child, above⟩ :=
          arena.encloses_cases (by omega) inside encloses
        · omega
        · exact ih (by omega) (above.trans (h.next child)) (by omega)

theorem arranges_lt (h : t.Sequential) (arena : t.Arena) : t.Arranges (· < ·) where
  down inside inside' encloses different :=
    Nat.lt_of_le_of_ne (arena.le_of_encloses inside inside' encloses) different
  along row := by
    refine (h.row row).imp_of_mem fun {a b} left right order x inside y inside' first second => ?_
    obtain ⟨above, siblings⟩ := arena.siblings row
    have lower := arena.le_of_encloses (siblings.inside b right) inside' second
    by_contra late
    have between := h.encloses_between arena inside first (Nat.le_of_lt order) (by omega)
    have same := (arena.eq_of_encloses row left right between (.refl t b.2)).2
    omega

theorem order_eq (h : t.Sequential) (arena : t.Arena) : t.order = List.range t.size := by
  refine ((h.arranges_lt arena).order arena).eq_of_mem_iff List.pairwise_lt_range fun m => ?_
  rw [arena.mem_order_iff, List.mem_range]

theorem empty : ScopeTree.empty.Sequential where
  row row := by
    cases row with
    | roots => exact .nil
    | children here => simp [ScopeTree.empty] at here
  next := by
    rintro n k name ⟨s, here, -⟩
    simp [ScopeTree.empty] at here

theorem of_addRoot (h : t.Sequential) (arena : t.Arena) (added : t.addRoot name = .ok (t', n)) :
    t'.Sequential := by
  have arena' := arena.of_addRoot added
  have grows := Grows.of_addRoot added
  obtain ⟨-, -, rfl⟩ := addRoot_eq_ok added
  constructor
  · intro links row
    cases row with
    | roots =>
        refine List.pairwise_append.mpr ⟨h.row .roots, List.pairwise_singleton .., ?_⟩
        intro root there new last
        rw [List.mem_singleton.mp last]
        exact arena.root_of_mem there
    | children here =>
        obtain ⟨-, rfl⟩ | old := getElem?_push_eq_some_iff.mp here
        · exact .nil
        · exact h.row (.children old)
  · intro m k other named
    obtain old | ⟨-, parent, -⟩ := named_push_iff.mp named
    · have inside := old.lt_size
      have before := arena.parent_lt old
      exact arena.encloses_kept arena' (by omega) (by omega) grows.named (h.next old)
    · cases parent

theorem of_addMacro (h : t.Sequential) (arena : t.Arena) (last : t.Encloses n (t.size - 1))
    (added : t.addMacro n name loc = .ok (t', c)) : t'.Sequential := by
  have arena' := arena.of_addMacro added
  have grows := Grows.of_addMacro added
  obtain ⟨s, here, -, roots, scopes⟩ := addMacro_cases added
  have inside := lt_size here
  constructor
  · intro links row
    cases row with
    | roots => exact roots ▸ h.row .roots
    | children there =>
        obtain ⟨-, rfl⟩ | ⟨-, rfl⟩ | ⟨-, old⟩ := scopes there
        · exact .nil
        · refine List.pairwise_append.mpr ⟨h.row (.children here), List.pairwise_singleton .., ?_⟩
          intro child there new last
          rw [List.mem_singleton.mp last]
          exact (arena.child_of_mem here there).2
        · exact h.row (.children old)
  · intro m k other named
    have kept {k : Nat} (inside : k < t.size) (inside' : m < t.size) (encloses : t.Encloses k m) :=
      arena.encloses_kept arena' inside inside' grows.named encloses
    obtain old | ⟨new, parent, -⟩ := (named_addMacro_iff added).mp named
    · have inside := old.lt_size
      have before := arena.parent_lt old
      exact kept (by omega) (by omega) (h.next old)
    · have same : n = k := Int.ofNat.inj (Option.some.inj parent)
      rw [← new, Nat.add_sub_cancel] at last
      exact same ▸ kept inside (by omega) last

theorem modify (h : t.Sequential) (arena : t.Arena) {f : Scope → Scope}
    (arena' : (t.modify n f).Arena)
    (same : ∀ s, (f s).name = s.name ∧ (f s).parent = s.parent ∧ (f s).children = s.children) :
    (t.modify n f).Sequential := by
  have named {m : Nat} {p : Option Int} {word : String} :=
    @named_modify_iff t n f (fun s => (same s).2.1) (fun s => (same s).1) m p word
  constructor
  · intro links row
    cases row with
    | roots => exact h.row .roots
    | @children m s here =>
        rw [ScopeTree.modify, Array.getElem?_modify] at here
        split at here
        · obtain ⟨s', old, rfl⟩ := Option.map_eq_some_iff.mp here
          rw [(same s').2.2]
          exact h.row (.children old)
        · exact h.row (.children here)
  · intro m k other there
    have old := named.mp there
    have inside := old.lt_size
    have before := arena.parent_lt old
    exact arena.encloses_kept arena' (by omega) (by omega) named.mpr (h.next old)

end Sequential

/-- Scope `n` is being filled: the last scope is this one or lies below it. -/
structure Filling (t : ScopeTree) (n : Nat) : Prop where
  fits : t.Arena
  sequential : t.Sequential
  inside : n < t.size
  last : t.Encloses n (t.size - 1)

namespace Filling

theorem down (h : t.Filling n) (added : t.addMacro n name loc = .ok (t', c)) : t'.Filling c := by
  obtain ⟨rfl, size⟩ := addMacro_size added
  refine ⟨h.fits.of_addMacro added, h.sequential.of_addMacro h.fits h.last added, by omega, ?_⟩
  rw [size]
  exact .refl t' t.size

theorem up (h : t.Filling n) (added : t.addMacro n name loc = .ok (t₁, c)) (grows : t₁.Grows t₂)
    (below : t₂.Filling c) : t₂.Filling n := by
  obtain ⟨rfl, size⟩ := addMacro_size added
  have larger := grows.size
  have inside := h.inside
  have child : t₂.Named t.size (some (n : Int)) name :=
    grows.named ((named_addMacro_iff added).mpr (.inr ⟨rfl, rfl, rfl⟩))
  exact ⟨below.fits, below.sequential, by omega, (below.fits.encloses_child child).trans below.last⟩

theorem modify (h : t.Filling n) {f : Scope → Scope} (arena' : (t.modify m f).Arena)
    (same : ∀ s, (f s).name = s.name ∧ (f s).parent = s.parent ∧ (f s).children = s.children) :
    (t.modify m f).Filling n := by
  have inside := h.inside
  have kept {k : Nat} {p : Option Int} {word : String} :=
    (@named_modify_iff t m f (fun s => (same s).2.1) (fun s => (same s).1) k p word).mpr
  refine ⟨arena', h.sequential.modify h.fits arena' same, ?_, ?_⟩
  · rwa [modify_size]
  · rw [modify_size]
    exact h.fits.encloses_kept arena' inside (by omega) kept h.last

theorem store (h : t.Filling n) (m : Nat) (own : List Item) : (t.store m own).Filling n :=
  h.modify (h.fits.stored m own) fun _ => ⟨rfl, rfl, rfl⟩

theorem bindAlias (h : t.Filling n) {target : Nat} {a : Alias} {path : Path} {loc : Location}
    (found : t.findImport n path loc = .ok target) (bound : t.bindAlias n target loc = .ok (t', a)) :
    t'.Filling n := by
  obtain ⟨goal, there, kind⟩ := find_macro (findImport_eq_ok_iff.mp found)
  have arena' := h.fits.of_bindAlias (by rw [there]; exact kind) bound
  obtain ⟨m, _, _, -, -, -, -, -, rfl⟩ := bindAlias_eq_ok bound
  exact h.modify arena' fun _ => ⟨rfl, rfl, rfl⟩

theorem collect (t : ScopeTree) (n : Nat) (items : List Item) (h : t.Filling n) :
    (t.collect n items).1.Filling n := by
  fun_induction ScopeTree.collect t n items with
  | case1 | case2 | case5 | case6 => exact h
  | case3 t n name body loc items t₁ child added t₂ e collected ih =>
      have first := h.down added
      have grows := (Grown.of_collect t₁ child body first.fits.upright).grows
      have below := ih first
      rw [collected] at grows below
      exact h.up added grows below
  | case4 t n name body loc items t₁ child added t₂ own collected ihBody ihItems =>
      have first := h.down added
      have grows := (Grown.of_collect t₁ child body first.fits.upright).grows
      have below := ihBody first
      rw [collected] at grows below
      exact ihItems ((h.up added grows below).store child own)
  | case7 t n path loc items target found t₁ a bound ih => exact ih (h.bindAlias found bound)
  | case8 t n item items _ _ t₁ e collected ih | case9 t n item items _ _ t₁ own collected ih =>
      rw [collected] at ih
      exact ih h

end Filling

theorem Sequential.of_build (h : t.Sequential) (arena : t.Arena) (root : String) (items : List Item) :
    (t.build root items).1.Sequential := by
  obtain same | ⟨t₁, n, added, same⟩ := build_cases t root items
  · rw [same]
    exact h
  · have start : t₁.Filling n := by
      refine ⟨arena.of_addRoot added, h.of_addRoot arena added, ?_, ?_⟩
      · obtain ⟨-, rfl, rfl⟩ := addRoot_eq_ok added
        simp [ScopeTree.size]
      · obtain ⟨-, rfl, rfl⟩ := addRoot_eq_ok added
        simp [ScopeTree.size, Encloses]
    have done := Filling.collect t₁ n items start
    obtain same | ⟨own, -, same⟩ := same
    · rw [same]
      exact done.sequential
    · rw [same]
      exact (done.store n own).sequential

theorem Loaded.reached (h : t.Loaded) : t.Reached := by
  induction h with
  | empty => exact .empty
  | @load t before dialect root source ih =>
      cases parsed : Item.parse dialect source.file source.text with
      | error e => rwa [load_of_parse_error parsed]
      | ok items =>
          rw [load_of_parse parsed]
          exact .grow (g := .build root items) ih trivial

theorem Loaded.sequential (h : t.Loaded) : t.Sequential := by
  induction h with
  | empty => exact .empty
  | @load t before dialect root source ih =>
      cases parsed : Item.parse dialect source.file source.text with
      | error e => rwa [load_of_parse_error parsed]
      | ok items =>
          rw [load_of_parse parsed]
          exact ih.of_build before.reached.fits root items

/-- In a tree that comes of texts the scopes are gone through by their numbers, each of them
once, and a text that can be loaded adds its root and then a scope for each definition, as they
stand in the text. A tree that was grown in any other way is gone through whole as well. -/
theorem visited_in_order :
    (∀ t : ScopeTree, t.Loaded →
      t.Visits (t.roots.map Prod.snd) t.order ∧ t.order = List.range t.size ∧
        ∀ dialect root source t', t.load dialect root source = (t', .ok ()) →
          t.Within t' ∧ ∃ tokens items s rest,
            Item.tokens dialect source.file source.text = .ok tokens ∧
            Item.ofTokens tokens = .ok items ∧ t'.scopes.toList.drop t.size = s :: rest ∧
            s.name = root ∧ s.parent = none ∧ s.body = some (Item.own items) ∧
            List.Forall₂ Scope.Defined rest (Item.definitions t.size (t.size + 1) items) ∧
            (Item.definitions t.size (t.size + 1) items).map (fun d => (d.name, d.loc)) =
              tokens.filterMap Token.definition?) ∧
    ∀ t : ScopeTree, t.Reached →
      t.Visits (t.roots.map Prod.snd) t.order ∧ t.order.Perm (List.range t.size) := by
  constructor
  · intro t loaded
    have arena := loaded.reached.fits
    refine ⟨arena.visits_order, loaded.sequential.order_eq arena, ?_⟩
    intro dialect root source t' done
    obtain ⟨items, parsed, built⟩ := load_eq_ok_iff.mp done
    obtain ⟨tokens, scanned, read⟩ := Item.exists_tokens_of_parse parsed
    obtain ⟨s, rest, added, name, parent, body, defined⟩ := build_defined built
    have kept := Within.of_build t root items
    rw [built] at kept
    exact ⟨kept, tokens, items, s, rest, scanned, read, added, name, parent, body, defined,
      (Item.reads_of_tokens scanned read).definitions_eq _ _⟩
  · intro t reached
    exact ⟨reached.fits.visits_order, reached.fits.order_perm⟩

/-- A text that breaks off at a name that is taken, -/
def abandoned : Source := ⟨"l", ":a\x7b:b\x7b\x7d\x7d:a\x7b\x7d"⟩

/-- and what is left of it. -/
def remains : ScopeTree where
  scopes := #[⟨0, "lib", none, none, [("a", 1)], [], none⟩,
    ⟨1, "a", some 0, some ⟨"l", 1, 1⟩, [("b", 2)], [], some []⟩,
    ⟨2, "b", some 1, some ⟨"l", 1, 4⟩, [], [], some []⟩]
  roots := [("lib", 0)]

private theorem abandoned_loaded : (ScopeTree.empty.load .extended "lib" abandoned).1 = remains := by
  decide +kernel

/-- A text that is loaded after it and imports from what was left, -/
def resuming : Source := ⟨"m", ":c\x7b+:d\x7b\x7d-\x7duse #lib/a"⟩

/-- and both of them. -/
def resumed : ScopeTree where
  scopes := #[⟨0, "lib", none, none, [("a", 1)], [], none⟩,
    ⟨1, "a", some 0, some ⟨"l", 1, 1⟩, [("b", 2)], [], some []⟩,
    ⟨2, "b", some 1, some ⟨"l", 1, 4⟩, [], [], some []⟩,
    ⟨3, "main", none, none, [("c", 4)], [("a", ⟨some 0, "a", ⟨"m", 1, 11⟩⟩)], some []⟩,
    ⟨4, "c", some 3, some ⟨"m", 1, 1⟩, [("d", 5)], [],
      some [.op .increment ⟨"m", 1, 4⟩, .op .decrement ⟨"m", 1, 9⟩]⟩,
    ⟨5, "d", some 4, some ⟨"m", 1, 5⟩, [], [], some []⟩]
  roots := [("lib", 0), ("main", 3)]

private theorem resuming_loaded :
    remains.load .extended "main" resuming = (resumed, .ok ()) := by
  decide +kernel

theorem visited_in_order_resumed :
    remains.Loaded ∧ remains.load .extended "main" resuming = (resumed, .ok ()) ∧
      remains.order = List.range 3 ∧ resumed.order = List.range 6 ∧
      (∃ tokens items s rest, Item.tokens .extended resuming.file resuming.text = .ok tokens ∧
        Item.ofTokens tokens = .ok items ∧ resumed.scopes.toList.drop 3 = s :: rest ∧
        List.Forall₂ Scope.Defined rest (Item.definitions 3 4 items) ∧
        (Item.definitions 3 4 items).map (fun d => (d.name, d.loc)) =
          tokens.filterMap Token.definition?) ∧
      (resumed.grow (.child 1 "e" none)).Reached ∧
      (resumed.grow (.child 1 "e" none)).order.Perm (List.range 7) ∧
      (resumed.grow (.child 1 "e" none)).order = [0, 1, 2, 6, 3, 4, 5] := by
  have loaded : remains.Loaded := abandoned_loaded ▸ .load .empty .extended "lib" abandoned
  have loaded' : resumed.Loaded := by
    have after := loaded.load .extended "main" resuming
    rwa [resuming_loaded] at after
  obtain ⟨texts, grown⟩ := visited_in_order
  obtain ⟨-, first, adds⟩ := texts remains loaded
  obtain ⟨-, second, -⟩ := texts resumed loaded'
  obtain ⟨-, tokens, items, s, rest, scanned, read, added, -, -, -, defined, opened⟩ :=
    adds _ _ _ _ resuming_loaded
  have by_hand : (resumed.grow (.child 1 "e" none)).Reached := .grow loaded'.reached trivial
  exact ⟨loaded, resuming_loaded, first, second,
    ⟨tokens, items, s, rest, scanned, read, added, defined, opened⟩,
    by_hand, (grown _ by_hand).2, by decide +kernel⟩

end ByteTape.ScopeTree
