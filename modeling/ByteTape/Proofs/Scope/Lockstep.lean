import ByteTape.Proofs.Scope.Collects

/-! # Builds in lockstep

The same items can be declared in two trees of which the second has all that the first
has, and more. What is added to both keeps the distance between the numbers, and what
only the second tree has is never in the way, as long as its names are not bound by the
items and no path begins at a root that only the second tree has.
-/

namespace ByteTape

theorem lookup_append_map {β : Type} {g : β → β} {word : String} {list list' : List (String × β)}
    (old : list'.lookup word = (list.lookup word).map g) (name : String) (value : β) :
    (list' ++ [(name, g value)]).lookup word = ((list ++ [(name, value)]).lookup word).map g := by
  by_cases same : word = name
  · subst same
    simp [List.lookup_append, old]
  · rw [lookup_append_of_ne same, lookup_append_of_ne same, old]

/-- A number in a tree, when scope `n` has become scope `f n`. -/
def renumber (f : Nat → Nat) (i : Int) : Int := f i.toNat

def Alias.renumber (f : Nat → Nat) (a : Alias) : Alias :=
  { a with scope := a.scope.map (ByteTape.renumber f) }

/-- What scope `s` is in the other tree. There it may give a meaning to `extra` names. -/
structure Scope.Follows (f : Nat → Nat) (extra : String → Prop) (s s' : Scope) : Prop where
  name : s'.name = s.name
  parent : s'.parent = s.parent.map (renumber f)
  body : s'.body = s.body
  child : ∀ {word : String}, ¬ extra word → s'.child? word = (s.child? word).map f
  imported : ∀ {word : String}, ¬ extra word →
    s'.alias? word = (s.alias? word).map (Alias.renumber f)

namespace Scope.Follows

variable {f : Nat → Nat} {extra : String → Prop} {s s' : Scope}

theorem binds (h : Follows f extra s s') {word : String} (known : ¬ extra word) :
    s'.binds word = s.binds word := by
  rw [Scope.binds, Scope.binds, h.child known, h.imported known, Option.isSome_map, Option.isSome_map]

theorem add_child (h : Follows f extra s s') (name : String) (n : Nat) :
    Follows f extra { s with children := s.children ++ [(name, n)] }
      { s' with children := s'.children ++ [(name, f n)] } :=
  ⟨h.name, h.parent, h.body, fun known => lookup_append_map (h.child known) name n, h.imported⟩

theorem add_import (h : Follows f extra s s') (name : String) (a : Alias) :
    Follows f extra { s with aliases := s.aliases ++ [(name, a)] }
      { s' with aliases := s'.aliases ++ [(name, a.renumber f)] } :=
  ⟨h.name, h.parent, h.body, h.child, fun known => lookup_append_map (h.imported known) name a⟩

theorem store (h : Follows f extra s s') (own : List Item) :
    Follows f extra { s with body := some own } { s' with body := some own } :=
  ⟨h.name, h.parent, rfl, h.child, h.imported⟩

end Scope.Follows

namespace ScopeTree

/-- The tree `t'` is `t` with other numbers, and with `spare` names in some scopes and, under
`none`, among the roots. Scopes that are added to both trees have the numbers they should. -/
structure Lockstep (f : Nat → Nat) (spare : Option Nat → String → Prop) (t t' : ScopeTree) : Prop where
  next : ∀ i, f (t.size + i) = t'.size + i
  injective : Function.Injective f
  scope : ∀ {n : Nat} {s : Scope}, t.scopes[n]? = some s →
    ∃ s', t'.scopes[f n]? = some s' ∧ s.Follows f (spare (some n)) s'
  root : ∀ {name : String}, ¬ spare none name → t'.rootIndex? name = (t.rootIndex? name).map f

/-- The spare names have no meaning in the tree. -/
structure Avoids (spare : Option Nat → String → Prop) (t : ScopeTree) : Prop where
  scope : ∀ {n : Nat} {s : Scope} {word : String}, t.scopes[n]? = some s → s.binds word →
    ¬ spare (some n) word
  root : ∀ {n : Nat} {name : String}, t.rootIndex? name = some n → ¬ spare none name

/-- The path does not begin with a spare name of a root. -/
def Clear (spare : Option Nat → String → Prop) (path : Path) : Prop :=
  path.up = 0 → ∀ name ∈ path.steps.head?, ¬ spare none name

variable {f : Nat → Nat} {spare : Option Nat → String → Prop} {t t' t₁ : ScopeTree}

theorem Grows.avoids (grows : t.Grows t₁) (h : t₁.Avoids spare) : t.Avoids spare := by
  refine ⟨fun {n s word} here bound => ?_, fun known => h.root (grows.root known)⟩
  obtain ⟨s', here', keeps⟩ := grows.scope here
  exact h.scope here' (keeps.binds bound)

theorem Avoids.of_not_free (h : t.Avoids spare) {n : Nat} {name : String} (taken : ¬ t.Free n name) :
    ¬ spare (some n) name := by
  intro extra
  exact taken fun s here bound => h.scope here bound extra

theorem Avoids.of_store {n : Nat} {own : List Item} (h : (t.store n own).Avoids spare) :
    t.Avoids spare := by
  refine ⟨fun {k s word} here bound => ?_, h.root⟩
  have taken : ¬ t.Free k word := fun free => free s here bound
  exact h.of_not_free fun free => taken (free_store_iff.mp free)

theorem addRoot_of_new {name : String} (new : t.rootIndex? name = none) :
    t.addRoot name = .ok (⟨t.scopes.push ⟨t.size, name, none, none, [], [], none⟩,
      t.roots ++ [(name, t.size)]⟩, t.size) := by
  simp only [addRoot, new]

theorem bindAlias_of_free {n target : Nat} {s goal : Scope} {loc : Location}
    (here : t.scopes[n]? = some s) (there : t.scopes[target]? = some goal)
    (fresh : ¬ s.binds goal.name) :
    t.bindAlias n target loc =
      .ok (t.modify n fun s =>
        { s with aliases := s.aliases ++ [(goal.name, ⟨goal.parent, goal.name, loc⟩)] },
        ⟨goal.parent, goal.name, loc⟩) := by
  have place := position?_natCast (lt_size here)
  simp [bindAlias, position, place, ScopeTree.scope, here, there, fresh, bind, Except.bind, pure,
    Except.pure]

namespace Lockstep

theorem position (h : Lockstep f spare t t') {n : Nat} (inside : n < t.size) :
    t'.position? (f n : Int) = some (f n) := by
  obtain ⟨s, here⟩ := exists_scope inside
  obtain ⟨s', here', -⟩ := h.scope here
  exact position?_natCast (lt_size here')

theorem aliasTarget (h : Lockstep f spare t t') (avoids : t.Avoids spare) {a : Alias} {m : Nat}
    (positive : ∀ {i : Int}, a.scope = some i → 0 ≤ i) (goal : t.aliasTarget a = .ok m) :
    t'.aliasTarget (a.renumber f) = .ok (f m) := by
  obtain ⟨i, k, holder, held, place, there, named⟩ := aliasTarget_eq_ok_iff.mp goal
  obtain ⟨i, rfl⟩ := Int.eq_ofNat_of_zero_le (positive held)
  obtain rfl := position?_eq_self place
  obtain ⟨holder', there', follows⟩ := h.scope there
  have taken : holder.binds a.name := by simp [Scope.binds, named]
  have known := avoids.scope there taken
  refine aliasTarget_eq_ok_iff.mpr ⟨f i, f i, holder', ?_, h.position (lt_size there), there', ?_⟩
  · simp [Alias.renumber, held, renumber]
  · rw [Alias.renumber, follows.child known, named, Option.map_some]

/-- What leads to a macro in the first tree leads to its counterpart in the second. -/
theorem mirrors (h : Lockstep f spare t t') (up : t.Upright) (avoids : t.Avoids spare) :
    Mirrors f t t' where
  scope here := by
    obtain ⟨s', here', follows⟩ := h.scope here
    exact ⟨s', here', by rw [Scope.isMacro, follows.parent, Option.isSome_map, Scope.isMacro]⟩
  above := by
    rintro n m ⟨s, i, here, parent, place⟩
    obtain ⟨s', here', follows⟩ := h.scope here
    obtain ⟨i, rfl⟩ := Int.eq_ofNat_of_zero_le ((up.scope here).parent parent)
    obtain rfl := position?_eq_self place
    refine ⟨s', f i, here', ?_, h.position (position?_lt place)⟩
    rw [follows.parent, parent, Option.map_some, renumber, Int.toNat_natCast]
  imports := by
    rintro n m name ⟨s, a, here, bound, goal⟩
    obtain ⟨s', here', follows⟩ := h.scope here
    have taken : s.binds name := by simp [Scope.binds, bound]
    have known := avoids.scope here taken
    refine ⟨s', a.renumber f, here', by rw [follows.imported known, bound, Option.map_some], ?_⟩
    exact h.aliasTarget avoids ((up.scope here).holder bound) goal
  nests := by
    rintro n m name ⟨s, here, free, named⟩
    obtain ⟨s', here', follows⟩ := h.scope here
    have taken : s.binds name := by simp [Scope.binds, named]
    have known := avoids.scope here taken
    exact ⟨s', here', by rw [follows.imported known, free, Option.map_none],
      by rw [follows.child known, named, Option.map_some]⟩
  root known := by rw [h.root (avoids.root known), known, Option.map_some]

theorem shields (h : Lockstep f spare t t') {path : Path} (clear : Clear spare path) :
    t.Shields t' path := by
  intro level name first unknown
  rw [h.root (clear level name first), unknown, Option.map_none]

theorem find (h : Lockstep f spare t t') (up : t.Upright) (avoids : t.Avoids spare) {n m : Nat}
    {ref : Reference} (clear : Clear spare ref.path) (found : t.find n ref = .ok m) :
    t'.find (f n) ref = .ok (f m) :=
  (h.mirrors up avoids).find rfl (h.shields clear) found

theorem modify (h : Lockstep f spare t t') (n : Nat) {g g' : Scope → Scope}
    (same : ∀ {s s' : Scope}, s.Follows f (spare (some n)) s' → (g s).Follows f (spare (some n)) (g' s')) :
    Lockstep f spare (t.modify n g) (t'.modify (f n) g') := by
  refine ⟨fun i => by rw [modify_size, modify_size]; exact h.next i, h.injective,
    fun {k} {s} here => ?_, h.root⟩
  by_cases equal : k = n
  · subst equal
    rw [ScopeTree.modify, Array.getElem?_modify, if_pos rfl, Option.map_eq_some_iff] at here
    obtain ⟨old, there, rfl⟩ := here
    obtain ⟨old', there', follows⟩ := h.scope there
    refine ⟨g' old', ?_, same follows⟩
    rw [ScopeTree.modify, Array.getElem?_modify, if_pos rfl, there', Option.map_some]
  · rw [modify_old g equal] at here
    obtain ⟨s', here', follows⟩ := h.scope here
    exact ⟨s', by rwa [modify_old g' fun same => equal (h.injective same)], follows⟩

theorem push (h : Lockstep f spare t t') {s s' : Scope} {roots roots' : List (String × Nat)}
    (follows : s.Follows f (spare (some t.size)) s')
    (named : ∀ {name : String}, ¬ spare none name → roots'.lookup name = (roots.lookup name).map f) :
    Lockstep f spare ⟨t.scopes.push s, roots⟩ ⟨t'.scopes.push s', roots'⟩ := by
  refine ⟨fun i => ?_, h.injective, fun {k} {old} here => ?_, named⟩
  · have next := h.next (1 + i)
    simp only [ScopeTree.size, Array.size_push, Nat.add_assoc] at next ⊢
    exact next
  · obtain ⟨rfl, rfl⟩ | here := getElem?_push_eq_some_iff.mp here
    · exact ⟨s', getElem?_push_eq_some_iff.mpr (.inl ⟨h.next 0, rfl⟩), follows⟩
    · obtain ⟨old', here', follows'⟩ := h.scope here
      exact ⟨old', getElem?_push_eq_some_iff.mpr (.inr here'), follows'⟩

variable {n c : Nat} {name : String} {loc : Option Location}

theorem addRoot (h : Lockstep f spare t t') (known : ¬ spare none name)
    (added : t.addRoot name = .ok (t₁, c)) :
    ∃ t₁', t'.addRoot name = .ok (t₁', f c) ∧ Lockstep f spare t₁ t₁' := by
  obtain ⟨new, rfl, rfl⟩ := addRoot_eq_ok added
  have new' : t'.rootIndex? name = none := by rw [h.root known, new, Option.map_none]
  have next : f t.size = t'.size := h.next 0
  rw [next]
  refine ⟨_, addRoot_of_new new', ?_⟩
  refine h.push ⟨rfl, rfl, rfl, fun _ => rfl, fun _ => rfl⟩ fun {other} known' => ?_
  rw [← next]
  exact lookup_append_map (h.root known') name t.size

theorem addMacro (h : Lockstep f spare t t') (known : ¬ spare (some n) name)
    (added : t.addMacro n name loc = .ok (t₁, c)) :
    ∃ t₁', t'.addMacro (f n) name loc = .ok (t₁', f c) ∧ Lockstep f spare t₁ t₁' := by
  obtain ⟨m, s, place, here, fresh, rfl, rfl⟩ := addMacro_eq_ok added
  obtain rfl := position?_eq_self place
  obtain ⟨s', here', follows⟩ := h.scope here
  have next : f t.size = t'.size := h.next 0
  have fresh' : ¬ s'.binds name := by rwa [follows.binds known]
  rw [next]
  refine ⟨_, addMacro_of_free here' fresh', ?_⟩
  have filled := h.modify n (fun old => old.add_child name t.size)
  rw [next] at filled
  exact filled.push ⟨rfl, rfl, rfl, fun _ => rfl, fun _ => rfl⟩ h.root

theorem bindAlias (h : Lockstep f spare t t') (avoids : t₁.Avoids spare) {target : Nat} {loc : Location}
    {a : Alias} (bound : t.bindAlias n target loc = .ok (t₁, a)) :
    ∃ t₁', t'.bindAlias (f n) (f target) loc = .ok (t₁', a.renumber f) ∧ Lockstep f spare t₁ t₁' := by
  obtain ⟨m, s, goal, place, here, there, fresh, rfl, rfl⟩ := bindAlias_eq_ok bound
  obtain rfl := position?_eq_self place
  obtain ⟨s', here', follows⟩ := h.scope here
  obtain ⟨goal', there', follows'⟩ := h.scope there
  -- after the import the name has a meaning in the first tree, so it is not a spare one
  have known : ¬ spare (some n) goal.name := by
    refine avoids.scope (n := n) (by rw [ScopeTree.modify, Array.getElem?_modify, if_pos rfl, here,
      Option.map_some]) ?_
    simp [Scope.binds, Scope.alias?, List.lookup_append]
  have fresh' : ¬ s'.binds goal'.name := by rwa [follows'.name, follows.binds known]
  have made : t'.bindAlias (f n) (f target) loc = _ := bindAlias_of_free here' there' fresh'
  rw [follows'.name, follows'.parent] at made
  exact ⟨_, made, h.modify n fun old => old.add_import goal.name ⟨goal.parent, goal.name, loc⟩⟩

theorem store (h : Lockstep f spare t t') (n : Nat) (own : List Item) :
    Lockstep f spare (t.store n own) (t'.store (f n) own) :=
  h.modify n fun old => old.store own

/-- What can be declared in the first tree can be declared in the second, with the same items
left. -/
theorem collects {items own : List Item} (h : Lockstep f spare t t')
    (done : Collects t n items t₁ own) (up : t.Upright) (avoids : t₁.Avoids spare)
    (clear : ∀ ref ∈ Item.mentionsOf items, Clear spare ref.path) :
    ∃ t₁', Collects t' (f n) items t₁' own ∧ Lockstep f spare t₁ t₁' := by
  induction done generalizing t' with
  | nil => exact ⟨t', .nil t' _, h⟩
  | @define t _ t₂ _ n c name loc body items inner own added below rest ihBelow ihRest =>
      simp only [Item.mentionsOf, Item.mentions, List.forall_mem_append] at clear
      have first := Grown.of_addMacro up added
      have second := below.grown first.upright
      have new : t.size ≤ c := Nat.le_of_eq (addMacro_size added).1.symm
      have stored := (first.trans second).stored new inner
      have avoids₂ := ((rest.grown stored.upright).grows.avoids avoids).of_store
      have known := (second.grows.avoids avoids₂).of_not_free (not_free_of_addMacro added)
      obtain ⟨t₁', added', h₁⟩ := h.addMacro known added
      obtain ⟨t₂', below', h₂⟩ := ihBelow h₁ first.upright avoids₂ clear.1
      obtain ⟨t₃', rest', h₃⟩ := ihRest (h₂.store c inner) stored.upright avoids clear.2
      exact ⟨t₃', .define added' below' rest', h₃⟩
  | use found bound rest ih =>
      simp only [Item.mentionsOf, Item.mentions, List.forall_mem_append, List.forall_mem_singleton] at clear
      have first := Grown.of_bindAlias up bound
      have avoids₁ := (rest.grown first.upright).grows.avoids avoids
      have found' := h.find up (first.grows.avoids avoids₁) clear.1 (findImport_eq_ok_iff.mp found)
      obtain ⟨t₁', bound', h₁⟩ := h.bindAlias avoids₁ bound
      obtain ⟨t₂', rest', h₂⟩ := ih h₁ first.upright avoids clear.2
      exact ⟨t₂', .use (findImport_eq_ok_iff.mpr found') bound' rest', h₂⟩
  | plain kind _ ih =>
      simp only [Item.mentionsOf, List.forall_mem_append] at clear
      obtain ⟨t₁', rest', h₁⟩ := ih h up avoids clear.2
      exact ⟨t₁', .plain kind rest', h₁⟩

theorem build {items : List Item} {root : String} (h : Lockstep f spare t t')
    (built : t.build root items = (t₁, .ok ())) (up : t.Upright) (avoids : t₁.Avoids spare)
    (clear : ∀ ref ∈ Item.mentionsOf items, Clear spare ref.path) :
    ∃ t₁', t'.build root items = (t₁', .ok ()) ∧ Lockstep f spare t₁ t₁' := by
  have known := rootIndex?_of_build up (congrArg Prod.snd built)
  rw [built] at known
  obtain ⟨t₂, c, t₃, own, added, done, rfl⟩ := build_eq_ok_iff.mp built
  obtain ⟨t₂', added', h₂⟩ := h.addRoot (avoids.root known) added
  obtain ⟨t₃', done', h₃⟩ := h₂.collects done (Grown.of_addRoot up added).upright avoids.of_store clear
  exact ⟨_, build_eq_ok_iff.mpr ⟨t₂', f c, t₃', own, added', done', rfl⟩, h₃.store c own⟩

end Lockstep

end ScopeTree

end ByteTape
