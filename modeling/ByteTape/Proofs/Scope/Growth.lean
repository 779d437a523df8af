import Mathlib.Data.List.Basic
import ByteTape.Proofs.Scope.Mirror
import ByteTape.Scope.Build

/-! # Growing trees

A tree of scopes only grows: whatever is done to it, the scopes that were there
keep their name, parent and body, and every name that had a meaning in a scope
keeps it. So a path that led to a macro goes on leading there, unless its first
step has become the name of a root.

That a tree is upright means that no number in it counts from the end. Such a
number would change its meaning as the tree grows.
-/

namespace ByteTape

theorem lookup_append_of_ne {β : Type} {name other : String} (different : other ≠ name) (value : β)
    (list : List (String × β)) : (list ++ [(name, value)]).lookup other = list.lookup other := by
  simp only [List.lookup_append, List.lookup_cons, List.lookup_nil, beq_false_of_ne different,
    Option.or_none]

/-- What becomes of a scope when its tree grows. -/
structure Scope.Keeps (s s' : Scope) : Prop where
  name : s'.name = s.name
  parent : s'.parent = s.parent
  body : s'.body = s.body
  child : ∀ {name : String}, s.binds name → s'.child? name = s.child? name
  imported : ∀ {name : String}, s.binds name → s'.alias? name = s.alias? name

namespace Scope.Keeps

theorem refl (s : Scope) : s.Keeps s := ⟨rfl, rfl, rfl, fun _ => rfl, fun _ => rfl⟩

theorem binds {s s' : Scope} (h : s.Keeps s') {name : String} (bound : s.binds name) :
    s'.binds name := by
  rw [Scope.binds, h.child bound, h.imported bound]
  exact bound

theorem trans {s s' s'' : Scope} (first : s.Keeps s') (second : s'.Keeps s'') : s.Keeps s'' :=
  ⟨second.name.trans first.name, second.parent.trans first.parent, second.body.trans first.body,
    fun bound => (second.child (first.binds bound)).trans (first.child bound),
    fun bound => (second.imported (first.binds bound)).trans (first.imported bound)⟩

theorem child_added {s : Scope} {name : String} (n : Nat) (fresh : ¬ s.binds name) :
    s.Keeps { s with children := s.children ++ [(name, n)] } := by
  refine ⟨rfl, rfl, rfl, fun {other} bound => ?_, fun _ => rfl⟩
  have different : other ≠ name := fun same => fresh (same ▸ bound)
  exact lookup_append_of_ne different _ _

theorem import_added {s : Scope} {name : String} (a : Alias) (fresh : ¬ s.binds name) :
    s.Keeps { s with aliases := s.aliases ++ [(name, a)] } := by
  refine ⟨rfl, rfl, rfl, fun _ => rfl, fun {other} bound => ?_⟩
  have different : other ≠ name := fun same => fresh (same ▸ bound)
  exact lookup_append_of_ne different _ _

end Scope.Keeps

/-- No number in the scope counts from the end. -/
structure Scope.Upright (s : Scope) : Prop where
  parent : ∀ {i : Int}, s.parent = some i → 0 ≤ i
  holder : ∀ {name : String} {a : Alias} {i : Int}, s.alias? name = some a → a.scope = some i → 0 ≤ i

theorem Scope.Upright.new {n : Nat} {name : String} {parent : Option Int} {loc : Option Location}
    (positive : ∀ {i : Int}, parent = some i → 0 ≤ i) :
    Scope.Upright ⟨n, name, parent, loc, [], [], none⟩ :=
  ⟨positive, fun none => (by cases none)⟩

theorem Scope.Upright.bind {s goal : Scope} (old : s.Upright) (other : goal.Upright)
    (loc : Location) :
    Scope.Upright { s with aliases := s.aliases ++ [(goal.name, ⟨goal.parent, goal.name, loc⟩)] } := by
  refine ⟨old.parent, fun {name} {a} {i} bound held => ?_⟩
  simp only [Scope.alias?, List.lookup_append, List.lookup_cons, List.lookup_nil,
    Option.or_eq_some_iff] at bound
  obtain bound | ⟨-, bound⟩ := bound
  · exact old.holder bound held
  · split at bound
    · cases bound
      exact other.parent held
    · cases bound

namespace ScopeTree

/-- The tree `t'` has everything that `t` has. -/
structure Grows (t t' : ScopeTree) : Prop where
  size : t.size ≤ t'.size
  scope : ∀ {n : Nat} {s : Scope}, t.scopes[n]? = some s →
    ∃ s', t'.scopes[n]? = some s' ∧ s.Keeps s'
  root : ∀ {name : String} {n : Nat}, t.rootIndex? name = some n → t'.rootIndex? name = some n

/-- Every scope of the tree is of this kind. -/
structure Every (kind : Scope → Prop) (t : ScopeTree) : Prop where
  scope : ∀ {n : Nat} {s : Scope}, t.scopes[n]? = some s → kind s

/-- No number in the tree counts from the end. -/
abbrev Upright (t : ScopeTree) : Prop := t.Every Scope.Upright

theorem lt_size {t : ScopeTree} {n : Nat} {s : Scope} (h : t.scopes[n]? = some s) : n < t.size :=
  (Array.getElem?_eq_some_iff.mp h).1

theorem exists_scope {t : ScopeTree} {n : Nat} (inside : n < t.size) : ∃ s, t.scopes[n]? = some s :=
  ⟨_, Array.getElem?_eq_getElem inside⟩

namespace Grows

variable {t t' t'' : ScopeTree}

theorem refl (t : ScopeTree) : t.Grows t := ⟨Nat.le_refl _, fun h => ⟨_, h, .refl _⟩, id⟩

theorem trans (first : t.Grows t') (second : t'.Grows t'') : t.Grows t'' := by
  refine ⟨Nat.le_trans first.size second.size, fun h => ?_, fun h => second.root (first.root h)⟩
  obtain ⟨s', h', keeps⟩ := first.scope h
  obtain ⟨s'', h'', keeps'⟩ := second.scope h'
  exact ⟨s'', h'', keeps.trans keeps'⟩

theorem position (h : t.Grows t') {i : Int} {n : Nat} (up : 0 ≤ i) (found : t.position? i = some n) :
    t'.position? i = some n := by
  have size := h.size
  simp only [position?, up, if_true] at found ⊢
  split at found
  · rw [if_pos (by omega)]
    exact found
  · cases found

theorem modify_new (h : t.Grows t') {n : Nat} (new : t.size ≤ n) (f : Scope → Scope) :
    t.Grows (t'.modify n f) := by
  refine ⟨by simpa only [ScopeTree.modify, ScopeTree.size, Array.size_modify] using h.size,
    fun {m} {s} found => ?_, h.root⟩
  obtain ⟨s', found', keeps⟩ := h.scope found
  have old := lt_size found
  refine ⟨s', ?_, keeps⟩
  rw [ScopeTree.modify, Array.getElem?_modify, if_neg (by omega), found']

theorem aliasTarget (h : t.Grows t') (up : t.Upright) {n m : Nat} {s : Scope} {name : String}
    {a : Alias} (here : t.scopes[n]? = some s) (bound : s.alias? name = some a)
    (goal : t.aliasTarget a = .ok m) : t'.aliasTarget a = .ok m := by
  obtain ⟨i, k, holder, held, place, there, named⟩ := aliasTarget_eq_ok_iff.mp goal
  obtain ⟨holder', there', keeps⟩ := h.scope there
  have named' : holder'.child? a.name = some m := by
    rw [keeps.child (by simp [Scope.binds, named]), named]
  exact aliasTarget_eq_ok_iff.mpr
    ⟨i, k, holder', held, h.position ((up.scope here).holder bound held) place, there', named'⟩

theorem mirrors (h : t.Grows t') (up : t.Upright) : Mirrors id t t' where
  scope here := by
    obtain ⟨s', here', keeps⟩ := h.scope here
    exact ⟨s', here', by rw [Scope.isMacro, keeps.parent, Scope.isMacro]⟩
  above := by
    rintro n m ⟨s, i, here, parent, place⟩
    obtain ⟨s', here', keeps⟩ := h.scope here
    exact ⟨s', i, here', keeps.parent.trans parent, h.position ((up.scope here).parent parent) place⟩
  imports := by
    rintro n m name ⟨s, a, here, bound, goal⟩
    obtain ⟨s', here', keeps⟩ := h.scope here
    have bound' : s'.alias? name = some a := by
      rw [keeps.imported (by simp [Scope.binds, bound]), bound]
    exact ⟨s', a, here', bound', h.aliasTarget up here bound goal⟩
  nests := by
    rintro n m name ⟨s, here, free, named⟩
    obtain ⟨s', here', keeps⟩ := h.scope here
    have taken : s.binds name := by simp [Scope.binds, named]
    exact ⟨s', here', (keeps.imported taken).trans free, (keeps.child taken).trans named⟩
  root := h.root

/-- What a path led to it still leads to, unless its first step is the name of a
root that is new. -/
theorem find (h : t.Grows t') (up : t.Upright) {ref : Reference} {n m : Nat}
    (shielded : t.Shields t' ref.path) (found : t.find n ref = .ok m) : t'.find n ref = .ok m :=
  (h.mirrors up).find rfl shielded found

end Grows

theorem addRoot_eq_ok {t t' : ScopeTree} {name : String} {n : Nat}
    (h : t.addRoot name = .ok (t', n)) : t.rootIndex? name = none ∧ n = t.size ∧
      t' = ⟨t.scopes.push ⟨t.size, name, none, none, [], [], none⟩,
        t.roots ++ [(name, t.size)]⟩ := by
  unfold addRoot at h
  cases known : t.rootIndex? name with
  | some r => simp only [known, reduceCtorEq] at h
  | none =>
      simp only [known, Except.ok.injEq, Prod.mk.injEq] at h
      exact ⟨rfl, h.2.symm, h.1.symm⟩

theorem addMacro_eq_ok {t t' : ScopeTree} {parent : Int} {name : String} {loc : Option Location} {c : Nat}
    (h : t.addMacro parent name loc = .ok (t', c)) :
    ∃ n s, t.position? parent = some n ∧ t.scopes[n]? = some s ∧ ¬ s.binds name ∧ c = t.size ∧
      t' = ⟨(t.scopes.modify n fun s => { s with children := s.children ++ [(name, t.size)] }).push
        ⟨t.size, name, some parent, loc, [], [], none⟩, t.roots⟩ := by
  unfold addMacro at h
  cases place : t.position? parent with
  | none => simp [position, place, bind, Except.bind] at h
  | some n =>
      cases here : t.scopes[n]? with
      | none => simp [position, place, scope, here, bind, Except.bind] at h
      | some s =>
          cases bound : s.binds name with
          | true => simp [position, place, scope, here, bound, bind, Except.bind, throw, throwThe,
              MonadExceptOf.throw] at h
          | false =>
              simp [position, place, scope, here, bound, bind, Except.bind, pure, Except.pure] at h
              exact ⟨n, s, rfl, here, by simp [bound], h.2.symm, h.1.symm⟩

theorem bindAlias_eq_ok {t t' : ScopeTree} {scope : Int} {target : Nat} {loc : Location} {a : Alias}
    (h : t.bindAlias scope target loc = .ok (t', a)) :
    ∃ n s goal, t.position? scope = some n ∧ t.scopes[n]? = some s ∧
      t.scopes[target]? = some goal ∧ ¬ s.binds goal.name ∧ a = ⟨goal.parent, goal.name, loc⟩ ∧
        t' = t.modify n fun s => { s with aliases := s.aliases ++ [(goal.name, a)] } := by
  unfold bindAlias at h
  cases place : t.position? scope with
  | none => simp [position, place, bind, Except.bind] at h
  | some n =>
      cases here : t.scopes[n]? with
      | none => simp [position, place, ScopeTree.scope, here, bind, Except.bind] at h
      | some s =>
          cases there : t.scopes[target]? with
          | none => simp [position, place, ScopeTree.scope, here, there, bind, Except.bind] at h
          | some goal =>
              cases bound : s.binds goal.name with
              | true => simp [position, place, ScopeTree.scope, here, there, bound, bind,
                  Except.bind, throw, throwThe, MonadExceptOf.throw] at h
              | false =>
                  simp [position, place, ScopeTree.scope, here, there, bound, bind, Except.bind,
                    pure, Except.pure] at h
                  obtain ⟨rfl, rfl⟩ := h
                  exact ⟨n, s, goal, rfl, here, rfl, by simp [bound], rfl, rfl⟩

theorem findImport_eq_ok_iff {t : ScopeTree} {n m : Nat} {path : Path} {loc : Location} :
    t.findImport n path loc = .ok m ↔ t.find n ⟨path, true, loc⟩ = .ok m := by
  unfold findImport
  cases t.find n ⟨path, true, loc⟩ <;> simp

/-- A build finds its root declared, or it adds the root and the scopes of the items, and
unless that breaks off it keeps what is left of them. -/
theorem build_cases (t : ScopeTree) (root : String) (items : List Item) :
    (t.build root items).1 = t ∨ ∃ t₁ n, t.addRoot root = .ok (t₁, n) ∧
      ((t.build root items).1 = (t₁.collect n items).1 ∨
        ∃ own, (t₁.collect n items).2 = .ok own ∧
          (t.build root items).1 = (t₁.collect n items).1.modify n fun s => { s with body := some own }) := by
  cases added : t.addRoot root with
  | error e => exact .inl (by simp only [build, added])
  | ok made =>
      obtain ⟨t₁, n⟩ := made
      refine .inr ⟨t₁, n, rfl, ?_⟩
      rcases collected : t₁.collect n items with ⟨t₂, e | own⟩
      · exact .inl (by simp only [build, added, collected])
      · exact .inr ⟨own, rfl, by simp only [build, added, collected]⟩

section
variable {t t' : ScopeTree}

theorem Grows.of_addRoot {name : String} {n : Nat} (h : t.addRoot name = .ok (t', n)) :
    t.Grows t' := by
  obtain ⟨-, -, rfl⟩ := addRoot_eq_ok h
  refine ⟨by simp [ScopeTree.size], fun {k} {s} here => ⟨s, ?_, .refl s⟩, fun {other} {r} known => ?_⟩
  · have old : k ≠ t.scopes.size := Nat.ne_of_lt (lt_size here)
    rw [Array.getElem?_push, if_neg old, here]
  · simp only [rootIndex?] at known ⊢
    rw [List.lookup_append, known, Option.some_or]

theorem Grows.of_addMacro {parent : Int} {name : String} {loc : Option Location} {c : Nat}
    (h : t.addMacro parent name loc = .ok (t', c)) : t.Grows t' := by
  obtain ⟨n, s, -, here, fresh, -, rfl⟩ := addMacro_eq_ok h
  refine ⟨by simp [ScopeTree.size], fun {k} {old} found => ?_, id⟩
  have inside : k ≠ t.scopes.size := Nat.ne_of_lt (lt_size found)
  rw [Array.getElem?_push, Array.size_modify, if_neg inside, Array.getElem?_modify, found]
  by_cases same : n = k
  · subst same
    obtain rfl := Option.some.inj (here.symm.trans found)
    exact ⟨_, by rw [if_pos rfl, Option.map_some], .child_added t.size fresh⟩
  · exact ⟨old, by rw [if_neg same], .refl old⟩

theorem Grows.of_bindAlias {scope : Int} {target : Nat} {loc : Location} {a : Alias}
    (h : t.bindAlias scope target loc = .ok (t', a)) : t.Grows t' := by
  obtain ⟨n, s, goal, -, here, -, fresh, -, rfl⟩ := bindAlias_eq_ok h
  refine ⟨by simp [ScopeTree.size, ScopeTree.modify], fun {k} {old} found => ?_, id⟩
  rw [ScopeTree.modify, Array.getElem?_modify, found]
  by_cases same : n = k
  · subst same
    obtain rfl := Option.some.inj (here.symm.trans found)
    exact ⟨_, by rw [if_pos rfl, Option.map_some], .import_added a fresh⟩
  · exact ⟨old, by rw [if_neg same], .refl old⟩

namespace Every

variable {kind : Scope → Prop}

theorem empty : ScopeTree.empty.Every kind :=
  ⟨fun {n} {s} here => by simp [ScopeTree.empty] at here⟩

theorem push (h : t.Every kind) {s : Scope} {roots : List (String × Nat)} (new : kind s) :
    (⟨t.scopes.push s, roots⟩ : ScopeTree).Every kind := by
  refine ⟨fun {n} {s'} here => ?_⟩
  rw [Array.getElem?_push] at here
  split at here
  · cases here
    exact new
  · exact h.scope here

theorem modify (h : t.Every kind) (n : Nat) {f : Scope → Scope}
    (keeps : ∀ {s : Scope}, t.scopes[n]? = some s → kind s → kind (f s)) :
    (t.modify n f).Every kind := by
  refine ⟨fun {k} {s} here => ?_⟩
  rw [ScopeTree.modify, Array.getElem?_modify] at here
  split at here
  · next same =>
      subst same
      obtain ⟨old, there, rfl⟩ := Option.map_eq_some_iff.mp here
      exact keeps there (h.scope there)
  · exact h.scope here

theorem of_addRoot (h : t.Every kind) {name : String} {n : Nat}
    (new : kind ⟨t.size, name, none, none, [], [], none⟩) (added : t.addRoot name = .ok (t', n)) :
    t'.Every kind := by
  obtain ⟨-, -, rfl⟩ := addRoot_eq_ok added
  exact h.push new

theorem of_addMacro (h : t.Every kind) {parent : Int} {name : String} {loc : Option Location} {c : Nat}
    (new : kind ⟨t.size, name, some parent, loc, [], [], none⟩)
    (keeps : ∀ {s : Scope}, ¬ s.binds name → kind s →
      kind { s with children := s.children ++ [(name, t.size)] })
    (added : t.addMacro parent name loc = .ok (t', c)) : t'.Every kind := by
  obtain ⟨n, s, -, here, fresh, -, rfl⟩ := addMacro_eq_ok added
  refine (h.modify n fun there old => ?_).push new
  obtain rfl := Option.some.inj (here.symm.trans there)
  exact keeps fresh old

theorem of_bindAlias (h : t.Every kind) {scope : Int} {target : Nat} {loc : Location} {a : Alias}
    (keeps : ∀ {s goal : Scope}, ¬ s.binds goal.name → kind s → kind goal →
      kind { s with aliases := s.aliases ++ [(goal.name, ⟨goal.parent, goal.name, loc⟩)] })
    (bound : t.bindAlias scope target loc = .ok (t', a)) : t'.Every kind := by
  obtain ⟨n, s, goal, -, here, there, fresh, rfl, rfl⟩ := bindAlias_eq_ok bound
  refine h.modify n fun found old => ?_
  obtain rfl := Option.some.inj (here.symm.trans found)
  exact keeps fresh old (h.scope there)

end Every

end

/-- What becomes of an upright tree: it grows and stays upright, and no root is new
but perhaps the one with the given name. -/
structure Grown (t t' : ScopeTree) (new : Option String) : Prop where
  grows : t.Grows t'
  upright : t'.Upright
  roots : ∀ {name : String}, name ∉ new → t'.rootIndex? name = t.rootIndex? name

namespace Grown

variable {t t' t'' : ScopeTree} {new : Option String}

theorem refl (up : t.Upright) : Grown t t new := ⟨.refl t, up, fun _ => rfl⟩

theorem trans (first : Grown t t' new) (second : Grown t' t'' none) : Grown t t'' new :=
  ⟨first.grows.trans second.grows, second.upright,
    fun other => (second.roots (by simp)).trans (first.roots other)⟩

theorem of_addRoot (up : t.Upright) {name : String} {n : Nat}
    (h : t.addRoot name = .ok (t', n)) : Grown t t' (some name) := by
  refine ⟨.of_addRoot h, up.of_addRoot (.new fun none => (by cases none)) h, fun {other} different => ?_⟩
  obtain ⟨-, -, rfl⟩ := addRoot_eq_ok h
  exact lookup_append_of_ne (fun same => different (by rw [same]; rfl)) _ _

theorem of_addMacro (up : t.Upright) {n c : Nat} {name : String} {loc : Option Location}
    (h : t.addMacro n name loc = .ok (t', c)) : Grown t t' none := by
  have new : Scope.Upright ⟨t.size, name, some n, loc, [], [], none⟩ :=
    .new fun same => (by cases same; exact Int.natCast_nonneg n)
  refine ⟨.of_addMacro h, up.of_addMacro new (fun _ old => ⟨old.parent, old.holder⟩) h, fun _ => ?_⟩
  obtain ⟨_, _, -, -, -, -, rfl⟩ := addMacro_eq_ok h
  rfl

theorem of_bindAlias (up : t.Upright) {scope : Int} {target : Nat} {loc : Location} {a : Alias}
    (h : t.bindAlias scope target loc = .ok (t', a)) : Grown t t' none := by
  refine ⟨.of_bindAlias h, up.of_bindAlias (fun _ old other => old.bind other loc) h, fun _ => ?_⟩
  obtain ⟨_, _, _, -, -, -, -, -, rfl⟩ := bindAlias_eq_ok h
  rfl

theorem stored (h : Grown t t' new) {n : Nat} (fresh : t.size ≤ n) (own : List Item) :
    Grown t (t'.modify n fun s => { s with body := some own }) new :=
  ⟨h.grows.modify_new fresh _, h.upright.modify _ fun _ old => ⟨old.parent, old.holder⟩, h.roots⟩

theorem of_collect (t : ScopeTree) (n : Nat) (items : List Item) (up : t.Upright) :
    Grown t (t.collect n items).1 none := by
  fun_induction collect t n items with
  | case1 | case2 | case5 | case6 => exact .refl up
  | case3 t n name body loc items t₁ child added t₂ e collected ih =>
      have first := of_addMacro up added
      have second := ih first.upright
      rw [collected] at second
      exact first.trans second
  | case4 t n name body loc items t₁ child added t₂ own collected ihBody ihItems =>
      have first := of_addMacro up added
      have second := ihBody first.upright
      rw [collected] at second
      obtain ⟨_, _, -, -, -, rfl, -⟩ := addMacro_eq_ok added
      have third := (first.trans second).stored (Nat.le_refl _) own
      exact third.trans (ihItems third.upright)
  | case7 t n path loc items target _ t₁ a bound ih =>
      have first := of_bindAlias up bound
      exact first.trans (ih first.upright)
  | case8 t n item items _ _ t₁ e collected ih | case9 t n item items _ _ t₁ own collected ih =>
      have first := ih up
      rw [collected] at first
      exact first

theorem of_build (up : t.Upright) (root : String) (items : List Item) :
    Grown t (t.build root items).1 (some root) := by
  obtain same | ⟨t₁, n, added, same⟩ := build_cases t root items
  · rw [same]
    exact .refl up
  · have first := of_addRoot up added
    have whole := first.trans (of_collect t₁ n items first.upright)
    obtain ⟨-, rfl, -⟩ := addRoot_eq_ok added
    obtain same | ⟨own, -, same⟩ := same
    · rw [same]
      exact whole
    · rw [same]
      exact whole.stored (Nat.le_refl _) own

end Grown

/-- Something that is done to a tree. -/
inductive Growth where
  /-- Add a root with the scopes of items; it may fail on the way. -/
  | build (root : String) (items : List Item)
  | root (name : String)
  | child (parent : Nat) (name : String) (loc : Option Location)
  | bind (scope : Int) (target : Nat) (loc : Location)

/-- The name of the root that is to be added. -/
def Growth.newRoot? : Growth → Option String
  | build name _ | root name => some name
  | child .. | bind .. => none

/-- The tree after something was done to it, or was tried and failed. -/
def grow (t : ScopeTree) : Growth → ScopeTree
  | .build root items => (t.build root items).1
  | .root name =>
    match t.addRoot name with
    | .ok (t, _) => t
    | .error _ => t
  | .child parent name loc =>
    match t.addMacro parent name loc with
    | .ok (t, _) => t
    | .error _ => t
  | .bind scope target loc =>
    match t.bindAlias scope target loc with
    | .ok (t, _) => t
    | .error _ => t

theorem Grown.of_grow {t : ScopeTree} (up : t.Upright) (g : Growth) :
    Grown t (t.grow g) g.newRoot? := by
  unfold grow
  cases g with
  | build root items => exact .of_build up root items
  | root name =>
      dsimp only
      split
      · next added => exact .of_addRoot up added
      · exact .refl up
  | child parent name loc =>
      dsimp only
      split
      · next added => exact .of_addMacro up added
      · exact .refl up
  | bind scope target loc =>
      dsimp only
      split
      · next added => exact .of_bindAlias up added
      · exact .refl up

/-- The tree after all that was done to it, from its beginning on. -/
def grownFrom (t : ScopeTree) (gs : List Growth) : ScopeTree := gs.foldl grow t

theorem upright_grownFrom {t : ScopeTree} (up : t.Upright) (gs : List Growth) :
    (t.grownFrom gs).Upright := by
  induction gs generalizing t with
  | nil => exact up
  | cons g gs ih => exact ih (Grown.of_grow up g).upright

end ScopeTree

end ByteTape
