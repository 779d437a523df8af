import ByteTape.Proofs.Item.Declarations
import ByteTape.Proofs.Scope.Address
import ByteTape.Proofs.Scope.Failures
import ByteTape.Proofs.Expansion.Cache

/-! # Scopes that are built

How definitions and imports are declared, item by item, when nothing goes wrong. What a
successful build does to a tree is shown along these rules: it adds one scope for each
definition in the order in which the bodies are opened, and without imports it fails only
where a name is defined twice. Whether it succeeds or not, it changes no scope but the one
it fills.
-/

namespace ByteTape.ScopeTree

/-- Keep items as the body of scope `n`. -/
abbrev store (t : ScopeTree) (n : Nat) (own : List Item) : ScopeTree :=
  t.modify n fun s => { s with body := some own }

/-- From the first tree, `items` can be declared in scope `n`. That makes the second tree
and leaves the items `own`. -/
inductive Collects : ScopeTree → Nat → List Item → ScopeTree → List Item → Prop where
  | nil (t : ScopeTree) (n : Nat) : Collects t n [] t []
  | define {t t₁ t₂ t₃ : ScopeTree} {n c : Nat} {name : String} {loc : Location}
    {body items inner own : List Item} (added : t.addMacro n name (some loc) = .ok (t₁, c))
    (below : Collects t₁ c body t₂ inner) (rest : Collects (t₂.store c inner) n items t₃ own) :
    Collects t n (.define name body loc :: items) t₃ own
  | use {t t₁ t₂ : ScopeTree} {n target : Nat} {path : Path} {loc : Location} {a : Alias}
    {items own : List Item} (found : t.findImport n path loc = .ok target)
    (bound : t.bindAlias n target loc = .ok (t₁, a)) (rest : Collects t₁ n items t₂ own) :
    Collects t n (.use path loc :: items) t₂ own
  | plain {t t₁ : ScopeTree} {n : Nat} {item : Item} {items own : List Item}
    (kind : item.declares = false) (rest : Collects t n items t₁ own) :
    Collects t n (item :: items) t₁ (item :: own)

variable {t t' t'' : ScopeTree} {n : Nat} {items front back own own' : List Item}

theorem Collects.collect (h : Collects t n items t' own) : t.collect n items = (t', .ok own) := by
  induction h with
  | nil => rw [ScopeTree.collect]
  | define added _ _ below rest => simp only [ScopeTree.collect, added, below, rest]
  | use found bound _ rest => simp only [ScopeTree.collect, found, bound, rest]
  | @plain _ _ _ item _ _ kind _ rest =>
      cases item with
      | define | use => cases kind
      | op | debug | text | ref | group | times => simp only [ScopeTree.collect, rest]

theorem collects_iff : Collects t n items t' own ↔ t.collect n items = (t', .ok own) := by
  refine ⟨Collects.collect, fun done => ?_⟩
  fun_induction ScopeTree.collect t n items generalizing t' own with
  | case1 t n =>
      cases done
      exact .nil t n
  | case2 | case3 | case5 | case6 | case8 => cases done
  | case4 t n name body loc items t₁ c added t₂ inner collected ihBody ihItems =>
      exact .define added (ihBody collected) (ihItems done)
  | case7 t n path loc items target found t₁ a bound ih => exact .use found bound (ih done)
  | case9 t n item items notDefine notUse t₁ rest collected ih =>
      cases done
      have kind : item.declares = false := by
        cases item with
        | define name body loc => exact absurd rfl (notDefine name body loc)
        | use path loc => exact absurd rfl (notUse path loc)
        | op | debug | text | ref | group | times => rfl
      exact .plain kind (ih collected)

theorem build_eq_ok_iff {root : String} :
    t.build root items = (t', .ok ()) ↔ ∃ t₁ c t₂ own, t.addRoot root = .ok (t₁, c) ∧
      Collects t₁ c items t₂ own ∧ t' = t₂.store c own := by
  unfold build
  cases t.addRoot root with
  | error e => simp
  | ok made =>
      obtain ⟨t₁, c⟩ := made
      simp only [collects_iff]
      rcases collected : t₁.collect c items with ⟨t₂, e | own⟩
      · simp [collected]
      · simp [collected, eq_comm]

namespace Collects

theorem append (first : Collects t n front t' own) (second : Collects t' n back t'' own') :
    Collects t n (front ++ back) t'' (own ++ own') := by
  induction first with
  | nil => exact second
  | define added below _ _ ih => exact .define added below (ih second)
  | use found bound _ ih => exact .use found bound (ih second)
  | plain kind _ ih => exact .plain kind (ih second)

theorem split (h : Collects t n (front ++ back) t'' own) :
    ∃ t' own₁ own₂, Collects t n front t' own₁ ∧ Collects t' n back t'' own₂ ∧ own = own₁ ++ own₂ := by
  induction front generalizing t own with
  | nil => exact ⟨t, [], own, .nil t n, h, rfl⟩
  | cons item front ih =>
      cases h with
      | define added below rest =>
          obtain ⟨t', own₁, own₂, first, second, same⟩ := ih rest
          exact ⟨t', own₁, own₂, .define added below first, second, same⟩
      | use found bound rest =>
          obtain ⟨t', own₁, own₂, first, second, same⟩ := ih rest
          exact ⟨t', own₁, own₂, .use found bound first, second, same⟩
      | plain kind rest =>
          obtain ⟨t', own₁, own₂, first, second, rfl⟩ := ih rest
          exact ⟨t', item :: own₁, own₂, .plain kind first, second, rfl⟩

theorem grown (h : Collects t n items t' own) (up : t.Upright) : Grown t t' none := by
  have grown := Grown.of_collect t n items up
  rwa [h.collect] at grown

theorem keepsArena (h : Collects t n items t' own) (arena : t.Arena) : t'.Arena := by
  have arena' := Arena.of_collect t n items arena
  rwa [h.collect] at arena'

theorem own_eq (h : Collects t n items t' own) : own = Item.own items := by
  induction h with
  | nil => rfl
  | define _ _ _ _ ih => rw [ih, Item.own_cons_of_declares rfl]
  | use _ _ _ ih => rw [ih, Item.own_cons_of_declares rfl]
  | plain kind _ ih => rw [ih, Item.own_cons_of_plain kind]

end Collects

section
variable {name : String} {loc : Option Location} {c k : Nat}

theorem addMacro_size (added : t.addMacro n name loc = .ok (t', c)) :
    c = t.size ∧ t'.size = t.size + 1 := by
  obtain ⟨_, _, -, -, -, rfl, rfl⟩ := addMacro_eq_ok added
  simp [ScopeTree.size]

theorem addMacro_old (added : t.addMacro n name loc = .ok (t', c)) (old : k < t.size)
    (other : k ≠ n) : t'.scopes[k]? = t.scopes[k]? := by
  obtain ⟨m, _, place, -, -, -, rfl⟩ := addMacro_eq_ok added
  obtain rfl := position?_eq_self place
  have inside : k ≠ t.scopes.size := Nat.ne_of_lt old
  rw [Array.getElem?_push, Array.size_modify, if_neg inside, Array.getElem?_modify, if_neg other.symm]

theorem modify_size (t : ScopeTree) (n : Nat) (f : Scope → Scope) : (t.modify n f).size = t.size := by
  simp [ScopeTree.size, ScopeTree.modify]

theorem modify_old (f : Scope → Scope) (other : k ≠ n) : (t.modify n f).scopes[k]? = t.scopes[k]? := by
  rw [ScopeTree.modify, Array.getElem?_modify, if_neg other.symm]

theorem bindAlias_modify {target : Nat} {loc : Location} {a : Alias}
    (bound : t.bindAlias n target loc = .ok (t', a)) :
    ∃ f, t' = t.modify n f := by
  obtain ⟨m, _, _, place, -, -, -, -, rfl⟩ := bindAlias_eq_ok bound
  obtain rfl := position?_eq_self place
  exact ⟨_, rfl⟩

end

/-- From `t` to `t'` no scope of `t` was changed but perhaps scope `n`, and no root was
added. -/
structure Fills (n : Nat) (t t' : ScopeTree) : Prop where
  size : t.size ≤ t'.size
  old : ∀ {k : Nat}, k < t.size → k ≠ n → t'.scopes[k]? = t.scopes[k]?
  roots : t'.roots = t.roots

namespace Fills

variable {c : Nat}

theorem refl (n : Nat) (t : ScopeTree) : Fills n t t := ⟨Nat.le_refl _, fun _ _ => rfl, rfl⟩

theorem trans (first : Fills n t t') (second : Fills c t' t'') (place : c = n ∨ t.size ≤ c) :
    Fills n t t'' where
  size := Nat.le_trans first.size second.size
  old {k} inside other := by
    have apart : k ≠ c := by omega
    rw [second.old (Nat.lt_of_lt_of_le inside first.size) apart, first.old inside other]
  roots := second.roots.trans first.roots

theorem modify (n : Nat) (t : ScopeTree) (f : Scope → Scope) : Fills n t (t.modify n f) :=
  ⟨Nat.le_of_eq (modify_size t n f).symm, fun _ other => modify_old f other, rfl⟩

theorem of_addMacro {name : String} {loc : Option Location} (added : t.addMacro n name loc = .ok (t', c)) :
    Fills n t t' where
  size := by
    obtain ⟨-, size⟩ := addMacro_size added
    omega
  old inside other := addMacro_old added inside other
  roots := by
    obtain ⟨_, -, -, roots, -⟩ := addMacro_cases added
    exact roots

theorem of_bindAlias {target : Nat} {loc : Location} {a : Alias}
    (bound : t.bindAlias n target loc = .ok (t', a)) : Fills n t t' := by
  obtain ⟨f, rfl⟩ := bindAlias_modify bound
  exact .modify n t f

theorem of_collect (t : ScopeTree) (n : Nat) (items : List Item) :
    Fills n t (t.collect n items).1 := by
  fun_induction collect t n items with
  | case1 | case2 | case5 | case6 => exact .refl _ _
  | case3 t n name body loc items t₁ child added t₂ e collected ih =>
      rw [collected] at ih
      exact (of_addMacro added).trans ih (.inr (Nat.le_of_eq (addMacro_size added).1.symm))
  | case4 t n name body loc items t₁ child added t₂ own collected ihBody ihItems =>
      rw [collected] at ihBody
      have new : t.size ≤ child := Nat.le_of_eq (addMacro_size added).1.symm
      have below := (of_addMacro added).trans ihBody (.inr new)
      have stored : Fills n t (t₂.store child own) := below.trans (.modify ..) (.inr new)
      exact stored.trans ihItems (.inl rfl)
  | case7 t n path loc items target found t₁ a bound ih =>
      exact (of_bindAlias bound).trans ih (.inl rfl)
  | case8 t n item items _ _ t₁ e collected ih | case9 t n item items _ _ t₁ own collected ih =>
      rw [collected] at ih
      exact ih

end Fills

theorem Collects.fills (h : Collects t n items t' own) : Fills n t t' := by
  have fills := Fills.of_collect t n items
  rwa [h.collect] at fills

theorem Collects.size_le (h : Collects t n items t' own) : t.size ≤ t'.size := h.fills.size

theorem Collects.old (h : Collects t n items t' own) {k : Nat} (old : k < t.size) (other : k ≠ n) :
    t'.scopes[k]? = t.scopes[k]? :=
  h.fills.old old other

/-- The name has no meaning of its own in scope `n`. -/
def Free (t : ScopeTree) (n : Nat) (name : String) : Prop :=
  ∀ s, t.scopes[n]? = some s → ¬ s.binds name

section
variable {name other : String} {loc : Option Location} {c : Nat}

theorem Grows.free (grows : t.Grows t') (h : t'.Free n name) : t.Free n name := by
  intro s here bound
  obtain ⟨s', here', keeps⟩ := grows.scope here
  exact h s' here' (keeps.binds bound)

theorem addMacro_of_free {s : Scope} (here : t.scopes[n]? = some s) (fresh : ¬ s.binds name) :
    t.addMacro n name loc =
      .ok (⟨(t.scopes.modify n fun s => { s with children := s.children ++ [(name, t.size)] }).push
        ⟨t.size, name, some n, loc, [], [], none⟩, t.roots⟩, t.size) := by
  have place := position?_natCast (lt_size here)
  simp [addMacro, position, place, scope, here, fresh, bind, Except.bind, pure, Except.pure,
    ScopeTree.modify]

theorem exists_addMacro (inside : n < t.size) (free : t.Free n name) (loc : Option Location) :
    ∃ t', t.addMacro n name loc = .ok (t', t.size) := by
  obtain ⟨s, here⟩ := exists_scope inside
  exact ⟨_, addMacro_of_free here (free s here)⟩

theorem free_of_addMacro_ok (added : t.addMacro n name loc = .ok (t', c)) : t.Free n name := by
  intro s here
  obtain ⟨s', here', fresh, -⟩ := addMacro_cases added
  obtain rfl := Option.some.inj (here.symm.trans here')
  exact fresh

theorem addMacro_here {s : Scope} (added : t.addMacro n name loc = .ok (t', c))
    (here : t.scopes[n]? = some s) :
    t'.scopes[n]? = some { s with children := s.children ++ [(name, t.size)] } := by
  obtain ⟨m, _, place, -, -, -, rfl⟩ := addMacro_eq_ok added
  obtain rfl := position?_eq_self place
  have inside : n ≠ t.scopes.size := Nat.ne_of_lt (lt_size here)
  rw [Array.getElem?_push, Array.size_modify, if_neg inside, Array.getElem?_modify, if_pos rfl, here,
    Option.map_some]

theorem not_free_of_addMacro (added : t.addMacro n name loc = .ok (t', c)) : ¬ t'.Free n name := by
  intro free
  obtain ⟨s, here, -⟩ := addMacro_cases added
  refine free _ (addMacro_here added here) ?_
  simp [Scope.binds, Scope.child?, List.lookup_append]

theorem free_of_addMacro (added : t.addMacro n name loc = .ok (t', c)) (different : other ≠ name)
    (free : t.Free n other) : t'.Free n other := by
  intro s' there
  obtain ⟨s, here, -, -, scopes⟩ := addMacro_cases added
  have inside := lt_size here
  obtain ⟨same, -⟩ | ⟨-, rfl⟩ | ⟨apart, -⟩ := scopes there
  · omega
  · have kept := free s here
    simp only [Scope.binds, Scope.child?, Scope.alias?] at kept ⊢
    rwa [lookup_append_of_ne different]
  · exact absurd rfl apart

theorem free_new (added : t.addMacro n name loc = .ok (t', c)) : t'.Free c other := by
  intro s' there
  obtain ⟨rfl, -⟩ := addMacro_size added
  obtain ⟨s, here, -, -, scopes⟩ := addMacro_cases added
  have inside := lt_size here
  obtain ⟨-, rfl⟩ | ⟨same, -⟩ | ⟨-, old⟩ := scopes there
  · simp [Scope.binds, Scope.child?, Scope.alias?]
  · omega
  · exact absurd (lt_size old) (Nat.lt_irrefl _)

end

theorem free_store_iff {m : Nat} : (t.store m own).Free n name ↔ t.Free n name := by
  unfold Free
  by_cases same : n = m
  · subst same
    simp only [store, ScopeTree.modify, Array.getElem?_modify, if_true]
    cases t.scopes[n]? <;> simp [Scope.binds, Scope.child?, Scope.alias?]
  · rw [modify_old _ same]

/-- What could be declared defines no name twice, and none that had a meaning before. -/
theorem Collects.distinct (h : Collects t n items t' own) (up : t.Upright) :
    Item.Distinct items ∧ ∀ name ∈ Item.names items, t.Free n name := by
  induction h with
  | nil => simp [Item.Distinct, Item.names]
  | @define t t₁ _ _ n c name _ _ items _ _ added below _ ihBelow ihRest =>
      have first := Grown.of_addMacro up added
      have second := below.grown first.upright
      have new : t.size ≤ c := Nat.le_of_eq (addMacro_size added).1.symm
      obtain ⟨inner, -⟩ := ihBelow first.upright
      obtain ⟨outer, later⟩ := ihRest ((first.trans second).stored new _).upright
      -- what is free behind the definition was free when it was met
      have free : ∀ other ∈ Item.names items, t₁.Free n other := fun other there =>
        second.grows.free (free_store_iff.mp (later other there))
      have new : name ∉ Item.names items := fun again =>
        not_free_of_addMacro added (free name again)
      refine ⟨by simp only [Item.Distinct]; exact ⟨new, inner, outer⟩, ?_⟩
      rw [Item.names_define, List.forall_mem_cons]
      exact ⟨free_of_addMacro_ok added, fun other there => first.grows.free (free other there)⟩
  | use _ bound _ ih =>
      have first := Grown.of_bindAlias up bound
      obtain ⟨distinct, free⟩ := ih first.upright
      refine ⟨by simpa only [Item.Distinct] using distinct, fun name there => ?_⟩
      exact first.grows.free (free name there)
  | plain kind _ ih =>
      rw [Item.distinct_cons_of_plain kind, Item.names_cons_of_plain kind]
      exact ih up

/-- Without imports nothing else can go wrong. -/
theorem exists_collects (inside : n < t.size) (plain : Item.Importless items)
    (distinct : Item.Distinct items) (free : ∀ name ∈ Item.names items, t.Free n name) :
    ∃ t', Collects t n items t' (Item.own items) := by
  fun_induction Item.Distinct items generalizing t n with
  | case1 => exact ⟨t, .nil t n⟩
  | case2 name body loc items ihBody ihItems =>
      simp only [Item.Importless] at plain
      obtain ⟨new, inner, outer⟩ := distinct
      obtain ⟨here, later⟩ := List.forall_mem_cons.mp free
      obtain ⟨t₁, added⟩ := exists_addMacro inside here loc
      obtain ⟨-, size⟩ := addMacro_size added
      obtain ⟨t₂, below⟩ := ihBody (by rw [size]; omega) plain.1 inner fun _ _ => free_new added
      have grown := below.size_le
      have kept := below.old (k := n) (by omega) (Nat.ne_of_lt inside)
      obtain ⟨t₃, rest⟩ := ihItems (t := t₂.store t.size (Item.own body)) (n := n) (by rw [modify_size]; omega)
        plain.2 outer fun other there => by
          have different : other ≠ name := fun same => new (same ▸ there)
          rw [free_store_iff, Free, kept]
          exact free_of_addMacro added different (later other there)
      exact ⟨t₃, .define added below rest⟩
  | case3 item items other ih =>
      have kind : item.declares = false := by
        cases item with
        | define name body loc => exact (other name body loc rfl).elim
        | use => simp only [Item.Importless] at plain
        | op | debug | text | ref | group | times => rfl
      rw [Item.importless_cons_of_plain kind] at plain
      rw [Item.names_cons_of_plain kind] at free
      obtain ⟨t', rest⟩ := ih inside plain distinct free
      rw [Item.own_cons_of_plain kind]
      exact ⟨t', .plain kind rest⟩

/-- The address and the body of scope `n`. -/
def entry (t : ScopeTree) (n : Nat) : List String × List Item := (t.address n, t.itemsOf n)

/-- The entries of the scopes from number `k` on. -/
def since (t : ScopeTree) (k : Nat) : List (List String × List Item) :=
  (List.range' k (t.size - k)).map t.entry

theorem since_split {k m : Nat} (before : k ≤ m) (inside : m ≤ t.size) :
    t.since k = (List.range' k (m - k)).map t.entry ++ t.since m := by
  obtain ⟨d, rfl⟩ := Nat.exists_eq_add_of_le before
  rw [since, since, ← List.map_append, Nat.add_sub_cancel_left, List.range'_append_1,
    show d + (t.size - (k + d)) = t.size - k by omega]

theorem Arena.entry_grown {k : Nat} (arena : t.Arena) (arena' : t'.Arena) (grows : t.Grows t')
    (inside : k < t.size) : t'.entry k = t.entry k := by
  rw [entry, entry, arena.address_grown arena' grows inside, grows.itemsOf inside]

theorem itemsOf_store {k : Nat} (inside : k < t.size) :
    (t.store n own).itemsOf k = if k = n then own else t.itemsOf k := by
  obtain ⟨s, here⟩ := exists_scope inside
  unfold itemsOf
  split
  · next same =>
      subst same
      simp [store, ScopeTree.modify, Array.getElem?_modify, here, Scope.items]
  · next other => rw [modify_old _ other]

theorem Arena.entry_store {k : Nat} (arena : t.Arena) (inside : k < t.size) :
    (t.store n own).entry k = (t.address k, if k = n then own else t.itemsOf k) := by
  rw [entry, arena.address_stored n own inside, itemsOf_store inside]

theorem Collects.address_eq {k : Nat} (h : Collects t n items t' own) (arena : t.Arena)
    (old : k < t.size) : t'.address k = t.address k :=
  arena.address_grown (h.keepsArena arena) (h.grown arena.upright).grows old

theorem Arena.address_new {name : String} {loc : Option Location} {c : Nat} (arena : t.Arena)
    (added : t.addMacro n name loc = .ok (t', c)) (inside : n < t.size) :
    t'.address c = t.address n ++ [name] := by
  obtain ⟨rfl, -⟩ := addMacro_size added
  have first := arena.of_addMacro added
  have named : t'.Named t.size (some (n : Int)) name :=
    (named_addMacro_iff added).mpr (.inr ⟨rfl, rfl, rfl⟩)
  rw [first.address_of_child named, arena.address_grown first (.of_addMacro added) inside]

theorem Arena.address_defined {t₁ t₂ : ScopeTree} {name : String} {loc : Option Location} {c k : Nat}
    {body inner : List Item} (arena : t.Arena) (added : t.addMacro n name loc = .ok (t₁, c))
    (below : Collects t₁ c body t₂ inner) (old : k < t.size) :
    (t₂.store c inner).address k = t.address k := by
  have first := arena.of_addMacro added
  obtain ⟨-, size⟩ := addMacro_size added
  have grown := below.size_le
  rw [(below.keepsArena first).address_stored _ _ (by omega), below.address_eq first (by omega),
    arena.address_grown first (.of_addMacro added) old]

/-- A build adds a scope for each definition, in the order in which the definitions are
opened, with the name of the definition below the address of the scope it stands in,
and with what its body does not declare. -/
theorem Collects.since_eq (h : Collects t n items t' own) (arena : t.Arena) (inside : n < t.size) :
    t'.since t.size = Item.entries (t.address n) items := by
  induction h with
  | nil => simp [since, Item.entries]
  | @define t t₁ t₂ t₃ n c name _ body items inner _ added below rest ihBelow ihRest =>
      obtain ⟨rfl, size⟩ := addMacro_size added
      have first := arena.of_addMacro added
      have second := below.keepsArena first
      have third := second.stored t.size inner
      have last := rest.keepsArena third
      have grown := below.size_le
      have grown' := rest.size_le
      rw [modify_size] at grown'
      have address := arena.address_new added inside
      have kept {k : Nat} (old : k < t₂.size) : t₃.entry k = (t₂.store t.size inner).entry k :=
        third.entry_grown last (rest.grown third.upright).grows (by rwa [modify_size])
      have here : t₃.entry t.size = (t.address n ++ [name], Item.own body) := by
        rw [kept (by omega), second.entry_store (by omega), if_pos rfl,
          below.address_eq first (by omega), address, below.own_eq]
      have inner : (List.range' (t.size + 1) (t₂.size - (t.size + 1))).map t₃.entry =
          Item.entries (t.address n ++ [name]) body := by
        rw [← address, ← ihBelow first (by omega), since, size]
        refine List.map_congr_left fun k there => ?_
        obtain ⟨low, high⟩ := List.mem_range'_1.mp there
        rw [kept (by omega), second.entry_store (by omega), if_neg (by omega), entry]
      have behind : t₃.since t₂.size = Item.entries (t.address n) items := by
        have outer := ihRest third (by rw [modify_size]; omega)
        rwa [modify_size, arena.address_defined added below inside] at outer
      rw [since_split (k := t.size) (m := t.size + 1) (by omega) (by omega),
        since_split (k := t.size + 1) (m := t₂.size) (by omega) (by omega), inner, behind]
      simp [Item.entries, here]
  | @use t t₁ _ n _ _ _ _ _ _ found bound _ ih =>
      obtain ⟨f, same⟩ := bindAlias_modify bound
      obtain ⟨goal, there, kind⟩ := find_macro (findImport_eq_ok_iff.mp found)
      have first := arena.of_bindAlias (by rw [there]; exact kind) bound
      have size : t₁.size = t.size := by rw [same, modify_size]
      have rest := ih first (by omega)
      rw [size, arena.address_grown first (.of_bindAlias bound) inside] at rest
      simpa only [Item.entries] using rest
  | plain kind _ ih =>
      rw [Item.entries_cons_of_plain kind]
      exact ih arena inside

end ByteTape.ScopeTree
