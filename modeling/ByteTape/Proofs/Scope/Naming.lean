import ByteTape.Proofs.Build.Failures
import ByteTape.Proofs.Path
import ByteTape.Proofs.Scope.Address
import ByteTape.Proofs.Token.Layout

/-! # Full names

A full name is the path from a root to a scope. Where all names are words it can be read
back as a path, and this path leads to the macro from every scope. So does the way up from
a scope and then down by the names of children. Imports stand in no way, since no name is
that of a child and of an import at once.
-/

namespace ByteTape

namespace Token

/-- The name that the token defines, if any, is a word. -/
def DefinesWord (token : Token) : Prop := ∀ name, token.value = .define name → IsName name

theorem Laid.definesWord {file : String} {text : List Char} {i : Nat} {tight : Bool} {spans : List Span}
    {tokens : List Token} (h : Laid file text i tight spans tokens) :
    ∀ token ∈ tokens, token.DefinesWord := by
  induction h with
  | done => exact List.forall_mem_nil _
  | blank _ _ _ ih => exact ih
  | comment _ _ ih => exact ih
  | token shows _ _ ih =>
      refine List.forall_mem_cons.mpr ⟨?_, ih⟩
      intro name defines
      have spelled := shows.spelled
      rw [defines] at spelled
      exact spelled.1

theorem definesWord_scanOpsFrom (loc : Location) (text : List Char) :
    ∀ token ∈ scanOpsFrom loc text, token.DefinesWord := by
  fun_induction scanOpsFrom loc text with
  | case1 => exact List.forall_mem_nil _
  | case2 loc c text op found ih =>
      refine List.forall_mem_cons.mpr ⟨?_, ih⟩
      intro name defines
      cases defines
  | case3 loc c text _ ih => exact ih

theorem definesWord_of_tokens {dialect : Dialect} {file text : String} {tokens : List Token}
    (scanned : Item.tokens dialect file text = .ok tokens) : ∀ token ∈ tokens, token.DefinesWord := by
  cases dialect with
  | extended =>
      obtain ⟨spans, laid⟩ := laid_of_scanFrom scanned [] rfl
      exact laid.definesWord
  | plain =>
      cases scanned
      exact definesWord_scanOpsFrom _ _

end Token

def Scope.Worded (s : Scope) : Prop := IsName s.name

/-- The name of the scope is of this kind. -/
def Scope.Called (fit : String → Prop) (s : Scope) : Prop := fit s.name

namespace ScopeTree

variable {t t' : ScopeTree} {items : List Item} {fit : String → Prop}

theorem called_addMacro (called : t.Every (Scope.Called fit)) {parent : Int} {name : String}
    {loc : Option Location} {c : Nat} (fits : fit name) (added : t.addMacro parent name loc = .ok (t', c)) :
    t'.Every (Scope.Called fit) :=
  called.of_addMacro fits (fun _ old => old) added

theorem called_stored (called : t.Every (Scope.Called fit)) (n : Nat) (own : List Item) :
    (t.modify n fun s => { s with body := some own }).Every (Scope.Called fit) :=
  called.modify n fun _ old => old

theorem called_collect (words : ∀ {name : String}, IsName name → fit name) (t : ScopeTree) (n : Nat)
    (items : List Item) (called : t.Every (Scope.Called fit))
    (given : ∀ item ∈ items, item.Made Token.DefinesWord) :
    (t.collect n items).1.Every (Scope.Called fit) := by
  fun_induction collect t n items with
  | case1 | case2 | case5 | case6 => exact called
  | case3 t n name body loc items t₁ child added t₂ e collected ih =>
      rw [collected] at ih
      cases given _ List.mem_cons_self with
      | define known inside => exact ih (called_addMacro called (words (known name rfl)) added) inside
  | case4 t n name body loc items t₁ child added t₂ own collected ihBody ihItems =>
      rw [collected] at ihBody
      have later := (List.forall_mem_cons.mp given).2
      cases given _ List.mem_cons_self with
      | define known inside =>
          have below := ihBody (called_addMacro called (words (known name rfl)) added) inside
          exact ihItems (called_stored below child own) later
  | case7 t n path loc items target found t₁ a bound ih =>
      exact ih (called.of_bindAlias (fun _ old _ => old) bound) (List.forall_mem_cons.mp given).2
  | case8 t n item items _ _ t₁ e collected ih | case9 t n item items _ _ t₁ own collected ih =>
      rw [collected] at ih
      exact ih called (List.forall_mem_cons.mp given).2

theorem called_build (words : ∀ {name : String}, IsName name → fit name)
    (called : t.Every (Scope.Called fit)) {root : String} (fits : fit root)
    (given : ∀ item ∈ items, item.Made Token.DefinesWord) :
    (t.build root items).1.Every (Scope.Called fit) := by
  obtain same | ⟨t₁, n, added, same⟩ := build_cases t root items
  · rw [same]
    exact called
  · have done := called_collect words t₁ n items (called.of_addRoot fits added) given
    obtain same | ⟨own, -, same⟩ := same
    · rw [same]
      exact done
    · rw [same]
      exact called_stored done n own

/-- What is defined in a text has a word for its name, so of other names only that of the root
is to be looked at. -/
theorem called_load (words : ∀ {name : String}, IsName name → fit name)
    (called : t.Every (Scope.Called fit)) (dialect : Dialect) {root : String} (fits : fit root)
    (source : Source) : (t.load dialect root source).1.Every (Scope.Called fit) := by
  cases parsed : Item.parse dialect source.file source.text with
  | error e =>
      rw [load_of_parse_error parsed]
      exact called
  | ok items =>
      have made := Item.made_of_parse parsed fun _ scanned => Token.definesWord_of_tokens scanned
      rw [load_of_parse parsed]
      exact called_build words called fits fun item there => (made item there).2

/-- Trees that come from loading texts under roots that are named by words. Imports may be
bound by hand besides. -/
inductive Worded : ScopeTree → Prop where
  | empty : Worded .empty
  | load {t : ScopeTree} (before : Worded t) (dialect : Dialect) {root : String} (word : IsName root)
    (source : Source) : Worded (t.load dialect root source).1
  | bind {t : ScopeTree} (before : Worded t) (scope : Int) {target : Nat} (loc : Location)
    (kind : t.scopes[target]?.all Scope.isMacro) : Worded (t.grow (.bind scope target loc))

namespace Worded

theorem fits (h : t.Worded) : t.Arena := by
  induction h with
  | empty => exact .empty
  | load _ _ _ _ ih => exact ih.load
  | bind _ _ _ kind ih => exact ih.of_grow kind

theorem every (h : t.Worded) : t.Every Scope.Worded := by
  induction h with
  | empty => exact .empty
  | load _ dialect word source ih => exact called_load id ih dialect word source
  | @bind t _ scope target loc _ ih =>
      unfold grow
      dsimp only
      split
      · next bound => exact ih.of_bindAlias (fun _ old _ => old) bound
      · exact ih

end Worded

variable {n m o a k : Nat} {name : String} {steps : List String}

/-- From scope `o` the parent is taken so many times, which leads to scope `a`. -/
inductive Climbs (t : ScopeTree) : Nat → Nat → Nat → Prop where
  | here {o : Nat} (inside : o < t.size) : Climbs t o 0 o
  | up {o p k a : Nat} (above : t.Above o p) (rest : Climbs t p k a) : Climbs t o (k + 1) a

/-- Children with these names, one after the other, lead from scope `a` to scope `n`. -/
inductive Descends (t : ScopeTree) : Nat → List String → Nat → Prop where
  | here (n : Nat) : Descends t n [] n
  | down {a c n : Nat} {s : Scope} {name : String} {steps : List String} (here : t.scopes[a]? = some s)
    (child : s.child? name = some c) (rest : Descends t c steps n) : Descends t a (name :: steps) n

theorem Climbs.lt_size (h : t.Climbs o k a) : o < t.size := by
  cases h with
  | here inside => exact inside
  | up above =>
      obtain ⟨s, -, here, -⟩ := above
      exact ScopeTree.lt_size here

theorem Climbs.climb (h : t.Climbs o k a) {ref : Reference}
    (found : (t.descend ref a ref.path.steps).outcome = .ok n) : (t.climb ref o k).outcome = .ok n := by
  induction h with
  | here => exact found
  | up above _ ih =>
      obtain ⟨s, i, here, parent, place⟩ := above
      exact climb_succ_ok_iff.mpr ⟨s, i, _, here, parent, place, position?_lt place, ih found⟩

theorem Descends.snoc {s : Scope} (h : t.Descends a steps n) (here : t.scopes[n]? = some s)
    (child : s.child? name = some m) : t.Descends a (steps ++ [name]) m := by
  induction h with
  | here => exact .down here child (.here m)
  | down here' child' _ ih => exact .down here' child' (ih here)

namespace Arena

theorem descend (h : t.Arena) (down : t.Descends a steps n) {s : Scope} (there : t.scopes[n]? = some s)
    (kind : s.isMacro) (ref : Reference) : (t.descend ref a steps).outcome = .ok n := by
  induction down with
  | here => exact descend_nil_ok_iff.mpr ⟨rfl, s, there, kind⟩
  | @down a c n holder name steps here child _ ih =>
      have free : holder.alias? name = none :=
        ((h.tidy.scope here).apart name).resolve_left (by simp [child])
      exact descend_cons_ok_iff.mpr ⟨holder, here, .inr ⟨free, c, child, ih there⟩⟩

theorem find_relative (h : t.Arena) (climbs : t.Climbs o k a) (down : t.Descends a steps n) {s : Scope}
    (there : t.scopes[n]? = some s) (kind : s.isMacro)
    (rootless : k = 0 → ∀ name ∈ steps.head?, t.rootIndex? name = none) (isImport : Bool)
    (loc : Location) : t.find o ⟨⟨k, steps⟩, isImport, loc⟩ = .ok n := by
  have found := h.descend down there kind ⟨⟨k, steps⟩, isImport, loc⟩
  apply find_eq_ok_iff.mpr ⟨climbs.lt_size, ?_⟩
  cases climbs with
  | here => exact .inr (.inr ⟨rfl, rootless rfl, found⟩)
  | up above rest => exact .inl ⟨Nat.succ_ne_zero _, (rest.up above).climb found⟩

/-- An address is the name of a root and the names on the way down from it. -/
theorem exists_descends (h : t.Arena) (inside : n < t.size) :
    ∃ root steps r, t.address n = root :: steps ∧ t.rootIndex? root = some r ∧ t.Descends r steps n := by
  induction n using Nat.strongRecOn with
  | ind n ih =>
      obtain ⟨name, root⟩ | ⟨k, name, before, child⟩ := h.root_or_child inside
      · exact ⟨name, [], n, address_of_root root, h.root.mpr root, .here n⟩
      · obtain ⟨root, steps, r, address, known, down⟩ := ih k before (by omega)
        obtain ⟨s, here⟩ := exists_scope (show k < t.size by omega)
        have named := (h.child here).mpr child
        refine ⟨root, steps ++ [name], r, ?_, known, down.snoc here named⟩
        rw [h.address_of_child child, address, List.cons_append]

theorem find_absolute (h : t.Arena) {s : Scope} (there : t.scopes[n]? = some s) (kind : s.isMacro)
    (inside : o < t.size) (isImport : Bool) (loc : Location) :
    t.find o ⟨⟨0, t.address n⟩, isImport, loc⟩ = .ok n := by
  obtain ⟨root, steps, r, address, known, down⟩ := h.exists_descends (ScopeTree.lt_size there)
  have found := h.descend down there kind ⟨⟨0, t.address n⟩, isImport, loc⟩
  exact find_eq_ok_iff.mpr ⟨inside, .inr (.inl ⟨rfl, root, steps, r, address, known, found⟩)⟩

theorem fit_of_mem_address (h : t.Arena) (called : t.Every (Scope.Called fit)) (inside : n < t.size) :
    ∀ step ∈ t.address n, fit step := by
  have named {p : Option Int} {m : Nat} {name : String} (named : t.Named m p name) : fit name := by
    obtain ⟨s, here, -, rfl⟩ := named
    exact called.scope here
  induction n using Nat.strongRecOn with
  | ind n ih =>
      obtain ⟨name, root⟩ | ⟨k, name, before, child⟩ := h.root_or_child inside
      · rw [address_of_root root]
        exact List.forall_mem_singleton.mpr (named root)
      · rw [h.address_of_child child]
        exact List.forall_mem_append.mpr
          ⟨ih k before (by omega), List.forall_mem_singleton.mpr (named child)⟩

theorem parse_fullName (h : t.Arena) (words : t.Every Scope.Worded) (inside : n < t.size) :
    Path.parse (t.fullName n) = .ok ⟨0, t.address n⟩ := by
  have spelled : t.fullName n = Path.render ⟨0, t.address n⟩ := by
    simp [fullName, Path.render, address]
  rw [spelled]
  apply Path.parse_render
  exact ⟨h.fit_of_mem_address words inside,
    Nat.add_pos_right 0 (List.length_pos_iff.mpr (h.address_ne_nil inside))⟩

end Arena

/-- The full name of a macro is a path that leads to it from every scope, no two scopes have
the same full name, and the way up and then down by children leads to a macro as well, except
where it begins with the name of a root. -/
theorem Worded.addressable (h : t.Worded) :
    (∀ (n : Nat) (s : Scope), t.scopes[n]? = some s → s.isMacro → ∃ path,
      Path.parse (t.fullName n) = .ok path ∧
        ∀ o < t.size, ∀ isImport loc, t.find o ⟨path, isImport, loc⟩ = .ok n) ∧
    (∀ n < t.size, ∀ m < t.size, t.fullName n = t.fullName m → n = m) ∧
    ∀ (o k a n : Nat) (steps : List String) (s : Scope), t.Climbs o k a → t.Descends a steps n →
      t.scopes[n]? = some s → s.isMacro → (k = 0 → ∀ name ∈ steps.head?, t.rootIndex? name = none) →
      ∀ isImport loc, t.find o ⟨⟨k, steps⟩, isImport, loc⟩ = .ok n := by
  have arena := h.fits
  refine ⟨?_, ?_, ?_⟩
  · intro n s there kind
    refine ⟨⟨0, t.address n⟩, arena.parse_fullName h.every (lt_size there), ?_⟩
    intro o inside isImport loc
    exact arena.find_absolute there kind inside isImport loc
  · intro n inside m inside' same
    have read := arena.parse_fullName h.every inside
    rw [same, arena.parse_fullName h.every inside'] at read
    have addresses : t.address m = t.address n := congrArg Path.steps (Except.ok.inj read)
    exact arena.address_injective inside inside' addresses.symm
  · intro o k a n steps s climbs down there kind rootless isImport loc
    exact arena.find_relative climbs down there kind rootless isImport loc

/-- A text that defines three macros of one name and has imported one of them. -/
def crossing : Source := ⟨"m", ":b\x7b:b\x7b\x7d\x7d:c\x7buse #^b/b :d\x7b:b\x7b\x7d\x7d\x7d"⟩

/-- What it is loaded into. -/
def crossed : ScopeTree where
  scopes := #[⟨0, "main", none, none, [("b", 1), ("c", 3)], [], some []⟩,
    ⟨1, "b", some 0, some ⟨"m", 1, 1⟩, [("b", 2)], [], some []⟩,
    ⟨2, "b", some 1, some ⟨"m", 1, 4⟩, [], [], some []⟩,
    ⟨3, "c", some 0, some ⟨"m", 1, 9⟩, [("d", 4)], [("b", ⟨some 1, "b", ⟨"m", 1, 12⟩⟩)], some []⟩,
    ⟨4, "d", some 3, some ⟨"m", 1, 22⟩, [("b", 5)], [], some []⟩,
    ⟨5, "b", some 4, some ⟨"m", 1, 25⟩, [], [], some []⟩]
  roots := [("main", 0)]

private theorem crossing_loaded : (ScopeTree.empty.load .extended "main" crossing).1 = crossed := by
  decide +kernel

theorem Worded.addressable_crossed :
    crossed.Worded ∧ crossed.fullName 5 = "main/c/d/b" ∧
      (∃ path, Path.parse "main/c/d/b" = .ok path ∧
        crossed.find 2 ⟨path, false, .start "m"⟩ = .ok 5) ∧
      crossed.find 5 ⟨⟨3, ["b", "b"]⟩, false, .start "m"⟩ = .ok 2 := by
  have worded : crossed.Worded := by
    rw [← crossing_loaded]
    have word : IsName "main" := by simp [IsName, Token.isNameChar]
    exact .load .empty .extended word crossing
  have name : crossed.fullName 5 = "main/c/d/b" := by decide +kernel
  obtain ⟨absolute, -, relative⟩ := worded.addressable
  obtain ⟨path, read, found⟩ := absolute 5 _ rfl rfl
  have climbs : crossed.Climbs 5 3 0 :=
    .up ⟨_, _, rfl, rfl, rfl⟩ (.up ⟨_, _, rfl, rfl, rfl⟩ (.up ⟨_, _, rfl, rfl, rfl⟩ (.here (by decide))))
  have down : crossed.Descends 0 ["b", "b"] 2 := .down rfl rfl (.down rfl rfl (.here 2))
  exact ⟨worded, name, ⟨path, name ▸ read, found 2 (by decide) false _⟩,
    relative 5 3 0 2 _ _ climbs down rfl rfl (fun level => absurd level (by decide)) false _⟩

end ScopeTree

end ByteTape
