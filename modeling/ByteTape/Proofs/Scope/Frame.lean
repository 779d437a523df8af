import ByteTape.Proofs.Scope.Collects

/-! # What a build leaves alone

A build adds a root and scopes below it. Whether it succeeds or breaks off, it changes no
scope that was there before, and it only ever adds to the list of roots. So whatever a
reference led to it still leads to, however the tree grows; the one exception is a
reference whose first step is the name of the root that was added. This is about the scope
from which a reference is seen: a number that counts from the end may mean another scope
once there are more of them.
-/

namespace ByteTape.ScopeTree

variable {t : ScopeTree}

/-- The scopes and the roots that `t` has stand in `t'` as they are. -/
structure Within (t t' : ScopeTree) : Prop where
  scope : ∀ {k : Nat} {s : Scope}, t.scopes[k]? = some s → t'.scopes[k]? = some s
  roots : t.roots <+: t'.roots

theorem Within.refl (t : ScopeTree) : t.Within t := ⟨id, List.prefix_rfl⟩

theorem Within.of_addRoot {t' : ScopeTree} {name : String} {n : Nat}
    (added : t.addRoot name = .ok (t', n)) : t.Within t' := by
  obtain ⟨-, -, rfl⟩ := addRoot_eq_ok added
  exact ⟨fun here => getElem?_push_eq_some_iff.mpr (.inr here), List.prefix_append ..⟩

theorem Within.fill {t' t'' : ScopeTree} {n : Nat} (h : t.Within t') (fills : Fills n t' t'')
    (new : t.size ≤ n) : t.Within t'' where
  scope {k s} here := by
    have inside := lt_size here
    have kept := h.scope here
    rw [fills.old (lt_size kept) (by omega), kept]
  roots := fills.roots ▸ h.roots

/-- A build that fails, however deep, leaves as much alone as one that succeeds. -/
theorem Within.of_build (t : ScopeTree) (root : String) (items : List Item) :
    t.Within (t.build root items).1 := by
  obtain same | ⟨t₁, n, added, same⟩ := build_cases t root items
  · rw [same]
    exact .refl t
  · obtain ⟨-, new, -⟩ := addRoot_eq_ok added
    have filled := (of_addRoot added).fill (.of_collect t₁ n items) (Nat.le_of_eq new.symm)
    obtain same | ⟨own, -, same⟩ := same
    · rw [same]
      exact filled
    · rw [same]
      exact filled.fill (.modify ..) (Nat.le_of_eq new.symm)

theorem build_declared {root : String} (known : t.rootIndex? root ≠ none) (items : List Item) :
    t.build root items = (t, .error (.rootDeclared root)) := by
  cases declared : t.rootIndex? root with
  | none => exact absurd declared known
  | some r => simp only [build, addRoot, declared]

theorem Reached.upright (h : t.Reached) : t.Upright := by
  induction h with
  | empty => exact .empty
  | grow _ _ ih => exact (Grown.of_grow ih _).upright

/-- A reference that does not begin with the name of the added root leads where it led. -/
theorem Grown.find {t' : ScopeTree} {new : Option String} (h : Grown t t' new) (up : t.Upright)
    {n m : Nat} {ref : Reference} (found : t.find n ref = .ok m)
    (other : ref.path.up = 0 → ∀ name ∈ ref.path.steps.head?, name ∈ new → t.rootIndex? name ≠ none) :
    t'.find n ref = .ok m := by
  apply h.grows.find up ?_ found
  intro level name first unknown
  have old : name ∉ new := fun added => other level name first added unknown
  rw [h.roots old, unknown]

/-- A build leaves alone what is there, and no way of growing a tree changes what a reference
leads to from a scope, except for a reference without a way up whose first step is the name of
the root that was added. The scope may be given by any number; one that does not count from
the end stays its number. -/
theorem Reached.undisturbed (h : t.Reached) :
    (∀ root items, t.Within (t.build root items).1 ∧
      (t.rootIndex? root ≠ none → t.build root items = (t, .error (.rootDeclared root)))) ∧
    ∀ (g : Growth) (i : Int) (n m : Nat) (ref : Reference), t.position? i = some n →
      t.find n ref = .ok m →
      (ref.path.up = 0 → ∀ name ∈ ref.path.steps.head?, name ∈ g.newRoot? → t.rootIndex? name ≠ none) →
      (t.grow g).find n ref = .ok m ∧ (0 ≤ i → (t.grow g).position? i = some n) := by
  constructor
  · intro root items
    exact ⟨.of_build t root items, fun known => build_declared known items⟩
  · intro g i n m ref place found other
    have grown := Grown.of_grow h.upright g
    exact ⟨grown.find h.upright found other, fun front => grown.grows.position front place⟩

/-- A library and a text that imports its macro. -/
def importing (loc : Location) : List Growth :=
  [.build "lib" [.define "a" [.define "b" [] loc] loc],
    .build "main" [.use ⟨0, ["lib", "a"]⟩ loc, .define "c" [] loc]]

/-- Items that break off below the macro they define. -/
def brokenOff (loc : Location) : List Item := [.define "d" [.define "e" [] loc, .define "e" [] loc] loc]

/-- The broken build gives its root the name that the text has imported. From the last scope
that name still leads to the library by way of the text. -/
theorem Reached.undisturbed_importing :
    let t := ScopeTree.empty.grownFrom (importing (.start "m"))
    let built := t.build "a" (brokenOff (.start "m"))
    built.2 = .error (.alreadyDefined "e" "a/d" (some (.start "m"))) ∧ t.Within built.1 ∧
      t.position? (-1) = some 4 ∧ t.find 4 ⟨⟨1, ["a"]⟩, false, .start "m"⟩ = .ok 1 ∧
      built.1.find 4 ⟨⟨1, ["a"]⟩, false, .start "m"⟩ = .ok 1 := by
  have reached : (ScopeTree.empty.grownFrom (importing (.start "m"))).Reached := by
    simp only [grownFrom, importing, List.foldl_cons, List.foldl_nil]
    refine .grow (.grow .empty ?_) ?_ <;> trivial
  have failed : ((ScopeTree.empty.grownFrom (importing (.start "m"))).build "a"
      (brokenOff (.start "m"))).2 = .error (.alreadyDefined "e" "a/d" (some (.start "m"))) := by decide +kernel
  have last : (ScopeTree.empty.grownFrom (importing (.start "m"))).position? (-1) = some 4 := by decide +kernel
  have found : (ScopeTree.empty.grownFrom (importing (.start "m"))).find 4
      ⟨⟨1, ["a"]⟩, false, .start "m"⟩ = .ok 1 := by decide +kernel
  have kept := reached.undisturbed.2 (.build "a" (brokenOff (.start "m"))) (-1) 4 1 _ last found
    fun level => absurd level (by decide)
  exact ⟨failed, (reached.undisturbed.1 "a" _).1, last, found, kept.1⟩

/-- A library, and after it a text with a macro of the same name. Seen from the last scope the
path leads to the one macro before the text is built, and to the other afterwards. -/
theorem Reached.disturbed_from_end :
    let t := ScopeTree.empty.grow (.build "lib" [.define "a" [] (.start "l")])
    let t' := t.grow (.build "main" [.define "a" [] (.start "m")])
    t.Reached ∧ t.position? (-1) = some 1 ∧ t.find 1 ⟨⟨1, ["a"]⟩, false, .start "p"⟩ = .ok 1 ∧
      t'.position? (-1) = some 3 ∧ t'.find 3 ⟨⟨1, ["a"]⟩, false, .start "p"⟩ = .ok 3 := by
  refine ⟨.grow .empty ?_, ?_, ?_, ?_, ?_⟩
  · trivial
  all_goals decide +kernel

end ByteTape.ScopeTree
