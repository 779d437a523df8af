import ByteTape.Proofs.Build.Copies
import ByteTape.Proofs.Build.Failures
import ByteTape.Proofs.Fallible

/-! # Programs beside a library

A library that is loaded before a text moves the numbers of the scopes and adds a root.
A text that does not mention this root makes the same program with the library as
without it.
-/

namespace ByteTape

/-- If nothing in the items begins with the name of a root, nothing in what is stored does. -/
theorem Item.sorts_silent (root : String) :
    Item.Sorts (fun item => ∀ ref ∈ item.mentions, ¬ ref.Begins root)
      (fun item => ∀ ref ∈ item.refs, ¬ ref.Begins root) := by
  refine ⟨fun {name body loc} silent item inside ref there => ?_, fun {item} silent _ _ ref there => ?_⟩
  · refine silent ref ?_
    rw [Item.mentions, Item.mem_mentionsOf_iff]
    exact ⟨item, inside, there⟩
  · exact silent ref (Item.mem_mentions_of_refs item there)

namespace ScopeTree

variable {t library : ScopeTree} {root libraryRoot : String} {items : List Item}

/-- The names that only a tree with a library has. -/
def beside (libraryRoot : String) (scope : Option Nat) (name : String) : Prop :=
  scope = none ∧ name = libraryRoot

theorem clear_beside {ref : Reference} (silent : ¬ ref.Begins libraryRoot) :
    Clear (beside libraryRoot) ref.path := by
  rintro level name first ⟨-, rfl⟩
  exact silent ⟨level, first⟩

theorem lockstep_empty (grown : Grown .empty library (some libraryRoot)) :
    Lockstep (library.size + ·) (beside libraryRoot) .empty library := by
  refine ⟨fun i => congrArg _ (Nat.zero_add i), add_right_injective _, ?_, fun {name} other => ?_⟩
  · intro n s here
    simp [ScopeTree.empty] at here
  · exact grown.roots fun same => other ⟨rfl, (Option.some.inj same).symm⟩

theorem avoids_beside (grown : Grown .empty t (some root)) (distinct : root ≠ libraryRoot) :
    t.Avoids (beside libraryRoot) := by
  refine ⟨fun _ _ extra => (by cases extra.1), ?_⟩
  rintro n name known ⟨-, rfl⟩
  rw [grown.roots fun same => distinct (Option.some.inj same)] at known
  cases known

/-- What is built alone is copied when it is built beside a library. -/
theorem copies_beside (grown : Grown .empty library (some libraryRoot)) (distinct : root ≠ libraryRoot)
    (silent : ∀ ref ∈ Item.mentionsOf items, ¬ ref.Begins libraryRoot)
    (built : ScopeTree.empty.build root items = (t, .ok ())) :
    ∃ f t', library.build root items = (t', .ok ()) ∧ Copies f t t' := by
  have alone := Grown.of_build .empty root items
  rw [built] at alone
  have avoids := avoids_beside alone distinct
  obtain ⟨t', built', lockstep⟩ := (lockstep_empty grown).build built .empty avoids
    fun ref there => clear_beside (silent ref there)
  have stored := stores_build (Item.sorts_silent libraryRoot) .empty root
    fun item there ref mentioned => silent ref (Item.mem_mentionsOf_iff.mpr ⟨item, there, mentioned⟩)
  rw [built] at stored
  refine ⟨_, t', built', lockstep.copies alone.upright avoids fun {n ref} there => ?_⟩
  obtain ⟨item, inside, mentioned⟩ := Item.mem_refsOf_iff.mp there
  exact clear_beside (stored.stores_itemsOf n item inside ref mentioned)

end ScopeTree

namespace Build

/-- A library does not change the program of a text that does not mention it. -/
theorem library_unnoticed (r : Recipe) (library : Source) {b : Build} (distinct : r.root ≠ r.libraryRoot)
    (alone : ofRecipe { r with library := none } = .ok b)
    (builds : (ScopeTree.empty.load r.dialect r.libraryRoot library).2 = .ok ())
    (silent : ∀ items, Item.parse r.dialect r.source.file r.source.text = .ok items →
      ∀ ref ∈ Item.mentionsOf items, ¬ ref.Begins r.libraryRoot) :
    ∃ b', ofRecipe { r with library := some library } = .ok b' ∧ b'.program = b.program := by
  obtain ⟨made, program⟩ := ofRecipe_eq_ok_iff.mp alone
  obtain ⟨t₀, none, loaded⟩ := treeOf_eq_ok_iff.mp made
  obtain rfl : ScopeTree.empty = t₀ := Except.ok.inj none
  obtain ⟨items, parsed, built⟩ := ScopeTree.load_eq_ok_iff.mp loaded
  have grown : ScopeTree.Grown .empty (ScopeTree.empty.load r.dialect r.libraryRoot library).1
      (some r.libraryRoot) := .load .empty
  obtain ⟨f, t', built', copies⟩ := ScopeTree.copies_beside grown distinct (silent items parsed) built
  have first : libraryTree { r with library := some library } = .ok _ :=
    libraryTree_eq_ok_iff.mpr (.inr ⟨library, rfl, Prod.ext rfl builds⟩)
  have second := ScopeTree.load_eq_ok_iff.mpr ⟨items, parsed, built'⟩
  refine ⟨⟨t', b.program⟩, ofRecipe_eq_ok_iff.mpr ⟨treeOf_eq_ok_iff.mpr ⟨_, first, second⟩, ?_⟩, rfl⟩
  exact copies.program (arena_treeOf made) program

/-- A text that imports one of its own macros. -/
def importing : Recipe :=
  ⟨⟨"m", ":a\x7b+\x7d:b\x7buse #^a #a\x7d#b"⟩, "main", none, "lib", .extended⟩

/-- A library that runs, with a macro that has the name of one of those of the text. -/
def running : Source := ⟨"l", ":a\x7b-\x7d#a"⟩

private theorem importing_parsed :
    Item.parse .extended "m" ":a\x7b+\x7d:b\x7buse #^a #a\x7d#b" =
      .ok [.define "a" [.op .increment ⟨"m", 1, 4⟩] ⟨"m", 1, 1⟩,
        .define "b" [.use ⟨1, ["a"]⟩ ⟨"m", 1, 9⟩, .ref ⟨0, ["a"]⟩ ⟨"m", 1, 17⟩] ⟨"m", 1, 6⟩,
        .ref ⟨0, ["b"]⟩ ⟨"m", 1, 20⟩] := by
  decide +kernel

theorem importing_besideRunning :
    importing.root ≠ importing.libraryRoot ∧
    (ScopeTree.empty.load .extended "lib" running).2 = .ok () ∧
    ∃ b b', ofRecipe importing = .ok b ∧ ofRecipe { importing with library := some running } = .ok b' ∧
      b'.program = b.program ∧ b.program.render true = "+" := by
  have made : (ofRecipe importing).map (·.program.render true) = .ok "+" := by
    decide +kernel
  have builds : (ScopeTree.empty.load .extended "lib" running).2 = .ok () := by
    decide +kernel
  have distinct : importing.root ≠ importing.libraryRoot := by decide
  obtain ⟨b, done, printed⟩ := map_eq_ok made
  obtain ⟨b', made', same⟩ := library_unnoticed importing running distinct done builds
    fun items parsed => by
      obtain rfl := Except.ok.inj (importing_parsed.symm.trans parsed)
      simp [Item.mentionsOf, Item.mentions, Reference.Begins, importing]
  exact ⟨distinct, builds, b, b', done, made', same, printed⟩

end Build

end ByteTape
