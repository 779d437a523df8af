import Mathlib.Data.List.Chain
import Mathlib.Data.List.Nodup
import ByteTape.Proofs.Expansion.Cache
import ByteTape.Proofs.Scope.Bodies

/-! # Cyclic inclusion

Expansion goes down the inclusions of a scope and stops where a macro is under way
already. It comes to code exactly if every reference on the way leads somewhere and
no macro on the way includes itself, directly or through others. The chain that is
reported otherwise is a way along inclusions that comes back to itself.
-/

namespace ByteTape

namespace Item

variable {look : Reference → Except ExpansionError Code} {e : ExpansionError}

private theorem look_error_of_members {items : List Item}
    (each : ∀ item ∈ items, item.code look = .error e → ∃ ref ∈ item.refs, look ref = .error e)
    (failed : codes look items = .error e) : ∃ ref ∈ refsOf items, look ref = .error e := by
  induction items with
  | nil => cases failed
  | cons first rest ih =>
      simp only [codes] at failed
      split at failed
      · next front =>
          cases failed
          obtain ⟨ref, there, same⟩ := each first List.mem_cons_self front
          exact ⟨ref, List.mem_append_left _ there, same⟩
      · split at failed
        · next back =>
            cases failed
            obtain ⟨ref, there, same⟩ :=
              ih (fun item there => each item (List.mem_cons_of_mem _ there)) back
            exact ⟨ref, List.mem_append_right _ there, same⟩
        · cases failed

theorem Expandable.look_error {item : Item} (fit : item.Expandable)
    (failed : item.code look = .error e) : ∃ ref ∈ item.refs, look ref = .error e := by
  induction fit with
  | op | debug | text => cases failed
  | ref path loc => exact ⟨_, List.mem_singleton_self _, failed⟩
  | group loc inside ih =>
      simp only [code] at failed
      exact look_error_of_members ih failed
  | times loc valued inside ih =>
      obtain ⟨n, value⟩ := valued
      simp only [code, value] at failed
      split at failed
      · next found =>
          cases failed
          exact ih found
      · cases failed

theorem look_error_of_codes {items : List Item} (fit : ∀ item ∈ items, item.Expandable)
    (failed : codes look items = .error e) : ∃ ref ∈ refsOf items, look ref = .error e :=
  look_error_of_members (fun item there => (fit item there).look_error) failed

end Item

namespace ScopeTree

theorem Every.stores_itemsOf {t : ScopeTree} {fit : Item → Prop} (stores : t.Every (Scope.Stores fit))
    (n : Nat) : ∀ item ∈ t.itemsOf n, fit item := by
  unfold ScopeTree.itemsOf
  cases here : t.scopes[n]? with
  | none => exact fun _ none => (by cases none)
  | some s => exact stores.scope here

end ScopeTree

namespace Expansion

open Relation

variable {t : ScopeTree} {chain : List Nat} {n m : Nat} {code : Code}

theorem scopeCode_eq (t : ScopeTree) (n : Nat) : scopeCode t n = bodyCode t [] n := by
  obtain ⟨known, run, -⟩ := gives_codeOf_nil t n (t.itemsOf n) ∅ (valid_empty t)
  rw [bodyCode_eq]
  exact congrArg Prod.fst run

theorem bodyCode_below (done : bodyCode t chain n = .ok code)
    (below : ReflTransGen t.Includes n m) : ∃ chain' part, bodyCode t chain' m = .ok part := by
  induction below with
  | refl => exact ⟨chain, code, done⟩
  | tail _ included ih =>
      obtain ⟨chain', part, done'⟩ := ih
      obtain ⟨-, part', done''⟩ := bodyCode_of_includes done' included
      exact ⟨_, part', done''⟩

/-- Every reference in the bodies from scope `n` on leads to a macro. -/
def Resolved (t : ScopeTree) (n : Nat) : Prop :=
  ∀ m, ReflTransGen t.Includes n m → ∀ ref ∈ Item.refsOf (t.itemsOf m), ∃ k, t.find m ref = .ok k

/-- No scope from `n` on includes itself. -/
def Acyclic (t : ScopeTree) (n : Nat) : Prop :=
  ∀ m, ReflTransGen t.Includes n m → ¬ TransGen t.Includes m m

theorem resolved_of_bodyCode (done : bodyCode t chain n = .ok code) : Resolved t n := by
  intro m below ref there
  obtain ⟨chain', part, done'⟩ := bodyCode_below done below
  rw [bodyCode_eq] at done'
  obtain ⟨part', known⟩ := Item.look_ok_of_codes _ done' ref there
  obtain ⟨k, found, -⟩ := refCode_eq_ok_iff.mp known
  exact ⟨k, found⟩

theorem bodyCode_of_acyclic (fit : t.Every Scope.Expandable) (resolved : Resolved t n)
    (acyclic : Acyclic t n) (clear : ∀ m, TransGen t.Includes n m → m ∉ chain) :
    ∃ code, bodyCode t chain n = .ok code := by
  induction chain, n using chain_induction (t := t) with
  | step chain n ih =>
      rcases result : bodyCode t chain n with e | code
      · -- the error would be that of a reference, whose macro has code by induction
        rw [bodyCode_eq] at result
        obtain ⟨ref, there, failed⟩ := Item.look_error_of_codes (fit.stores_itemsOf n) result
        obtain ⟨m, found⟩ := resolved n .refl ref there
        have included : t.Includes n m := ⟨ref, there, found⟩
        have fresh := clear m (.single included)
        have further : ∀ k, TransGen t.Includes m k → k ∉ chain ++ [m] := by
          intro k below under
          obtain under | same := List.mem_append.mp under
          · exact clear k (.head included below) under
          · exact acyclic m (.single included) (List.mem_singleton.mp same ▸ below)
        obtain ⟨part, done⟩ := ih m included fresh (fun k below => resolved k (.head included below))
          (fun k below => acyclic k (.head included below)) further
        rw [refCode_eq_ok_iff.mpr ⟨m, found, fresh, done⟩] at failed
        cases failed
      · exact ⟨code, rfl⟩

theorem bodyCode_ok_iff (fit : t.Every Scope.Expandable) :
    (∃ code, bodyCode t [] n = .ok code) ↔ Resolved t n ∧ Acyclic t n := by
  constructor
  · intro ⟨code, done⟩
    refine ⟨resolved_of_bodyCode done, fun m below => ?_⟩
    obtain ⟨_, _, done'⟩ := bodyCode_below done below
    exact acyclic_of_bodyCode done'
  · intro ⟨resolved, acyclic⟩
    exact bodyCode_of_acyclic fit resolved acyclic fun _ _ none => (by cases none)

/-- The macros `chain` lead from scope `start` to scope `n`, each including the next. -/
structure Trail (t : ScopeTree) (start n : Nat) (chain : List Nat) : Prop where
  linked : List.IsChain t.Includes (start :: chain)
  ends : (start :: chain).getLast? = some n
  distinct : chain.Nodup
  inside : ∀ m ∈ chain, m < t.size

namespace Trail

variable {start : Nat}

theorem begin (t : ScopeTree) (start : Nat) : Trail t start start [] :=
  ⟨.singleton start, rfl, List.nodup_nil, fun _ none => (by cases none)⟩

theorem linked_on (h : Trail t start n chain) (included : t.Includes n m) :
    List.IsChain t.Includes (start :: (chain ++ [m])) := by
  rw [← List.cons_append, List.isChain_append]
  refine ⟨h.linked, .singleton m, fun x last y first => ?_⟩
  rw [h.ends] at last
  obtain rfl := Option.some.inj last
  obtain rfl := Option.some.inj first
  exact included

theorem extend (h : Trail t start n chain) (included : t.Includes n m) (fresh : m ∉ chain) :
    Trail t start m (chain ++ [m]) := by
  refine ⟨h.linked_on included, ?_, ?_, fun k there => ?_⟩
  · rw [← List.cons_append, List.getLast?_append, List.getLast?_singleton, Option.some_or]
  · rw [← List.concat_eq_append]
    exact List.Nodup.concat fresh h.distinct
  · obtain there | same := List.mem_append.mp there
    · exact h.inside k there
    · exact List.mem_singleton.mp same ▸ included.lt_size

end Trail

theorem chainNames_eq {ids : List Nat} (inside : ∀ n ∈ ids, n < t.size) :
    chainNames t (ids.map Nat.cast) = .ok (ids.map t.fullName) := by
  induction ids with
  | nil => rfl
  | cons n ids ih =>
      obtain ⟨here, rest⟩ := List.forall_mem_cons.mp inside
      have place : t.position (n : Int) = .ok n :=
        ScopeTree.position_eq_ok_iff.mpr (ScopeTree.position?_natCast here)
      rw [List.map_cons, chainNames, place, ih rest]
      rfl

theorem cycle_eq (inside : ∀ n ∈ chain, n < t.size) (here : m < t.size) (loc : Location) :
    cycle t (chain.map Nat.cast) m loc = .cyclic ((chain ++ [m]).map t.fullName) loc := by
  have all : ∀ n ∈ chain ++ [m], n < t.size := by
    intro n there
    obtain there | same := List.mem_append.mp there
    · exact inside n there
    · exact List.mem_singleton.mp same ▸ here
  have names := chainNames_eq all
  rw [List.map_append] at names
  unfold cycle
  rw [show [(m : Int)] = [m].map Nat.cast from rfl, names]

/-- The names are those of macros that lead from scope `start` along inclusions, no
two of them the same, and back to one of them. -/
def Returns (t : ScopeTree) (start : Nat) (names : List String) : Prop :=
  ∃ chain last, names = (chain ++ [last]).map t.fullName ∧
    List.IsChain t.Includes (start :: (chain ++ [last])) ∧ chain.Nodup ∧ last ∈ chain

/-- A chain that is reported is what was under way, with the macro that was met again. -/
theorem Trail.returns {start : Nat} (fit : t.Every Scope.Expandable) (trail : Trail t start n chain)
    {names : List String} {loc : Location}
    (failed : bodyCode t chain n = .error (.cyclic names loc)) : Returns t start names := by
  induction chain, n using chain_induction (t := t) with
  | step chain n ih =>
      rw [bodyCode_eq] at failed
      obtain ⟨ref, there, failed⟩ := Item.look_error_of_codes (fit.stores_itemsOf n) failed
      unfold refCode at failed
      split at failed
      · cases failed
      · next m found =>
          have included : t.Includes n m := ⟨ref, there, found⟩
          split at failed
          · next under =>
              rw [cycle_eq trail.inside (ScopeTree.find_lt found)] at failed
              cases failed
              exact ⟨chain, m, rfl, trail.linked_on included, trail.distinct, under⟩
          · next fresh => exact ih m included fresh (trail.extend included fresh) failed

/-- In a tree that was made by loading texts, a scope has code exactly if every
reference on the way leads somewhere and there is no cycle on the way; and a cycle
that is reported is one. -/
theorem scopeCode_ok_iff_and_cyclic (loaded : t.Loaded) (n : Nat) :
    ((∃ code, scopeCode t n = .ok code) ↔ Resolved t n ∧ Acyclic t n) ∧
      ∀ names loc, scopeCode t n = .error (.cyclic names loc) → Returns t n names := by
  rw [scopeCode_eq]
  refine ⟨bodyCode_ok_iff loaded.expandable, fun names loc failed => ?_⟩
  exact (Trail.begin t n).returns loaded.expandable failed

/-- A text with a macro that includes itself no times. -/
def selfIncluding : String := ":a\x7b(#^a)0\x7d#a"

def selfIncludingTree : ScopeTree := (ScopeTree.empty.load .extended "main" ⟨"m", selfIncluding⟩).1

theorem scopeCode_selfIncluding :
    selfIncludingTree.Loaded ∧
      scopeCode selfIncludingTree 0 = .error (.cyclic ["main/a", "main/a"] ⟨"m", 1, 5⟩) ∧
      Returns selfIncludingTree 0 ["main/a", "main/a"] ∧
      ¬ (Resolved selfIncludingTree 0 ∧ Acyclic selfIncludingTree 0) := by
  have loaded : selfIncludingTree.Loaded := .load .empty _ _ _
  have failed : scopeCode selfIncludingTree 0 =
      .error (.cyclic ["main/a", "main/a"] ⟨"m", 1, 5⟩) := by
    decide +kernel
  obtain ⟨succeeds, returns⟩ := scopeCode_ok_iff_and_cyclic loaded 0
  refine ⟨loaded, failed, returns _ _ failed, fun fine => ?_⟩
  obtain ⟨code, done⟩ := succeeds.mpr fine
  cases failed.symm.trans done

end Expansion

end ByteTape
