import ByteTape.Proofs.Scope.Arena
import ByteTape.Proofs.Scope.Bodies

/-! # What can fail in a tree

In a tree whose numbers fit together, a path fails only for a reason that lies in the
path, and the building of scopes only for one that lies in a definition or an import.
The error then points at the reference, the definition or the import. No number is
missing on the way, and every import is still bound to its macro.
-/

namespace ByteTape

/-- The error is one about something that stands at `loc`. -/
def ScopeError.Blames (loc : Location) : ScopeError → Prop
  | alreadyDefined _ _ place => place = some loc
  | alreadyBound _ _ place | aboveRoot _ _ place | throughAlias _ _ place
  | unknownMacro _ _ _ place | notMacro _ _ place => place = loc
  | badImport cause place => place = loc ∧ cause.Blames loc
  | unknownRoot _ | rootDeclared _ | noScope | noChild _ | noHolder => False

theorem ScopeError.Blames.isLanguage {e : ScopeError} {loc : Location} (h : e.Blames loc) :
    e.isLanguage := by
  cases e <;> first | rfl | cases h

namespace ScopeTree

variable {t t' : ScopeTree} {n : Nat} {e : ScopeError}

theorem Leads.aliasTarget {a : Alias} (h : t.Leads a) : ∃ m, t.aliasTarget a = .ok m ∧ m < t.size := by
  obtain ⟨k, m, holder, held, here, child, named⟩ := h
  have place := position?_natCast (lt_size here)
  exact ⟨m, aliasTarget_eq_ok_iff.mpr ⟨k, k, holder, held, place, here, child⟩, named.lt_size⟩

namespace Arena

theorem upright (h : t.Arena) : t.Upright := by
  refine ⟨fun {k} {s} here => ⟨fun {i} parent => (h.parent here parent).1, fun bound held => ?_⟩⟩
  obtain ⟨m, -, -, known, -⟩ := h.imported here bound
  cases held.symm.trans known
  exact Int.natCast_nonneg m

theorem descend_error (h : t.Arena) {ref : Reference} {steps : List String} (inside : n < t.size)
    (failed : (t.descend ref n steps).outcome = .error e) : e.Blames ref.loc := by
  obtain ⟨s, here⟩ := exists_scope inside
  induction steps generalizing n s with
  | nil =>
      simp only [descend, here] at failed
      split at failed
      · cases failed
      · cases failed
        rfl
  | cons name steps ih =>
      rw [descend.eq_def] at failed
      simp only [here] at failed
      split at failed
      · next a bound =>
          split at failed
          · cases failed
            rfl
          · -- the import is the last step, and it still leads to its macro
            obtain ⟨m, goal, below⟩ := (h.imported here bound).aliasTarget
            simp only [goal] at failed
            obtain ⟨s', there⟩ := exists_scope below
            exact ih below failed s' there
      · split at failed
        · next m named =>
            have below := ((h.child here).mp named).lt_size
            obtain ⟨s', there⟩ := exists_scope below
            exact ih below failed s' there
        · cases failed
          rfl

theorem climb_error (h : t.Arena) {ref : Reference} {k : Nat} (inside : n < t.size)
    (failed : (t.climb ref n k).outcome = .error e) : e.Blames ref.loc := by
  induction k generalizing n with
  | zero => exact h.descend_error inside failed
  | succ k ih =>
      obtain ⟨s, here⟩ := exists_scope inside
      simp only [climb, here] at failed
      split at failed
      · cases failed
        rfl
      · next i parent =>
          obtain ⟨positive, before⟩ := h.parent here parent
          obtain ⟨up, rfl⟩ := Int.eq_ofNat_of_zero_le positive
          have below : up < t.size := by omega
          obtain ⟨s', there⟩ := exists_scope below
          simp only [position?_natCast below, there] at failed
          exact ih below failed

theorem find_error (h : t.Arena) {ref : Reference} (inside : n < t.size)
    (failed : t.find n ref = .error e) : e.Blames ref.loc := by
  unfold find walk at failed
  rw [if_neg (Nat.not_le.mpr inside)] at failed
  split at failed
  · unfold anchor at failed
    split at failed
    · exact h.descend_error inside failed
    · split at failed
      · next root known =>
          exact h.descend_error (h.root.mp known).lt_size failed
      · exact h.descend_error inside failed
  · exact h.climb_error inside failed

theorem findImport_error (h : t.Arena) {path : Path} {loc : Location} (inside : n < t.size)
    (failed : t.findImport n path loc = .error e) : e.Blames loc := by
  unfold findImport at failed
  split at failed
  · cases failed
  · next cause unfound =>
      have blamed := h.find_error inside unfound
      rw [if_pos blamed.isLanguage] at failed
      cases failed
      exact ⟨rfl, blamed⟩

end Arena

theorem addMacro_error {name : String} {loc : Location} (inside : n < t.size)
    (failed : t.addMacro n name (some loc) = .error e) : e.Blames loc := by
  obtain ⟨s, here⟩ := exists_scope inside
  cases bound : s.binds name with
  | true =>
      simp [addMacro, position, position?_natCast inside, scope, here, bound, bind, Except.bind,
        throw, throwThe, MonadExceptOf.throw] at failed
      subst failed
      rfl
  | false =>
      simp [addMacro, position, position?_natCast inside, scope, here, bound, bind, Except.bind,
        pure, Except.pure] at failed

theorem bindAlias_error {target : Nat} {loc : Location} (inside : n < t.size)
    (there : target < t.size) (failed : t.bindAlias n target loc = .error e) : e.Blames loc := by
  obtain ⟨s, here⟩ := exists_scope inside
  obtain ⟨goal, found⟩ := exists_scope there
  cases bound : s.binds goal.name with
  | true =>
      simp [bindAlias, position, position?_natCast inside, scope, here, found, bound, bind,
        Except.bind, throw, throwThe, MonadExceptOf.throw] at failed
      subst failed
      rfl
  | false =>
      simp [bindAlias, position, position?_natCast inside, scope, here, found, bound, bind,
        Except.bind, pure, Except.pure] at failed

/-- A build is stopped by a definition or an import among the items, or in the body of
a definition, and is blamed there. -/
theorem Arena.collect_error {kind : Token → Prop} (t : ScopeTree) (n : Nat) (items : List Item)
    (h : t.Arena) (inside : n < t.size) (made : ∀ item ∈ items, item.Made kind)
    (failed : (t.collect n items).2 = .error e) : ∃ value loc, kind ⟨value, loc⟩ ∧ e.Blames loc := by
  fun_induction collect t n items with
  | case1 => cases failed
  | case2 t n name body loc items e' refused =>
      cases failed
      obtain ⟨first, -⟩ := List.forall_mem_cons.mp made
      cases first with
      | define known => exact ⟨_, loc, known, addMacro_error inside refused⟩
  | case3 t n name body loc items t₁ child added t₂ e' collected ih =>
      cases failed
      obtain ⟨first, -⟩ := List.forall_mem_cons.mp made
      rw [collected] at ih
      cases first with
      | define _ within =>
          refine ih (h.of_addMacro added) ?_ within rfl
          obtain ⟨_, _, -, -, -, rfl, rfl⟩ := addMacro_eq_ok added
          simp [ScopeTree.size]
  | case4 t n name body loc items t₁ child added t₂ own collected ihBody ihItems =>
      have first := h.of_addMacro added
      have second := Arena.of_collect t₁ child body first
      have grows := (Grown.of_collect t₁ child body first.upright).grows
      rw [collected] at second grows
      refine ihItems (second.stored child own) ?_ (List.forall_mem_cons.mp made).2 failed
      have size : n < t₂.size :=
        Nat.lt_of_lt_of_le inside (Nat.le_trans (Grows.of_addMacro added).size grows.size)
      simpa [ScopeTree.size, ScopeTree.modify] using size
  | case5 t n path loc items e' unfound =>
      cases failed
      obtain ⟨first, -⟩ := List.forall_mem_cons.mp made
      cases first with
      | use _ known => exact ⟨_, loc, known, h.findImport_error inside unfound⟩
  | case6 t n path loc items target found e' refused =>
      cases failed
      obtain ⟨first, -⟩ := List.forall_mem_cons.mp made
      have there := find_lt (findImport_eq_ok_iff.mp found)
      cases first with
      | use _ known => exact ⟨_, loc, known, bindAlias_error inside there refused⟩
  | case7 t n path loc items target found t₁ a bound ih =>
      obtain ⟨goal, there, named⟩ := find_macro (findImport_eq_ok_iff.mp found)
      have size := (Grows.of_bindAlias bound).size
      refine ih (h.of_bindAlias (by rw [there]; exact named) bound) ?_
        (List.forall_mem_cons.mp made).2 failed
      exact Nat.lt_of_lt_of_le inside size
  | case8 t n item items _ _ t₁ e' collected ih =>
      cases failed
      rw [collected] at ih
      exact ih h inside (List.forall_mem_cons.mp made).2 rfl
  | case9 => cases failed

theorem Arena.build_error {kind : Token → Prop} (h : t.Arena) {root : String} {items : List Item}
    (fresh : t.rootIndex? root = none) (made : ∀ item ∈ items, item.Made kind)
    (failed : (t.build root items).2 = .error e) : ∃ value loc, kind ⟨value, loc⟩ ∧ e.Blames loc := by
  have added : t.addRoot root = .ok (⟨t.scopes.push ⟨t.size, root, none, none, [], [], none⟩,
      t.roots ++ [(root, t.size)]⟩, t.size) := by
    simp only [addRoot, fresh]
  refine collect_error _ t.size items (h.of_addRoot added) (by simp [ScopeTree.size]) made ?_
  simp only [build, added] at failed
  split at failed
  · next collected =>
      rw [collected]
      cases failed
      rfl
  · cases failed

theorem rootIndex?_of_build {root : String} {items : List Item} (up : t.Upright)
    (done : (t.build root items).2 = .ok ()) :
    (t.build root items).1.rootIndex? root = some t.size := by
  cases added : t.addRoot root with
  | error e => simp [build, added] at done
  | ok made =>
      obtain ⟨t', n⟩ := made
      have grown := Grown.of_collect t' n items (Grown.of_addRoot up added).upright
      rcases collected : t'.collect n items with ⟨t'', e | own⟩
      · simp [build, added, collected] at done
      · simp only [build, added, collected]
        rw [collected] at grown
        obtain ⟨fresh, rfl, rfl⟩ := addRoot_eq_ok added
        refine grown.grows.root ?_
        rw [rootIndex?, List.lookup_append]
        simp [show t.roots.lookup root = none from fresh]

end ScopeTree

end ByteTape
