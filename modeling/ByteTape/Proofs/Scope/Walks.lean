import ByteTape.Scope.Walk

/-! # Walks that arrive

What it takes for a path to lead to a macro, one hop at a time. Later modules use
these statements in place of the walk itself.
-/

namespace ByteTape.ScopeTree

variable {t : ScopeTree} {ref : Reference} {n m : Nat}

theorem position_eq_ok_iff {i : Int} : t.position i = .ok n ↔ t.position? i = some n := by
  unfold position
  cases t.position? i <;> simp

theorem position?_natCast (inside : n < t.size) : t.position? (n : Int) = some n := by
  simp [position?, inside]

theorem root_eq_ok_iff {name : String} : t.root name = .ok n ↔ t.rootIndex? name = some n := by
  unfold root
  cases t.rootIndex? name <;> simp

theorem aliasTarget_eq_ok_iff {a : Alias} :
    t.aliasTarget a = .ok m ↔ ∃ i k s, a.scope = some i ∧ t.position? i = some k ∧
      t.scopes[k]? = some s ∧ s.child? a.name = some m := by
  unfold aliasTarget
  cases held : a.scope with
  | none => simp [throw, throwThe, MonadExceptOf.throw]
  | some i =>
      cases place : t.position? i with
      | none => simp [position, place, bind, Except.bind]
      | some k =>
          cases there : t.scopes[k]? with
          | none => simp [position, place, scope, there, bind, Except.bind]
          | some s =>
              cases named : s.child? a.name with
              | none => simp [position, place, scope, there, named, bind, Except.bind, throw,
                  throwThe, MonadExceptOf.throw]
              | some c => simp [position, place, scope, there, named, bind, Except.bind, pure,
                  Except.pure]

theorem descend_nil_ok_iff :
    (t.descend ref n []).outcome = .ok m ↔ m = n ∧ ∃ s, t.scopes[n]? = some s ∧ s.isMacro := by
  unfold descend
  cases here : t.scopes[n]? with
  | none => simp [Walk.fail]
  | some s =>
      cases kind : s.isMacro with
      | false => simp [Walk.fail, kind]
      | true =>
          simp only [kind, if_true, Except.ok.injEq, Option.some.injEq]
          exact ⟨fun same => ⟨same.symm, s, rfl, kind⟩, fun h => h.1.symm⟩

/-- The next name is imported, and then the last, or it is that of a child. -/
theorem descend_cons_ok_iff {name : String} {steps : List String} :
    (t.descend ref n (name :: steps)).outcome = .ok m ↔ ∃ s, t.scopes[n]? = some s ∧
      ((∃ a k, s.alias? name = some a ∧ steps = [] ∧ t.aliasTarget a = .ok k ∧
          (t.descend ref k steps).outcome = .ok m) ∨
        (s.alias? name = none ∧ ∃ k, s.child? name = some k ∧
          (t.descend ref k steps).outcome = .ok m)) := by
  rw [descend.eq_def]
  cases here : t.scopes[n]? with
  | none => simp [Walk.fail]
  | some s =>
      cases imported : s.alias? name with
      | some a =>
          cases steps with
          | cons next steps => simp [Walk.fail, imported]
          | nil =>
              cases goal : t.aliasTarget a with
              | error e => simp [Walk.fail, imported, goal]
              | ok k => simp [Walk.behind, imported, goal]
      | none =>
          cases named : s.child? name with
          | none => simp [Walk.fail, imported, named]
          | some k => simp [Walk.behind, imported, named]

theorem climb_succ_ok_iff {k : Nat} :
    (t.climb ref n (k + 1)).outcome = .ok m ↔ ∃ s i up, t.scopes[n]? = some s ∧
      s.parent = some i ∧ t.position? i = some up ∧ up < t.size ∧
        (t.climb ref up k).outcome = .ok m := by
  rw [climb]
  cases here : t.scopes[n]? with
  | none => simp [Walk.fail]
  | some s =>
      cases above : s.parent with
      | none => simp [Walk.fail, above]
      | some i =>
          cases place : t.position? i with
          | none => simp [Walk.fail, above, place]
          | some up =>
              cases there : t.scopes[up]? with
              | none =>
                  have out : ¬ up < t.size := Nat.not_lt.mpr (Array.getElem?_eq_none_iff.mp there)
                  simp [Walk.fail, above, place, there, out]
              | some s' =>
                  have inside : up < t.size := (Array.getElem?_eq_some_iff.mp there).1
                  simp [Walk.behind, above, place, there, inside]

/-- A path goes up first, or it begins at a root that its first step names, or it
goes down from where it is written. -/
theorem find_eq_ok_iff :
    t.find n ref = .ok m ↔ n < t.size ∧
      ((ref.path.up ≠ 0 ∧ (t.climb ref n ref.path.up).outcome = .ok m) ∨
        (ref.path.up = 0 ∧ ∃ name steps r, ref.path.steps = name :: steps ∧
          t.rootIndex? name = some r ∧ (t.descend ref r steps).outcome = .ok m) ∨
        (ref.path.up = 0 ∧ (∀ name ∈ ref.path.steps.head?, t.rootIndex? name = none) ∧
          (t.descend ref n ref.path.steps).outcome = .ok m)) := by
  unfold find walk
  by_cases inside : n < t.size
  · have outside : ¬ t.size ≤ n := Nat.not_le.mpr inside
    by_cases level : ref.path.up = 0
    · cases path : ref.path.steps with
      | nil => simp [outside, inside, level, anchor]
      | cons name steps =>
          cases named : t.rootIndex? name with
          | none => simp [outside, inside, level, anchor, named]
          | some r =>
              simp only [outside, inside, level, anchor, named, Walk.behind, if_true, if_false,
                true_and, ne_eq, not_true_eq_false, false_and, false_or, List.head?_cons,
                Option.mem_def, Option.some.injEq, forall_eq', reduceCtorEq, or_false]
              constructor
              · intro h
                exact ⟨name, steps, r, rfl, named, h⟩
              · rintro ⟨_, _, r', same, named', h⟩
                obtain ⟨rfl, rfl⟩ := List.cons.inj same
                obtain rfl := Option.some.inj (named.symm.trans named')
                exact h
    · simp [outside, inside, level]
  · simp [Nat.not_lt.mp inside, inside, Walk.fail]

theorem descend_macro {steps : List String} (h : (t.descend ref n steps).outcome = .ok m) :
    ∃ s, t.scopes[m]? = some s ∧ s.isMacro := by
  induction steps generalizing n with
  | nil =>
      obtain ⟨rfl, s, here, kind⟩ := descend_nil_ok_iff.mp h
      exact ⟨s, here, kind⟩
  | cons name steps ih =>
      obtain ⟨-, -, ⟨-, _, -, -, -, rest⟩ | ⟨-, _, -, rest⟩⟩ := descend_cons_ok_iff.mp h
      · exact ih rest
      · exact ih rest

theorem climb_macro {k : Nat} (h : (t.climb ref n k).outcome = .ok m) :
    ∃ s, t.scopes[m]? = some s ∧ s.isMacro := by
  induction k generalizing n with
  | zero => exact descend_macro h
  | succ k ih =>
      obtain ⟨-, -, _, -, -, -, -, rest⟩ := climb_succ_ok_iff.mp h
      exact ih rest

theorem find_macro (h : t.find n ref = .ok m) : ∃ s, t.scopes[m]? = some s ∧ s.isMacro := by
  obtain ⟨-, ⟨-, rest⟩ | ⟨-, _, _, _, -, -, rest⟩ | ⟨-, -, rest⟩⟩ := find_eq_ok_iff.mp h
  · exact climb_macro rest
  · exact descend_macro rest
  · exact descend_macro rest

end ByteTape.ScopeTree
