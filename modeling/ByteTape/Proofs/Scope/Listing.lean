import ByteTape.Proofs.Fallible
import ByteTape.Proofs.Scope.Failures
import ByteTape.Scope.Outline

/-! # Trees that can be listed

A listing follows the numbers that the scopes hold. In a tree where these fit together
each of them leads to a scope, and those of children lead upwards, so that as many levels
as there are scopes are enough.
-/

namespace ByteTape

theorem lookup_of_mem {β : Type} {name : String} {value : β} {list : List (String × β)}
    (distinct : (list.map Prod.fst).Nodup) (there : (name, value) ∈ list) :
    list.lookup name = some value := by
  obtain ⟨before, after, rfl⟩ := List.append_of_mem there
  rw [List.map_append, List.map_cons, List.nodup_append] at distinct
  rw [List.lookup_eq_some_iff]
  refine ⟨before, after, rfl, fun pair earlier => ?_⟩
  have apart := distinct.2.2 pair.1 (List.mem_map_of_mem earlier) name List.mem_cons_self
  simpa using apart.symm

theorem mem_of_lookup {β : Type} {name : String} {value : β} {list : List (String × β)}
    (known : list.lookup name = some value) : (name, value) ∈ list := by
  obtain ⟨before, after, rfl, -⟩ := List.lookup_eq_some_iff.mp known
  exact List.mem_append_cons_self

namespace ScopeTree

variable {t : ScopeTree}

theorem Leads.aliasName {a : Alias} (h : t.Leads a) : ∃ name, t.aliasName a = .ok name := by
  obtain ⟨m, goal, -⟩ := h.aliasTarget
  exact exists_bind_eq_ok ⟨m, goal⟩ fun m _ => ⟨t.fullName m, rfl⟩

namespace Arena

theorem named_of_child (h : t.Arena) {n : Nat} {s : Scope} {child : String × Nat}
    (here : t.scopes[n]? = some s) (there : child ∈ s.children) :
    t.Named child.2 (some (n : Int)) child.1 :=
  (h.child here).mp (lookup_of_mem (h.tidy.scope here).children there)

theorem named_of_root (h : t.Arena) {root : String × Nat} (there : root ∈ t.roots) :
    t.Named root.2 none root.1 :=
  h.root.mp (lookup_of_mem h.roots there)

theorem child_of_mem (h : t.Arena) {n m : Nat} {s : Scope} {name : String}
    (here : t.scopes[n]? = some s) (there : (name, m) ∈ s.children) : n < m ∧ m < t.size := by
  obtain ⟨s', here', parent, -⟩ := h.named_of_child here there
  have before := (h.parent here' parent).2
  exact ⟨by omega, lt_size here'⟩

theorem leads_of_mem (h : t.Arena) {n : Nat} {s : Scope} {name : String} {a : Alias}
    (here : t.scopes[n]? = some s) (there : (name, a) ∈ s.aliases) : t.Leads a :=
  h.imported here (lookup_of_mem (h.tidy.scope here).aliases there)

theorem root_of_mem (h : t.Arena) {name : String} {n : Nat} (there : (name, n) ∈ t.roots) : n < t.size :=
  (h.named_of_root there).lt_size

/-- The numbers below a scope are larger than its own, so the levels that are left bound
how far there is to go. -/
theorem listingWithin (h : t.Arena) {fuel n : Nat} (inside : n < t.size) (enough : t.size ≤ n + fuel)
    (indent : Int) : ∃ lines, t.listingWithin fuel indent n = .ok lines := by
  induction fuel generalizing n indent with
  | zero => omega
  | succ fuel ih =>
      obtain ⟨s, here⟩ := exists_scope inside
      have found : t.scope n = .ok s := by rw [scope, here]
      refine exists_bind_eq_ok ⟨s, found⟩ fun s' same => ?_
      cases found.symm.trans same
      refine exists_bind_eq_ok (exists_mapM_eq_ok ?_) fun aliases _ =>
        exists_bind_eq_ok (exists_mapM_eq_ok ?_) fun children _ => ⟨_, rfl⟩
      · rintro ⟨name, a⟩ there
        exact exists_bind_eq_ok (h.leads_of_mem here there).aliasName fun target _ => ⟨_, rfl⟩
      · rintro ⟨name, m⟩ there
        obtain ⟨later, inside'⟩ := h.child_of_mem here there
        exact ih inside' (by omega) (indent + 1)

theorem fullListing (h : t.Arena) (indent : Int) : ∃ lines, t.fullListing indent = .ok lines := by
  have each : ∀ root ∈ t.roots, ∃ lines, t.listing indent root.2 = .ok lines := fun root there =>
    h.listingWithin (h.root_of_mem there) (Nat.le_add_left ..) indent
  exact exists_bind_eq_ok (exists_mapM_eq_ok each) fun parts _ => ⟨parts.flatten, rfl⟩

end Arena

end ScopeTree

end ByteTape
