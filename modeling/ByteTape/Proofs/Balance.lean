import Mathlib.Data.List.Count
import Mathlib.Data.List.Infix

/-! # Balance

When a sequence opens and closes brackets evenly. The definition counts over
front parts; `Closes` is the same with brackets still open from before, which is
what an induction along the sequence meets.
-/

namespace ByteTape

variable {α : Type} [DecidableEq α] {opening closing : α}

/-- No front part closes more than it opens, and the whole closes what it opens. -/
def Balanced (opening closing : α) (xs : List α) : Prop :=
  (∀ front, front <+: xs → front.count closing ≤ front.count opening) ∧
    xs.count closing = xs.count opening

instance (xs : List α) : Decidable (Balanced opening closing xs) :=
  decidable_of_iff ((∀ front ∈ xs.inits, front.count closing ≤ front.count opening) ∧
    xs.count closing = xs.count opening) (by simp only [Balanced, List.mem_inits])

theorem balanced_map {β : Type} [DecidableEq β] {f : α → β} (injective : Function.Injective f)
    {xs : List α} : Balanced (f opening) (f closing) (xs.map f) ↔ Balanced opening closing xs := by
  simp only [Balanced, List.prefix_map_iff, List.count_map_of_injective _ f injective,
    forall_exists_index, and_imp]
  refine and_congr_left fun _ => ⟨fun fronts front before => ?_, ?_⟩
  · simpa only [List.count_map_of_injective _ f injective] using fronts _ front before rfl
  · rintro fronts _ front before rfl
    simpa only [List.count_map_of_injective _ f injective] using fronts front before

/-- Behind `depth` open brackets: no front part closes more than is open then, and
in the end all are closed. -/
def Closes (opening closing : α) (depth : Nat) (xs : List α) : Prop :=
  (∀ front, front <+: xs → front.count closing ≤ depth + front.count opening) ∧
    xs.count closing = depth + xs.count opening

theorem balanced_iff_closes {xs : List α} :
    Balanced opening closing xs ↔ Closes opening closing 0 xs := by
  simp only [Balanced, Closes, Nat.zero_add]

namespace Closes

theorem nil_iff {depth : Nat} : Closes opening closing depth [] ↔ depth = 0 := by
  simp only [Closes, List.prefix_nil, forall_eq, List.count_nil]
  omega

theorem cons_other_iff {depth : Nat} {x : α} {xs : List α} (opens : x ≠ opening)
    (closes : x ≠ closing) :
    Closes opening closing depth (x :: xs) ↔ Closes opening closing depth xs := by
  simp only [Closes, List.prefix_cons_iff, forall_eq_or_imp, List.count_nil, forall_exists_index,
    and_imp, List.count_cons_of_ne opens, List.count_cons_of_ne closes]
  constructor
  · rintro ⟨⟨-, fronts⟩, total⟩
    exact ⟨fun front before => by
      simpa only [List.count_cons_of_ne opens, List.count_cons_of_ne closes] using
        fronts _ front rfl before, total⟩
  · rintro ⟨fronts, total⟩
    refine ⟨⟨Nat.zero_le _, ?_⟩, total⟩
    rintro _ front rfl before
    simpa only [List.count_cons_of_ne opens, List.count_cons_of_ne closes] using fronts front before

theorem cons_opening_iff (distinct : opening ≠ closing) {depth : Nat} {xs : List α} :
    Closes opening closing depth (opening :: xs) ↔ Closes opening closing (depth + 1) xs := by
  simp only [Closes, List.prefix_cons_iff, forall_eq_or_imp, List.count_nil, forall_exists_index,
    and_imp, List.count_cons_self, List.count_cons_of_ne distinct]
  constructor
  · rintro ⟨⟨-, fronts⟩, total⟩
    refine ⟨fun front before => ?_, by omega⟩
    have bound := fronts _ front rfl before
    simp only [List.count_cons_self, List.count_cons_of_ne distinct] at bound
    omega
  · rintro ⟨fronts, total⟩
    refine ⟨⟨Nat.zero_le _, ?_⟩, by omega⟩
    rintro _ front rfl before
    have bound := fronts front before
    simp only [List.count_cons_self, List.count_cons_of_ne distinct]
    omega

theorem cons_closing_iff (distinct : opening ≠ closing) {depth : Nat} {xs : List α} :
    Closes opening closing depth (closing :: xs) ↔
      ∃ outer, depth = outer + 1 ∧ Closes opening closing outer xs := by
  simp only [Closes, List.prefix_cons_iff, forall_eq_or_imp, List.count_nil, forall_exists_index,
    and_imp, List.count_cons_self, List.count_cons_of_ne distinct.symm]
  constructor
  · rintro ⟨⟨-, fronts⟩, total⟩
    have something := fronts _ [] rfl (List.nil_prefix)
    simp only [List.count_cons_self, List.count_nil, List.count_cons_of_ne distinct.symm] at something
    refine ⟨depth - 1, by omega, fun front before => ?_, by omega⟩
    have bound := fronts _ front rfl before
    simp only [List.count_cons_self, List.count_cons_of_ne distinct.symm] at bound
    omega
  · rintro ⟨outer, rfl, fronts, total⟩
    refine ⟨⟨Nat.zero_le _, ?_⟩, by omega⟩
    rintro _ front rfl before
    have bound := fronts front before
    simp only [List.count_cons_self, List.count_cons_of_ne distinct.symm]
    omega

end Closes

end ByteTape
