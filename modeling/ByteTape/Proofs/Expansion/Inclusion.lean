import Mathlib.Logic.Relation
import ByteTape.Expansion

/-! # Inclusion of macros

Which macros the body of a scope includes, and the code of a body when nothing is
remembered from one macro to the next. Such code is a function of the tree, of the
scope, and of the chain of macros that are under way. The chain decides only
whether there is code at all: a body that has code under one chain has the same
code under every chain that none of the macros below it is part of.
-/

namespace ByteTape

namespace Item

mutual

/-- The code of an item, given the code of each reference. -/
def code (look : Reference → Except ExpansionError Code) : Item → Except ExpansionError Code
  | .op o loc => .ok [(o, loc)]
  | .debug loc => .ok [(.debug, loc)]
  | .text bytes loc => .ok ((textOps bytes).map (·, loc))
  | .ref path loc => look ⟨path, false, loc⟩
  | .use path loc => .error (.use (Reference.render ⟨path, true, loc⟩) loc)
  | .define name _ loc => .error (.definition name loc)
  | .group members _ => codes look members
  | .times count target _ =>
    match code look target with
    | .error e => .error e
    | .ok code =>
      match count.value with
      | .ok n => .ok (List.replicate n.toNat code).flatten
      | .error e => .error (.count e)

/-- The code of items one after the other. -/
def codes (look : Reference → Except ExpansionError Code) :
    List Item → Except ExpansionError Code
  | [] => .ok []
  | first :: rest =>
    match code look first with
    | .error e => .error e
    | .ok front =>
      match codes look rest with
      | .error e => .error e
      | .ok back => .ok (front ++ back)

end

mutual

/-- The plain references in an item, also those that are repeated no times. -/
def refs : Item → List Reference
  | .ref path loc => [⟨path, false, loc⟩]
  | .group members _ => refsOf members
  | .times _ target _ => refs target
  | .op .. | .debug .. | .text .. | .use .. | .define .. => []

/-- The plain references in items. -/
def refsOf : List Item → List Reference
  | [] => []
  | first :: rest => refs first ++ refsOf rest

end

section
variable {look look' : Reference → Except ExpansionError Code}

mutual

theorem code_congr (item : Item) (same : ∀ ref ∈ item.refs, look ref = look' ref) :
    item.code look = item.code look' := by
  cases item with
  | op | debug | text | use | define => simp only [code]
  | ref path loc => exact same _ (List.mem_singleton_self _)
  | group members loc =>
      simp only [code]
      exact codes_congr members same
  | times count target loc => simp only [code, code_congr target same]
termination_by sizeOf item

theorem codes_congr (items : List Item) (same : ∀ ref ∈ refsOf items, look ref = look' ref) :
    codes look items = codes look' items := by
  cases items with
  | nil => simp only [codes]
  | cons first rest =>
      have front := code_congr first fun ref there => same ref (List.mem_append_left _ there)
      have back := codes_congr rest fun ref there => same ref (List.mem_append_right _ there)
      simp only [codes, front, back]
termination_by sizeOf items

end

mutual

theorem look_ok_of_code (item : Item) {code : Code} (done : item.code look = .ok code) :
    ∀ ref ∈ item.refs, ∃ part, look ref = .ok part := by
  intro ref there
  cases item with
  | op | debug | text | use | define => cases there
  | ref path loc =>
      obtain rfl := List.mem_singleton.mp there
      exact ⟨code, done⟩
  | group members loc =>
      simp only [Item.code] at done
      exact look_ok_of_codes members done ref there
  | times count target loc =>
      simp only [Item.code] at done
      split at done
      · cases done
      · next found => exact look_ok_of_code target found ref there
termination_by sizeOf item

theorem look_ok_of_codes (items : List Item) {code : Code} (done : codes look items = .ok code) :
    ∀ ref ∈ refsOf items, ∃ part, look ref = .ok part := by
  intro ref there
  cases items with
  | nil => cases there
  | cons first rest =>
      simp only [codes] at done
      split at done
      · cases done
      · next front =>
          split at done
          · cases done
          · next back =>
              obtain here | later := List.mem_append.mp there
              · exact look_ok_of_code first front ref here
              · exact look_ok_of_codes rest back ref later
termination_by sizeOf items

end

theorem codes_ok_of_look {items : List Item} {code : Code} (done : codes look items = .ok code)
    (kept : ∀ ref ∈ refsOf items, ∀ part, look ref = .ok part → look' ref = .ok part) :
    codes look' items = .ok code := by
  rw [← done]
  refine (codes_congr items fun ref there => ?_).symm
  obtain ⟨part, found⟩ := look_ok_of_codes items done ref there
  rw [found, kept ref there part found]

end

end Item

namespace ScopeTree

/-- The items of scope `n`, none if there is no such scope. -/
def itemsOf (t : ScopeTree) (n : Nat) : List Item := (t.scopes[n]?.map Scope.items).getD []

/-- A plain reference in the body of scope `n` leads to macro `m`. -/
def Includes (t : ScopeTree) (n m : Nat) : Prop :=
  ∃ ref ∈ Item.refsOf (t.itemsOf n), t.find n ref = .ok m

/-- Every body of `t` is one of `t'` too, where `f` gives the number of its scope there,
and its references lead where they led. -/
structure KeepsBodies (f : Nat → Nat) (t t' : ScopeTree) : Prop where
  injective : ∀ {n m : Nat}, n < t.size → m < t.size → f n = f m → n = m
  items : ∀ {n : Nat}, n < t.size → t'.itemsOf (f n) = t.itemsOf n
  find : ∀ {n m : Nat} {ref : Reference}, ref ∈ Item.refsOf (t.itemsOf n) →
    t.find n ref = .ok m → t'.find (f n) ref = .ok (f m)

theorem KeepsBodies.refl (t : ScopeTree) : KeepsBodies id t t :=
  ⟨fun _ _ same => same, fun _ => rfl, fun _ h => h⟩

theorem Includes.lt_size {t : ScopeTree} {n m : Nat} (h : t.Includes n m) : m < t.size := by
  obtain ⟨_, _, found⟩ := h
  exact find_lt found

end ScopeTree

namespace Expansion

theorem mem_map_cast {chain : List Nat} {n : Nat} :
    (n : Int) ∈ (chain.map Nat.cast : List Int) ↔ n ∈ chain := by
  simp only [List.mem_map, Int.natCast_inj, exists_eq_right]

theorem idle_map_lt {t : ScopeTree} {chain : List Nat} {n : Nat} (inside : n < t.size)
    (fresh : n ∉ chain) :
    idle t ((chain ++ [n]).map Nat.cast) < idle t (chain.map Nat.cast) := by
  rw [List.map_append]
  exact idle_lt inside fun under => fresh (mem_map_cast.mp under)

/-- The code of the body of scope `n` while the macros `chain` are under way, with
nothing remembered. -/
def bodyCode (t : ScopeTree) (chain : List Nat) (n : Nat) : Except ExpansionError Code :=
  Item.codes (fun ref =>
    match _found : t.find n ref with
    | .error e => .error (.scope e)
    | .ok m =>
      if _under : m ∈ chain then .error (cycle t (chain.map Nat.cast) m ref.loc)
      else bodyCode t (chain ++ [m]) m) (t.itemsOf n)
termination_by idle t (chain.map Nat.cast)
decreasing_by exact idle_map_lt (ScopeTree.find_lt _found) _under

/-- The code of a reference in scope `n` while the macros `chain` are under way. -/
def refCode (t : ScopeTree) (chain : List Nat) (n : Nat) (ref : Reference) :
    Except ExpansionError Code :=
  match t.find n ref with
  | .error e => .error (.scope e)
  | .ok m =>
    if m ∈ chain then .error (cycle t (chain.map Nat.cast) m ref.loc)
    else bodyCode t (chain ++ [m]) m

/-- A chain can only be made longer by so much: the induction along which macros are
expanded. -/
theorem chain_induction {t : ScopeTree} {motive : List Nat → Nat → Prop}
    (step : ∀ chain n, (∀ m, t.Includes n m → m ∉ chain → motive (chain ++ [m]) m) →
      motive chain n) (chain : List Nat) (n : Nat) : motive chain n :=
  step chain n fun m _included _fresh => chain_induction step (chain ++ [m]) m
termination_by idle t (chain.map Nat.cast)
decreasing_by
  exact idle_map_lt _included.lt_size _fresh

section
open Relation

variable {t t' : ScopeTree} {chain chain' : List Nat} {n m : Nat} {code : Code}

theorem bodyCode_eq (t : ScopeTree) (chain : List Nat) (n : Nat) :
    bodyCode t chain n = Item.codes (refCode t chain n) (t.itemsOf n) := by
  rw [bodyCode]
  refine Item.codes_congr _ fun ref _ => ?_
  unfold refCode
  split <;> simp_all

theorem refCode_eq_ok_iff {ref : Reference} :
    refCode t chain n ref = .ok code ↔
      ∃ m, t.find n ref = .ok m ∧ m ∉ chain ∧ bodyCode t (chain ++ [m]) m = .ok code := by
  unfold refCode
  cases found : t.find n ref with
  | error e => simp
  | ok m => by_cases under : m ∈ chain <;> simp [under]

theorem bodyCode_of_includes (done : bodyCode t chain n = .ok code) (included : t.Includes n m) :
    m ∉ chain ∧ ∃ part, bodyCode t (chain ++ [m]) m = .ok part := by
  obtain ⟨ref, there, found⟩ := included
  rw [bodyCode_eq] at done
  obtain ⟨part, known⟩ := Item.look_ok_of_codes _ done ref there
  obtain ⟨m', found', fresh, below⟩ := refCode_eq_ok_iff.mp known
  obtain rfl := Except.ok.inj (found.symm.trans found')
  exact ⟨fresh, part, below⟩

/-- No macro below a body that has code is under way. -/
theorem not_mem_of_bodyCode (done : bodyCode t chain n = .ok code)
    (below : TransGen t.Includes n m) : m ∉ chain := by
  induction below using TransGen.head_induction_on generalizing chain code with
  | single included => exact (bodyCode_of_includes done included).1
  | head included _ ih =>
      obtain ⟨-, part, done⟩ := bodyCode_of_includes done included
      intro under
      exact ih done (List.mem_append_left _ under)

theorem acyclic_of_bodyCode (done : bodyCode t chain n = .ok code) :
    ¬ TransGen t.Includes n n := by
  intro back
  -- `n` itself need not be under way, but the next macro on the cycle is
  obtain ⟨m, included, rest⟩ := TransGen.head'_iff.mp back
  obtain ⟨-, part, done'⟩ := bodyCode_of_includes done included
  have apart := not_mem_of_bodyCode done' (TransGen.tail' rest included)
  exact apart (List.mem_append_right _ (List.mem_singleton_self m))

/-- The code of a body does not depend on the chain, nor on what is new in a tree
that keeps its bodies, nor on the numbers of the scopes. -/
theorem bodyCode_kept {f : Nat → Nat} (keeps : ScopeTree.KeepsBodies f t t') (inside : n < t.size)
    (clear : ∀ m, TransGen t.Includes n m → f m ∉ chain') (done : bodyCode t chain n = .ok code) :
    bodyCode t' chain' (f n) = .ok code := by
  induction chain, n using chain_induction (t := t) generalizing chain' code with
  | step chain n ih =>
      rw [bodyCode_eq] at done ⊢
      rw [keeps.items inside]
      refine Item.codes_ok_of_look done fun ref there part known => ?_
      obtain ⟨m, found, fresh, below⟩ := refCode_eq_ok_iff.mp known
      have included : t.Includes n m := ⟨ref, there, found⟩
      refine refCode_eq_ok_iff.mpr ⟨f m, keeps.find there found, clear m (.single included), ?_⟩
      -- nothing below `m` is `m` itself, or its code would not have come to an end
      refine ih m included fresh included.lt_size (fun k further => ?_) below
      rw [List.mem_append, List.mem_singleton, not_or]
      refine ⟨clear k (.head included further), fun same => ?_⟩
      obtain ⟨_, _, last⟩ := TransGen.tail'_iff.mp further
      obtain rfl := keeps.injective last.lt_size included.lt_size same
      exact not_mem_of_bodyCode below further (List.mem_append_right _ (List.mem_singleton_self _))

end

end Expansion

end ByteTape
